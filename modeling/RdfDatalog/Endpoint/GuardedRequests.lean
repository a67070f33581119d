import RdfDatalog.Endpoint.OwlNothing
import RdfDatalog.Endpoint.RejectedUpdates

namespace RdfDatalog.Endpoint

open Datalog Datalog.IncrementalReasoner FallibleFold GraphElementManager

variable {N : NativeTypes} {Expr : Type}

theorem SameStatus.restored_iff {env : ReasonerEnv Expr} {programs : List (DatalogProgram Expr)}
    {base base' : QuadStore} {m' : IncrementalReasoner Expr} (h : SameStatus base base') :
    Restored env ⟨programs, base'⟩ m' ↔ Restored env ⟨programs, base⟩ m' := by
  have hstatus : SameStatus base' m'.base ↔ SameStatus base m'.base :=
    forall_congr' fun q => by rw [(h q).1, (h q).2]
  constructor
  · intro hm
    exact ⟨hstatus.mp hm.status, hm.rules, hm.maintained⟩
  · intro hm
    exact ⟨hstatus.mpr hm.status, hm.rules, hm.maintained⟩

section Rejected

variable {env : ServerEnv N Expr} (hf : env.rules.reasoning.env.FixedFilters) {s : AppState N Expr}
  {programs : List (DatalogProgram Expr)} {request : CheckedRequest} {store : Datastore N}
  {deletes inserts : List Quad} {m₁ : IncrementalReasoner Expr}
  (hreasoner : s.reasoner = some programs)
  (hm : Maintained env.rules.reasoning.env ⟨programs, s.store.store.namedGraphs⟩)
  (hdelta : request.delta env s = some (store, deletes, inserts))
  (hquiet : SameStatus s.store.store.namedGraphs store.namedGraphs)
  (h₁ : reasonDelta env.rules.reasoning (edited ⟨programs, store.namedGraphs⟩ deletes inserts)
    deletes inserts = .ok m₁)
  (hclean : CleanRollback env.rules.reasoning ⟨programs, store.namedGraphs⟩ m₁ deletes inserts)
  (hrejected : (request.answer env s).1.status = 409)
include hf hreasoner hm hdelta hquiet h₁ hclean hrejected

theorem CheckedRequest.restored_iff (htells : request.tellsReasoner = true) :
    ∃ programs', (request.answer env s).2.reasoner = some programs' ∧
      (Restored env.rules.reasoning.env ⟨programs, s.store.store.namedGraphs⟩
          ⟨programs', (request.answer env s).2.store.store.namedGraphs⟩ ↔
        ComesOff env.rules.reasoning.env (activeStrata programs)
          {q | s.store.store.namedGraphs.Extensional q} deletes inserts) := by
  have hleft := request.rejected hreasoner hdelta h₁ hrejected
  rw [RejectedAs, if_pos htells] at hleft
  obtain ⟨m₂, h₂, hprograms, hstore⟩ := hleft
  refine ⟨m₂.programs, hprograms, ?_⟩
  rw [hstore, hquiet.setOf_extensional, ← hquiet.restored_iff]
  exact rollback_restored_iff hf hclean (hm.congr hquiet) (request.delta_disjoint hdelta) h₁ h₂

theorem CheckedRequest.reverted_iff (htells : request.tellsReasoner = false) :
    ∃ programs', (request.answer env s).2.reasoner = some programs' ∧
      (SameStatus s.store.store.namedGraphs
          (request.answer env s).2.store.store.namedGraphs ↔
        ComesOffAlone env.rules.reasoning.env (activeStrata programs)
          {q | s.store.store.namedGraphs.Extensional q} deletes inserts) := by
  have hleft := request.rejected hreasoner hdelta h₁ hrejected
  rw [htells, RejectedAs, if_neg Bool.false_ne_true] at hleft
  obtain ⟨hprograms, hstore⟩ := hleft
  have hsame := revert_sameStatus_iff hf hclean (hm.congr hquiet)
    (request.delta_disjoint hdelta) h₁
  refine ⟨m₁.programs, hprograms, ?_⟩
  rw [hstore, hquiet.setOf_extensional, ← hsame]
  refine forall_congr' fun q => ?_
  rw [(hquiet q).1, (hquiet q).2]

/-- A request that is rejected for an instance of `owl:Nothing`, its delta taken cleanly by the
reasoner both ways, and nothing written to the store besides the delta. -/
theorem violation_rolledBack_iff :
    ∃ programs', (request.answer env s).2.reasoner = some programs' ∧
      (request.tellsReasoner = true →
        (Restored env.rules.reasoning.env ⟨programs, s.store.store.namedGraphs⟩
            ⟨programs', (request.answer env s).2.store.store.namedGraphs⟩ ↔
          ComesOff env.rules.reasoning.env (activeStrata programs)
            {q | s.store.store.namedGraphs.Extensional q} deletes inserts)) ∧
      (request.tellsReasoner = false →
        (SameStatus s.store.store.namedGraphs
            (request.answer env s).2.store.store.namedGraphs ↔
          ComesOffAlone env.rules.reasoning.env (activeStrata programs)
            {q | s.store.store.namedGraphs.Extensional q} deletes inserts)) := by
  cases htells : request.tellsReasoner with
  | true =>
    obtain ⟨programs', hprograms, hrestored⟩ := CheckedRequest.restored_iff hf hreasoner hm hdelta
      hquiet h₁ hclean hrejected htells
    exact ⟨programs', hprograms, fun _ => hrestored, fun hno => by cases hno⟩
  | false =>
    obtain ⟨programs', hprograms, hreverted⟩ := CheckedRequest.reverted_iff hf hreasoner hm hdelta
      hquiet h₁ hclean hrejected htells
    exact ⟨programs', hprograms, fun hyes => (by cases hyes), fun _ => hreverted⟩

end Rejected

section Sample

/-- A class whose members are instances of `owl:Nothing`. -/
def emptyClassRule : Rule Empty :=
  ⟨.normalHead ⟨.resource 0, .var "x", .resource 2, .resource 1⟩,
    [.positivePattern ⟨.resource 0, .var "x", .resource 2, .resource 3⟩]⟩

def emptyClassStore : Datastore NativeTypes.text :=
  { addOxQuad .new ⟨.namedNode owlNothing, rdfType, .namedNode "C", .defaultGraph⟩ with
    namedGraphs := .new }

/-- Updates put an instance into the class. -/
def memberServer : ServerEnv NativeTypes.text Empty :=
  { insertServer with
    trigParser := fun _ => .ok [⟨.namedNode "x", rdfType, .namedNode "C", .defaultGraph⟩] }

def memberState (m : IncrementalReasoner Empty) : AppState NativeTypes.text Empty :=
  ⟨⟨{ emptyClassStore with namedGraphs := m.base }, 0⟩, some m.programs, ∅, ∅, none⟩

theorem violation_rolledBack_member : ∃ m programs',
    new .plain [emptyClassRule] .new = .ok m ∧
      (runUpdate memberServer (memberState m) "" none).1.status = 409 ∧
      (runUpdate memberServer (memberState m) "" none).2.reasoner = some programs' ∧
      Restored .plain m ⟨programs',
        (runUpdate memberServer (memberState m) "" none).2.store.store.namedGraphs⟩ := by
  let inserts : List Quad := [⟨0, 4, 2, 3⟩]
  obtain ⟨m, hnew, hstatus, hno, m₁, h₁, hback⟩ :
      ∃ m, new .plain [emptyClassRule] .new = .ok m ∧
        (runUpdate memberServer (memberState m) "" none).1.status = 409 ∧
        (∀ q ∈ inserts, ¬ m.base.Extensional q) ∧
        ∃ m₁, reasonDelta .plain (edited m [] inserts) [] inserts = .ok m₁ ∧
          exceedsThreshold (edited m₁ inserts []).programs
            (backwardPhase (edited m₁ inserts []).programs inserts) = true := by decide
  have hf : ReasonerEnv.plain.FixedFilters := ReasonerEnv.plain_fixedFilters
  have horder : (RulePartitioner.new [emptyClassRule]).orderRules = .ok [[emptyClassRule]] := by
    decide
  have hm : Maintained .plain m :=
    new_supported hf horder (.of_clash (by decide)) (fun q hq => by cases hq) hnew
  have hfacts : ∀ q, q ∉ factHeads (activeStrata m.programs).flatten := by
    rw [(new_ok hf horder (.of_clash (by decide)) hnew).1]
    rintro q ⟨r, hr, hbody, -⟩
    rw [List.mem_singleton.mp hr] at hbody
    cases hbody
  have hclean : CleanRollback .plain m m₁ [] inserts := by
    refine ⟨fun q hq => absurd hq (hfacts q), .inl (new_tracks hf horder hnew),
      fun hne => absurd rfl hne, ?_, fun _ => .inl hback⟩
    rw [CleanDelta, if_neg (List.cons_ne_nil _ _)]
    exact .inl ⟨hback, .inr fun q hq => by cases hq⟩
  obtain ⟨programs', hprograms, hrestored, -⟩ := @violation_rolledBack_iff _ _
    memberServer hf (memberState m) _ (.runUpdate "" none) _ _ _ _ rfl hm rfl
    (fun q => ⟨Iff.rfl, Iff.rfl⟩) h₁ hclean hstatus
  refine ⟨m, programs', hnew, hstatus, hprograms, (hrestored rfl).mpr ⟨hno, ?_⟩⟩
  intro q hq
  cases hq

/-- Updates insert the stored quad once more, with an instance of `owl:Nothing`. -/
def nothingServer : ServerEnv NativeTypes.text Empty :=
  { insertServer with
    trigParser := fun _ =>
      .ok [sampleQuad, ⟨.namedNode "x", rdfType, .namedNode owlNothing, .defaultGraph⟩] }

/-- A rejected update takes the stored quad with it. -/
theorem violation_loses_asserted : ∃ m s',
    new .plain [copyRule] sampleStore.namedGraphs = .ok m ∧ Maintained .plain m ∧
      checkOwlNothing nothingServer { sampleStore with namedGraphs := m.base } 10 10 = [] ∧
      runUpdate nothingServer
        ⟨⟨{ sampleStore with namedGraphs := m.base }, 0⟩, some m.programs, ∅, ∅, none⟩ "" none =
          s' ∧
      s'.1.status = 409 ∧ m.base.Extensional ⟨0, 1, 2, 3⟩ ∧
      ⟨0, 1, 2, 3⟩ ∉ s'.2.store.store.namedGraphs := by
  obtain ⟨m, hnew, hno, hstatus, hext, hgone⟩ :
      ∃ m, new .plain [copyRule] sampleStore.namedGraphs = .ok m ∧
        let s' := runUpdate nothingServer
          ⟨⟨{ sampleStore with namedGraphs := m.base }, 0⟩, some m.programs, ∅, ∅, none⟩ "" none
        (checkOwlNothing nothingServer
            { sampleStore with namedGraphs := m.base } 10 10).isEmpty = true ∧
          s'.1.status = 409 ∧ m.base.Extensional ⟨0, 1, 2, 3⟩ ∧
          ⟨0, 1, 2, 3⟩ ∉ s'.2.store.store.namedGraphs := by decide
  have horder : (RulePartitioner.new [copyRule]).orderRules = .ok [[copyRule]] := by
    decide
  have hstored : ∀ q ∈ sampleStore.namedGraphs.quadList,
      sampleStore.namedGraphs.Extensional q := by decide
  have hm : Maintained .plain m := by
    refine new_supported ReasonerEnv.plain_fixedFilters horder (.of_clash (by decide))
      (fun q hq => ?_) hnew
    exact subset_strataModel _ _ _ (hstored q hq)
  exact ⟨m, _, hnew, hm, List.isEmpty_iff.mp hno, rfl, hstatus, hext, hgone⟩

end Sample

section Updates

variable {env : UpdateEnv N} {network : NetworkPolicy} {st st' : Pending N}

theorem loadFetched_interned {store : Datastore N} (h : store.Interned) (tmp : Datastore N)
    (into : Option String) : (loadFetched store tmp into).Interned := by
  have hwritten {store₁ : Datastore N} {g : GraphElementId} {ge : GraphElement N}
      (hgraphs : store₁.namedGraphs = store.namedGraphs)
      (hext : store.resources.Extends store₁.resources)
      (hg : store₁.resources.getGraphElement g = some ge) :
      let result := (tmp.namedGraphs.table.getGraph defaultGraphElementId).foldl
        (translateQuad tmp g) (store₁, [])
      (result.2.foldl Datastore.addQuad result.1).Interned := by
    have hmove := (Translated.start store₁).moveDefaultGraph tmp hg
    intro result q hq
    rw [foldl_addQuad_namedGraphs, QuadStore.mem_foldl_addQuad, hmove.namedGraphs, hgraphs] at hq
    rw [foldl_addQuad_resources]
    rcases hq with hq | hq
    · exact (h q hq).extends (hext.trans hmove.extended)
    · exact hmove.interned q hq
  cases into with
  | none => exact hwritten rfl (.refl _) store.resources.defaultGraph
  | some iri => exact hwritten rfl (store.addResource_extends _) (store.addResource_get _)

theorem applyOp_interned (h : st.Interned) {op : PreparedOp N} (hop : op.Interned)
    (hrun : applyOp env network st op = .ok st') : st'.Interned := by
  by_cases hload : op.isLoad = true
  · cases op with
    | loadGraph source into silent =>
      rcases applyOp_loadGraph hrun with ⟨-, rfl⟩ | ⟨tmp, -, rfl⟩
      · exact h
      · have hext := loadFetched_extends st.store tmp into
        exact ⟨loadFetched_interned h.store tmp into, fun q hq => (h.inserts q hq).extends hext,
          fun q hq => (h.deletes q hq).extends hext⟩
    | _ => cases hload
  · have hstep := applyOp_refines env network h hop (Bool.eq_false_iff.mpr hload)
    cases hplan : op.plan env st.buffer.view with
    | error e =>
      rw [hplan, hrun] at hstep
      cases hstep
    | ok f =>
      rw [hplan] at hstep
      obtain ⟨st₁, hst₁, hinterned, -⟩ := hstep
      cases hrun.symm.trans hst₁
      exact hinterned

theorem applyOps_interned {ops : List (PreparedOp N)} (h : st.Interned)
    (hops : ∀ op ∈ ops, op.Interned) (hrun : applyOps env network st ops = .ok st') :
    st'.Interned := by
  induction ops generalizing st with
  | nil =>
    cases hrun
    exact h
  | cons op ops ih =>
    rw [applyOps] at hrun
    split at hrun
    · cases hrun
    · next st₁ hop =>
      exact ih (applyOp_interned h (hops op List.mem_cons_self) hop)
        (fun op hm => hops op (List.mem_cons_of_mem _ hm)) hrun

theorem prepareUpdate_interned {trigParser : String → Except String (List OxQuad)}
    {dataset : String} {store : Datastore N} {ops : List UpdateOp}
    {prepared : List (PreparedOp N)} {entries : List LogEntry}
    (h : prepareUpdate trigParser dataset store ops = .ok (prepared, entries)) :
    ∀ op ∈ prepared, op.Interned := by
  have hone : ∀ op ∈ ops, ∀ prepared entries, prepareOp trigParser dataset store op =
      .ok (prepared, entries) → prepared.Interned := by
    intro op _ prepared entries hp
    cases hblock : prepared.block? with
    | none =>
      cases prepared with
      | insertData tmp | deleteData tmp => cases hblock
      | _ => trivial
    | some block =>
      obtain ⟨kind, tmp⟩ := block
      obtain ⟨content, prefixes, -, hparse⟩ := prepareOp_block hp hblock
      have hinterned := parseTurtleContent_interned hparse
      cases prepared with
      | insertData tmp' | deleteData tmp' =>
        cases hblock
        exact hinterned
      | _ => trivial
  obtain ⟨logged, hall, -⟩ := prepareUpdate_forall₂ hone h
  intro op hop
  obtain ⟨i, hi, rfl⟩ := List.mem_iff_getElem.mp hop
  exact (List.forall₂_iff_get.mp hall).2 i hi (hall.length_eq ▸ hi)

end Updates

section Requests

variable {env : ServerEnv N Expr} (hf : env.rules.reasoning.env.FixedFilters) {s : AppState N Expr}

variable {prepared : List (PreparedOp N)}

/-- What a success of `apply` did: the operations ran, and their guard holds. -/
def AppliesChecked (env : ServerEnv N Expr)
    (apply : AppState N Expr → List (PreparedOp N) → Response × AppState N Expr) : Prop :=
  ∀ s prepared, (apply s prepared).1.Success →
    ∃ dataset' inserts deletes, applyReasonedUpdate env.update env.network env.rules.reasoning
        (s.store.store, s.reasoner) prepared = .ok (dataset', inserts, deletes) ∧
      (apply s prepared).2.store.store = dataset'.1 ∧ (apply s prepared).2.reasoner = dataset'.2 ∧
      (dataset'.2.isSome → checkOwlNothing env dataset'.1 10 10 = [])

theorem appliesChecked_applyUpdate : AppliesChecked env (applyUpdate env) := by
  intro s prepared h
  rw [applyUpdate] at h ⊢
  cases hrun : applyReasonedUpdate env.update env.network env.rules.reasoning
      (s.store.store, s.reasoner) prepared with
  | error failed =>
    obtain ⟨e, store, reasoner⟩ := failed
    rw [hrun] at h
    cases e with
    | contradiction | other => exact absurd h (Response.not_success (by decide))
  | ok result =>
    obtain ⟨⟨store, reasoner⟩, inserts, deletes⟩ := result
    rw [hrun] at h
    dsimp only at h ⊢
    rcases checkConstraints_cases env ⟨⟨store, s.store.generation + updateWrites env.update
        env.network env.rules.reasoning (s.store.store, s.reasoner) prepared⟩, reasoner, s.rulesets,
        s.transactions, s.changelog⟩ inserts deletes with ⟨hpass, heq⟩ | ⟨-, hfails⟩
    · rw [heq]
      refine ⟨(store, reasoner), inserts, deletes, rfl, rfl, rfl, fun hsome => ?_⟩
      by_contra hno
      exact hpass ⟨hsome, hno⟩
    · exact absurd h hfails

theorem appliesChecked_applyDatasetUpdate : AppliesChecked env (applyDatasetUpdate env) := by
  intro s prepared h
  rw [applyDatasetUpdate] at h ⊢
  cases hrun : applyReasonedUpdate env.update env.network env.rules.reasoning
      (s.store.store, s.reasoner) prepared with
  | error failed =>
    rw [hrun] at h
    exact absurd h (Response.not_success (by decide))
  | ok result =>
    obtain ⟨⟨store, reasoner⟩, inserts, deletes⟩ := result
    rw [hrun] at h
    dsimp only at h ⊢
    cases reasoner with
    | none => exact ⟨(store, none), inserts, deletes, rfl, rfl, rfl, by simp⟩
    | some programs =>
      dsimp only at h ⊢
      by_cases hempty : (checkOwlNothing env store 10 10).isEmpty = true
      · rw [if_pos hempty]
        exact ⟨(store, some programs), inserts, deletes, rfl, rfl, rfl,
          fun _ => List.isEmpty_iff.mp hempty⟩
      · rw [if_neg hempty] at h
        exact absurd h (Response.not_success (by decide))

include hf

theorem Guarded.update {store store' : Datastore N}
    {reasoner reasoner' : Option (List (DatalogProgram Expr))} {inserts deletes : List Quad}
    (h : Guarded store reasoner) (hprepared : ∀ op ∈ prepared, op.Interned)
    (hrun : applyReasonedUpdate env.update env.network env.rules.reasoning (store, reasoner)
      prepared = .ok ((store', reasoner'), inserts, deletes))
    (hchecked : reasoner'.isSome → checkOwlNothing env store' 10 10 = []) :
    Guarded store' reasoner' := by
  obtain ⟨programs, hreasoner, hlive⟩ := h.live
  subst hreasoner
  rw [applyReasonedUpdate] at hrun
  split at hrun
  · cases hrun
  · next st hops =>
    dsimp only at hrun
    split at hrun
    · cases hrun
    · next m hdelta =>
      cases hrun
      have hst : st.Interned := applyOps_interned (Pending.start_interned h.interned) hprepared hops
      have hkept : (∀ st', applyOps env.update env.network ⟨store, [], []⟩ prepared = .ok st' →
          store.resources.Extends st'.store.resources) ∧ _ := applyOps_keepsNames
      have hext : store.resources.Extends st.store.resources := hkept.1 st hops
      have hinserts : ∀ q ∈ netInserts st, st.store.resources.Interned q :=
        fun q hq => hst.inserts q (List.mem_of_mem_filter hq)
      have hbase : ∀ q ∈ (commitPending st).namedGraphs, st.store.resources.Interned q := by
        intro q hq
        rw [commitPending_namedGraphs, QuadStore.mem_foldl_addQuad,
          QuadStore.mem_foldl_removeQuad] at hq
        rcases hq with hq | hq
        · exact hst.store q hq.1
        · exact hinserts q hq
      obtain ⟨hlive', hbase'⟩ := (hlive.extends hext).reasonDelta hf hbase hinserts
        (applyReasonerDelta_ok hdelta)
      have hnames : (commitPending st).resources = st.store.resources := commitPending_resources st
      refine ⟨⟨m.programs, rfl, ?_⟩, fun q hq => ?_, ?_⟩
      · dsimp only
        rw [hnames]
        exact hlive'
      · dsimp only
        rw [hnames]
        exact hbase' q hq
      · rw [← checkOwlNothing_isEmpty_iff env _ (show 0 < 10 by decide) 10, hchecked rfl]
        rfl

end Requests

end RdfDatalog.Endpoint
