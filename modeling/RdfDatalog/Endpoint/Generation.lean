import RdfDatalog.Endpoint.ServerFrames
import RdfDatalog.Endpoint.RulesetUnion

namespace RdfDatalog.Endpoint

open Datalog Datalog.IncrementalReasoner VersionedStore

variable {N : NativeTypes} {Expr : Type}

section Reasoner

variable {r : Reasoning Expr} {m : IncrementalReasoner Expr} {netDeletes netInserts : List Quad}

theorem deltaWrites_pos {e : Fault Expr × IncrementalReasoner Expr}
    (h : reasonDelta r m netDeletes netInserts = .error e) :
    0 < deltaWrites r m netDeletes netInserts := by
  rw [deltaWrites, h]
  dsimp only
  by_cases hi : netInserts = []
  · by_cases hd : netDeletes = []
    · subst hi hd
      cases h
    · have hlen := List.length_pos_iff.mpr hd
      omega
  · have hlen := List.length_pos_iff.mpr hi
    omega

variable {env : ServerEnv N Expr} {s' : AppState N Expr} {programs : List (DatalogProgram Expr)}

theorem reasonOver_ok_generation {s : AppState N Expr}
    (h : reasonOver env s programs netDeletes netInserts = .ok s') :
    s'.store.generation = s.store.generation := by
  rw [reasonOver] at h
  dsimp only at h
  rw [applyReasonerDelta] at h
  cases hrun : reasonDelta env.rules.reasoning ⟨programs, s.store.store.namedGraphs⟩ netDeletes
      netInserts with
  | ok m =>
    have hwrites : deltaWrites env.rules.reasoning ⟨programs, s.store.store.namedGraphs⟩
        netDeletes netInserts = 0 := by rw [deltaWrites, hrun]
    rw [hrun] at h
    cases h
    exact congrArg (s.store.generation + ·) hwrites
  | error e =>
    rw [hrun] at h
    dsimp only at h
    cases hre : rebuildFromBase env.rules.reasoning.env (undoDelta e.2 netDeletes netInserts) with
    | ok | error =>
      rw [hre] at h
      cases h

theorem reasonOver_error_generation {s : AppState N Expr} {e : DeltaError}
    (h : reasonOver env s programs netDeletes netInserts = .error (e, s')) :
    s.store.generation < s'.store.generation := by
  rw [reasonOver] at h
  dsimp only at h
  rw [applyReasonerDelta] at h
  cases hrun : reasonDelta env.rules.reasoning ⟨programs, s.store.store.namedGraphs⟩ netDeletes
      netInserts with
  | ok m =>
    rw [hrun] at h
    cases h
  | error failed =>
    have hpos := deltaWrites_pos hrun
    rw [hrun] at h
    dsimp only at h
    cases hre : rebuildFromBase env.rules.reasoning.env
        (undoDelta failed.2 netDeletes netInserts) with
    | ok m =>
      rw [hre] at h
      cases h
      exact Nat.lt_add_of_pos_right hpos
    | error e' =>
      rw [hre] at h
      cases h
      exact Nat.lt_add_of_pos_right hpos

theorem checkConstraints_counted (env : ServerEnv N Expr) (s : AppState N Expr)
    (netInserts netDeletes : List Quad) :
    s.store.Counted (checkConstraints env s netInserts netDeletes).2.store := by
  rw [checkConstraints]
  cases s.reasoner with
  | none => rfl
  | some programs =>
    dsimp only
    split_ifs
    · rfl
    have hrevert : s.store.Counted (revertDelta s netInserts netDeletes).store :=
      (counted_foldl_removeQuad s.store netInserts).trans (counted_foldl_addQuad _ netDeletes)
    by_cases hnil : netInserts = [] ∧ netDeletes = []
    · obtain ⟨rfl, rfl⟩ := hnil
      rfl
    · have hlt : s.store.generation < (revertDelta s netInserts netDeletes).store.generation := by
        rw [revertDelta, foldl_removeQuad, foldl_addQuad]
        show s.store.generation < s.store.generation + netInserts.length + netDeletes.length
        by_cases hi : netInserts = []
        · have hd := List.length_pos_iff.mpr fun hd => hnil ⟨hi, hd⟩
          omega
        · have hlen := List.length_pos_iff.mpr hi
          omega
      cases hover : reasonOver env (revertDelta s netInserts netDeletes) programs netInserts
          netDeletes with
      | error e => exact .of_lt (hlt.trans (reasonOver_error_generation hover))
      | ok s' => exact .of_lt (hlt.trans_eq (reasonOver_ok_generation hover).symm)

end Reasoner

section Updates

variable {env : UpdateEnv N} {network : NetworkPolicy} {st st' : Pending N}

theorem applyOp_namedGraphs {op : PreparedOp N} (h : applyOp env network st op = .ok st')
    (hwrites : opWrites env network st op = 0) :
    st'.store.namedGraphs = st.store.namedGraphs := by
  cases op with
  | insertData tmp | deleteData tmp =>
    cases h
    exact translateToMainIds_namedGraphs st.store tmp
  | createGraph iri =>
    cases h
    rfl
  | patternUpdate deleteTemplate insertTemplate pattern prefixes =>
    exact (applyOp_patternUpdate_frame h).2
  | clearDefault | dropDefault => cases hwrites
  | clearAll | dropAll | clearNamed | dropNamed =>
    cases h
    have hnil := List.length_eq_zero_iff.mp hwrites
    rw [hnil]
    rfl
  | clearGraph iri | dropGraph iri =>
    rw [opWrites] at hwrites
    rcases applyOp_clearGraph env network h with ⟨-, rfl⟩ | ⟨id, hl, -⟩
    · rfl
    · rw [hl] at hwrites
      cases hwrites
  | loadGraph source into silent =>
    rw [opWrites] at hwrites
    rcases applyOp_loadGraph h with ⟨-, rfl⟩ | ⟨tmp, hsome, rfl⟩
    · rfl
    · rw [hsome] at hwrites
      rw [loadFetched_namedGraphs, List.length_eq_zero_iff.mp hwrites]
      rfl

theorem applyOps_namedGraphs {ops : List (PreparedOp N)}
    (hwrites : opsWrites env network st ops = 0) :
    (∀ st', applyOps env network st ops = .ok st' →
      st'.store.namedGraphs = st.store.namedGraphs) ∧
    ∀ e store, applyOps env network st ops = .error (e, store) →
      store.namedGraphs = st.store.namedGraphs := by
  induction ops generalizing st with
  | nil =>
    refine ⟨fun st' hst => ?_, fun e store hst => ?_⟩
    · cases hst
      rfl
    · cases hst
  | cons op ops ih =>
    rw [applyOps]
    rw [opsWrites] at hwrites
    cases hop : applyOp env network st op with
    | error e =>
      refine ⟨fun st' hst => ?_, fun e store hst => ?_⟩
      · cases hst
      · cases hst
        rfl
    | ok st₁ =>
      rw [hop] at hwrites
      dsimp only at hwrites ⊢
      have hstep := applyOp_namedGraphs hop (by omega)
      obtain ⟨hok, herror⟩ := @ih st₁ (by omega)
      exact ⟨fun st' hst => (hok st' hst).trans hstep,
        fun e store hst => (herror e store hst).trans hstep⟩

variable {r : Reasoning Expr} {dataset dataset' : Dataset N Expr} {ops : List (PreparedOp N)}

theorem commitPending_nil (hdeletes : netDeletes st = []) (hinserts : netInserts st = []) :
    commitPending st = st.store := by
  rw [commitPending, hdeletes, hinserts]
  rfl

theorem applyReasonedUpdate_namedGraphs (hwrites : updateWrites env network r dataset ops = 0) :
    (∀ delta, applyReasonedUpdate env network r dataset ops = .ok (dataset', delta) →
      dataset'.1.namedGraphs = dataset.1.namedGraphs) ∧
    ∀ e, applyReasonedUpdate env network r dataset ops = .error (e, dataset') →
      dataset'.1.namedGraphs = dataset.1.namedGraphs := by
  obtain ⟨store, reasoner⟩ := dataset
  rw [updateWrites, Nat.add_eq_zero_iff] at hwrites
  obtain ⟨hsteps, hcommit⟩ := hwrites
  obtain ⟨hok, herror⟩ := applyOps_namedGraphs hsteps
  rw [applyReasonedUpdate]
  cases hops : applyOps env network ⟨store, [], []⟩ ops with
  | error failed =>
    refine ⟨fun delta h => ?_, fun e h => ?_⟩
    · cases h
    · cases h
      exact herror _ _ hops
  | ok st =>
    rw [hops] at hcommit
    dsimp only at hcommit ⊢
    obtain ⟨hlengths, _⟩ := Nat.add_eq_zero_iff.mp hcommit
    have hdeletes : netDeletes st = [] := List.length_eq_zero_iff.mp (by omega)
    have hinserts : netInserts st = [] := List.length_eq_zero_iff.mp (by omega)
    have hsame := hok st hops
    rw [hdeletes, hinserts, commitPending_nil hdeletes hinserts]
    cases reasoner with
    | none | some =>
      refine ⟨fun delta h => ?_, fun e h => ?_⟩
      · cases h
        exact hsame
      · cases h

theorem applyUpdate_counted (env : ServerEnv N Expr) (s : AppState N Expr)
    (prepared : List (PreparedOp N)) : s.store.Counted (applyUpdate env s prepared).2.store := by
  have hcounted {store : Datastore N} (generation : Nat)
      (hsame : generation = 0 → store.namedGraphs = s.store.store.namedGraphs) :
      s.store.Counted ⟨store, s.store.generation + generation⟩ := by
    refine ⟨Nat.le_add_right _ _, fun heq => ?_⟩
    have hzero : generation = 0 := by
      change s.store.generation + generation = s.store.generation at heq
      omega
    exact congrArg QuadStore.quads (hsame hzero)
  rw [applyUpdate]
  cases hrun : applyReasonedUpdate env.update env.network env.rules.reasoning
      (s.store.store, s.reasoner) prepared with
  | error failed =>
    obtain ⟨e, store, reasoner⟩ := failed
    have hstore := @hcounted store _ fun hzero =>
      (applyReasonedUpdate_namedGraphs hzero).2 e hrun
    cases e with
    | contradiction | other => exact hstore
  | ok result =>
    obtain ⟨⟨store, reasoner⟩, netInserts, netDeletes⟩ := result
    have hstore := @hcounted store _ fun hzero =>
      (applyReasonedUpdate_namedGraphs hzero).1 _ hrun
    refine hstore.trans ?_
    exact checkConstraints_counted env { s with store := ⟨store, _⟩, reasoner } _ _

theorem runUpdate_counted (env : ServerEnv N Expr) (s : AppState N Expr) (updateStr : String)
    (ifMatch : Option String) :
    s.store.Counted (runUpdate env s updateStr ifMatch).2.store := by
  rcases runUpdate_cases env s updateStr ifMatch with
    ⟨response, heq, -⟩ | ⟨ops, prepared, entries, s₁, -, -, hlog, heq⟩
  · rw [heq]
  · have hcounted := applyUpdate_counted env s₁ prepared
    have hstore : s₁.store = s.store := by rw [logBatch_ok hlog]
    rw [hstore] at hcounted
    rw [heq]
    exact hcounted

end Updates

section Transactions

theorem collectData_namedGraphs {st : Pending N} {ops : List (PreparedOp N)} :
    (∀ st', collectData st ops = .ok st' → st'.store.namedGraphs = st.store.namedGraphs) ∧
    ∀ store, collectData st ops = .error store → store.namedGraphs = st.store.namedGraphs := by
  induction ops generalizing st with
  | nil =>
    refine ⟨fun st' h => ?_, fun store h => ?_⟩
    · cases h
      rfl
    · cases h
  | cons op ops ih =>
    cases op with
    | insertData tmp | deleteData tmp =>
      have hgraphs := translateToMainIds_namedGraphs st.store tmp
      rw [collectData]
      exact ⟨fun st' h => (ih.1 st' h).trans hgraphs, fun store h => (ih.2 store h).trans hgraphs⟩
    | _ =>
      refine ⟨fun st' h => ?_, fun store h => ?_⟩
      · cases h
      · cases h
        rfl

theorem runTransactionalUpdate_quads (env : ServerEnv N Expr) (s : AppState N Expr)
    (updateStr txId : String) :
    (runTransactionalUpdate env s updateStr txId).2.store.generation = s.store.generation ∧
    (runTransactionalUpdate env s updateStr txId).2.quads = s.quads := by
  rcases runTransactionalUpdate_cases env s updateStr txId with
    heq | ⟨ops, prepared, entries, -, -, ⟨store, hcollect, heq⟩ | ⟨st, hcollect, heq⟩⟩
  · rw [heq]
    exact ⟨rfl, rfl⟩
  · rw [heq]
    exact ⟨rfl, congrArg QuadStore.quads (collectData_namedGraphs.2 store hcollect)⟩
  · have hquads := congrArg QuadStore.quads (collectData_namedGraphs.1 st hcollect)
    rcases heq with heq | ⟨tx, -, heq⟩
    · rw [heq]
      exact ⟨rfl, hquads⟩
    · rw [heq]
      exact ⟨rfl, hquads⟩

theorem transactionCommit_counted (env : ServerEnv N Expr) (s : AppState N Expr)
    (txId : String) : s.store.Counted (transactionCommit env s txId).2.store := by
  obtain ⟨store, reasoner, rulesets, transactions, changelog⟩ := s
  rw [transactionCommit]
  by_cases hread : env.readOnly = true
  · rw [if_pos hread]
  rw [if_neg hread]
  cases transactions.lookup txId with
  | none => rfl
  | some tx =>
    dsimp only
    by_cases hgeneration : store.generation ≠ tx.snapshotGeneration
    · rw [if_pos hgeneration]
    rw [if_neg hgeneration]
    have hwrite := tx.generation_lt_write store
    cases reasoner with
    | none => exact .of_lt hwrite
    | some programs =>
      dsimp only
      cases hover : reasonOver env
          ⟨tx.write store, some programs, rulesets, transactions.erase txId, changelog⟩ programs
          (tx.netDeletes store.store) (tx.netInserts store.store) with
      | error e => exact .of_lt (hwrite.trans (reasonOver_error_generation hover))
      | ok s' =>
        have hover_lt := hwrite.trans_eq (reasonOver_ok_generation hover).symm
        exact .trans (.of_lt hover_lt) (checkConstraints_counted env s' _ _)

end Transactions

section GraphStore

/-- The request hands quads to a loaded reasoner. -/
def GraphWrite.Reasons (env : ServerEnv N Expr) (s : AppState N Expr) (w : GraphWrite N) : Prop :=
  (∃ s', logBatch env (s.withStore w.store) w.entries = .ok s') ∧ s.reasoner.isSome ∧
    (w.netDeletes ≠ [] ∨ w.netInserts ≠ [])

def clearedQuads (store : Datastore N) (clear : Option GraphElementId) : List Quad :=
  (match clear with
    | none => []
    | some graphId => store.namedGraphs.table.getGraph graphId).filter store.namedGraphs.contains

theorem writeQuads_counted (env : ServerEnv N Expr) (s : AppState N Expr)
    (clear : Option GraphElementId) {translated : Datastore N × List Quad}
    (hgraphs : translated.1.namedGraphs = s.store.store.namedGraphs)
    (hreasoner : s.reasoner.isSome → clearedQuads s.store.store clear = [] ∧ translated.2 = []) :
    match writeQuads env s clear translated with
    | .error (_, s') => s.store.Counted s'.store
    | .ok s' => s.store.Counted s'.store := by
  obtain ⟨store, reasoner, rulesets, transactions, changelog⟩ := s
  rw [writeQuads.eq_def]
  cases reasoner with
  | none =>
    have hadded (v : VersionedStore N) : v.Counted
        (translated.2.foldl addQuad (v.withResources translated.1.resources)) := by
      have hinterned : v.Counted (v.withResources translated.1.resources) :=
        .of_namedGraphs rfl rfl
      exact hinterned.trans (counted_foldl_addQuad _ _)
    cases clear with
    | none => exact hadded store
    | some graphId => exact (counted_removeGraph store graphId).trans (hadded _)
  | some programs =>
    obtain ⟨hdeletes, hinserts⟩ := hreasoner rfl
    rw [clearedQuads.eq_def] at hdeletes
    cases clear with
    | none =>
      dsimp only
      rw [hinserts]
      exact .of_namedGraphs rfl hgraphs
    | some graphId =>
      dsimp only at hdeletes ⊢
      rw [hdeletes, hinserts]
      exact .of_namedGraphs rfl hgraphs

theorem GraphWrite.run_counted {env : ServerEnv N Expr} {s : AppState N Expr} {w : GraphWrite N}
    (hw : w.OnlyInterns s.store.store) (hreasons : ¬ w.Reasons env s) :
    s.store.Counted (w.run env s).2.store := by
  have hinterned : s.store.Counted (s.withStore w.store).store := .of_namedGraphs rfl hw.store
  rw [run]
  cases hlog : logBatch env (s.withStore w.store) w.entries with
  | error failed => exact hinterned
  | ok s₁ =>
    have hstore : s₁.store = (s.withStore w.store).store := by rw [logBatch_ok hlog]
    have hreasoner : s₁.reasoner = s.reasoner := by rw [logBatch_ok hlog]; rfl
    have hstore₁ : s₁.store.store = w.store := congrArg VersionedStore.store hstore
    have hcounted := writeQuads_counted env s₁ w.clear (hw.translate s₁.store.store) fun hsome => by
      by_contra hno
      rw [hstore₁] at hno
      rw [hreasoner] at hsome
      exact hreasons ⟨⟨s₁, hlog⟩, hsome, not_and_or.mp hno⟩
    rw [← hstore] at hinterned
    dsimp only
    cases hwrite : writeQuads env s₁ w.clear (w.translate s₁.store.store) with
    | error | ok =>
      rw [hwrite] at hcounted
      exact hinterned.trans hcounted

end GraphStore

section Rules

variable [DecidableEq Expr]

def Request.rulesetCall (env : ServerEnv N Expr) : Request → Option RulesetCall
  | .rulesPost contentType body => (rulesText env contentType body).toOption.map .replace
  | .rulesIdPost rulesetId contentType body =>
    (rulesText env contentType body).toOption.map (.setNamed rulesetId)
  | .rulesIdDelete rulesetId => if env.readOnly then none else some (.deleteNamed rulesetId)
  | _ => none

/-- What the change finds. -/
def AppState.rulesetState (s : AppState N Expr) : RulesetState N Expr :=
  ⟨s.store.store.resources, s.entry, ⟨[], ∅⟩⟩

/-- Another ruleset comes into force: the rules differ, or the reasoner is built or unloaded. -/
def ChangesRules (entry : DatasetEntry Expr) (combined : List (Rule Expr)) : Prop :=
  if combined.isEmpty then ∃ q, entry.namedGraphs.Derived q
  else match entry.reasoner with
    | none => True
    | some _ => diffRulesets entry.activeRules combined ≠ ([], [])

variable {entry : DatasetEntry Expr} {combined : List (Rule Expr)} {env : RulesEnv N Expr}

theorem applyCombinedRuleset_quads (env : ReasonerEnv Expr) (h : ¬ ChangesRules entry combined) :
    ∃ entry', applyCombinedRuleset env entry combined = .ok entry' ∧
      entry'.namedGraphs.quads = entry.namedGraphs.quads := by
  obtain ⟨base, reasoner, rulesets⟩ := entry
  rw [ChangesRules] at h
  rw [applyCombinedRuleset]
  by_cases hempty : combined.isEmpty = true
  · rw [if_pos hempty] at h ⊢
    refine ⟨_, rfl, ?_⟩
    ext q
    have hq := (extensional_assertedOnly base q).1
    exact hq.trans ⟨And.left, fun hmem => ⟨hmem, fun hd => h ⟨q, hd⟩⟩⟩
  · rw [if_neg hempty] at h ⊢
    cases reasoner with
    | none => exact absurd trivial h
    | some programs =>
      have hdiff : diffRulesets (⟨programs, base⟩ : IncrementalReasoner Expr).activeRules combined =
          ([], []) := not_not.mp h
      dsimp only
      rw [applyRulesetDiff, hdiff]
      exact ⟨_, rfl, rfl⟩

theorem applyAndRecord_quads {α : Type} {resources : GraphElementManager N}
    {entry' : DatasetEntry Expr} (record : RulesetMap Expr → RulesetMap Expr) (result : α)
    (h : applyCombinedRuleset env.reasoning.env entry combined = .ok entry') :
    (applyAndRecord env resources entry combined record result).2.2.namedGraphs =
      entry'.namedGraphs := by
  rw [applyAndRecord, h]

theorem RulesetCall.apply_quads {s : RulesetState N Expr} (call : RulesetCall)
    (h : ∀ combined, call.combined env s = some combined → ¬ ChangesRules s.entry combined) :
    (call.apply env s).2.2.namedGraphs.quads = s.entry.namedGraphs.quads := by
  have hrecord {α : Type} {combined : List (Rule Expr)} (resources : GraphElementManager N)
      (record : RulesetMap Expr → RulesetMap Expr) (result : α)
      (hcombined : call.combined env s = some combined) :
      (applyAndRecord env resources s.entry combined record result).2.2.namedGraphs.quads =
        s.entry.namedGraphs.quads := by
    obtain ⟨entry', happly, hquads⟩ :=
      applyCombinedRuleset_quads env.reasoning.env (h combined hcombined)
    rw [applyAndRecord_quads record result happly, hquads]
  cases call with
  | replace rulesText =>
    rw [apply, applyReplaceRulesetText]
    rw [combined] at hrecord
    cases hparse : env.parse rulesText s.resources with
    | mk resources parsed =>
      rw [hparse] at hrecord
      cases parsed with
      | error e => rfl
      | ok rules => exact hrecord resources _ _ rfl
  | setNamed rulesetId rulesText =>
    rw [apply, applySetNamedRulesetText]
    rw [combined] at hrecord
    cases hparse : env.parse rulesText s.resources with
    | mk resources parsed =>
      rw [hparse] at hrecord
      cases parsed with
      | error e => rfl
      | ok rules => exact hrecord resources _ _ rfl
  | deleteNamed rulesetId =>
    rw [apply, applyDeleteNamedRuleset]
    rw [combined] at hrecord
    cases hlookup : s.entry.rulesets.lookup rulesetId with
    | none => rfl
    | some removed =>
      rw [hlookup] at hrecord
      exact hrecord s.resources _ _ rfl

omit [DecidableEq Expr] in
theorem finishRules_store {α : Type} (env : ServerEnv N Expr) (s : AppState N Expr)
    (conflict : String) (outcome : RulesetOutcome N Expr α) (log : ChangelogEntry)
    (respond : α → Response) :
    (finishRules env s conflict outcome log respond).2.store =
      (s.withEntry outcome.2.1 outcome.2.2).store := by
  obtain ⟨changelog, hstate⟩ := finishRules_state env s conflict outcome log respond
  rw [hstate]

theorem handle_rulesetCall {env : ServerEnv N Expr} (s : AppState N Expr) {request : Request}
    {call : RulesetCall} (h : request.rulesetCall env = some call) :
    (handle env s request).2.store =
      (s.withEntry (call.apply env.rules s.rulesetState).2.1
        (call.apply env.rules s.rulesetState).2.2).store := by
  cases request with
  | rulesPost contentType body =>
    rw [Request.rulesetCall] at h
    rw [handle, datasetRulesPost]
    cases htext : rulesText env contentType body with
    | error response =>
      rw [htext] at h
      cases h
    | ok text =>
      rw [htext] at h
      cases h
      exact finishRules_store env s _ _ _ _
  | rulesIdPost rulesetId contentType body =>
    rw [Request.rulesetCall] at h
    rw [handle, datasetRulesIdPost]
    cases htext : rulesText env contentType body with
    | error response =>
      rw [htext] at h
      cases h
    | ok text =>
      rw [htext] at h
      cases h
      exact finishRules_store env s _ _ _ _
  | rulesIdDelete rulesetId =>
    rw [Request.rulesetCall] at h
    split_ifs at h with hread
    cases h
    rw [handle, datasetRulesIdDelete, if_neg hread]
    split
    · next resources entry houtcome =>
      rw [RulesetCall.apply]
      exact (congrArg (fun outcome => (s.withEntry outcome.2.1 outcome.2.2).store) houtcome).symm
    · exact finishRules_store env s _ _ _ _
  | _ => cases h

end Rules

end RdfDatalog.Endpoint
