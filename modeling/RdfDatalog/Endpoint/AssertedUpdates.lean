import RdfDatalog.Endpoint.ChangelogAgreement
import RdfDatalog.Endpoint.ReasonerDelta

namespace RdfDatalog.Endpoint

open DeltaBuffer GraphElementManager Datalog Datalog.IncrementalReasoner Datastore

variable {N : NativeTypes} {Expr : Type}

section Delta

variable {r : Reasoning Expr} {m m' : IncrementalReasoner Expr} {netDeletes netInserts : List Quad}

def KeepsDelta (r : Reasoning Expr) (m : IncrementalReasoner Expr)
    (netDeletes netInserts : List Quad) : Prop :=
  (netDeletes ≠ [] → (QuadUpdate.delete netDeletes).KeepsStatus m) ∧
    (netInserts ≠ [] → ∀ m₁ n, applyDeletions r.env m netDeletes = .ok (m₁, n) →
      (QuadUpdate.insert netInserts).KeepsStatus m₁)

theorem reasonDelta_status (hkeeps : KeepsDelta r m netDeletes netInserts)
    (h : reasonDelta r m netDeletes netInserts = .ok m') (q : Quad) :
    m'.base.Extensional q ↔ (m.base.Extensional q ∧ q ∉ netDeletes) ∨ q ∈ netInserts := by
  have hdelete {m₁ : IncrementalReasoner Expr} {n : Nat}
      (hrun : applyDeletions r.env m netDeletes = .ok (m₁, n)) :
      m₁.base.Extensional q ↔ m.base.Extensional q ∧ q ∉ netDeletes := by
    by_cases hnil : netDeletes = []
    · subst hnil
      cases hrun
      exact (and_iff_left List.not_mem_nil).symm
    · have happlies : (QuadUpdate.delete netDeletes).Applies r.env m m₁ := ⟨n, hrun⟩
      exact Set.ext_iff.mp (happlies.status (hkeeps.1 hnil)) q
  obtain ⟨m₁, n, hrun, hinsert⟩ := reasonDelta_ok h
  have hfirst := hdelete hrun
  rcases hinsert with ⟨rfl, rfl⟩ | ⟨hnil, h⟩
  · rw [hfirst]
    exact (or_iff_left List.not_mem_nil).symm
  · have happlies : (QuadUpdate.insert netInserts).Applies r.env m₁ m' := ⟨r.fuel, h⟩
    have hsecond := Set.ext_iff.mp (happlies.status (hkeeps.2 hnil m₁ n hrun)) q
    rw [← hfirst]
    exact hsecond

theorem applyReasonerDelta_ok (h : applyReasonerDelta r m netDeletes netInserts = .ok m') :
    reasonDelta r m netDeletes netInserts = .ok m' := by
  rw [applyReasonerDelta] at h
  cases hrun : reasonDelta r m netDeletes netInserts with
  | ok m₁ =>
    rw [hrun] at h
    cases h
    rfl
  | error e =>
    rw [hrun] at h
    dsimp only at h
    cases hre : rebuildFromBase r.env (undoDelta e.2 netDeletes netInserts) with
    | ok | error => rw [hre] at h; cases h

def TakesDelta (r : Reasoning Expr) (reasoner : Option (List (DatalogProgram Expr)))
    (base : QuadStore) (netDeletes netInserts : List Quad) : Prop :=
  match reasoner with
  | none => ∀ q ∈ netInserts, q ∉ netDeletes → ¬ base.Derived q
  | some programs => KeepsDelta r ⟨programs, base⟩ netDeletes netInserts

end Delta

section Operations

variable {env : UpdateEnv N} {network : NetworkPolicy} {st st' : Pending N}

/-- The quads that are asserted once the buffers are committed. -/
def Pending.assertedView (st : Pending N) : Finset (QuadResource N) :=
  (st.store.asserted ∪ st.store.resources.resolve st.inserts) \
    st.store.resources.resolve st.deletes

theorem drops_of_eq {s s' : QuadStore} (h : s' = s) (q : Quad) :
    s'.Extensional q ↔ s.Extensional q ∧ q ∈ s' := by
  rw [h]
  exact (and_iff_left_of_imp And.left).symm

variable {op : PreparedOp N}

theorem applyOp_drops (hload : op.isLoad = false) (h : applyOp env network st op = .ok st')
    (q : Quad) :
    st'.store.namedGraphs.Extensional q ↔
      st.store.namedGraphs.Extensional q ∧ q ∈ st'.store.namedGraphs := by
  have hgraph (g : GraphElementId) :
      (st.store.namedGraphs.removeGraph g).Extensional q ↔
        st.store.namedGraphs.Extensional q ∧ q ∈ st.store.namedGraphs.removeGraph g := by
    rw [extensional_removeGraph, QuadStore.mem_removeGraph]
    exact ⟨fun hq => ⟨hq.1, hq.1.1, hq.2⟩, fun hq => ⟨hq.1, hq.2.2⟩⟩
  have hgraphs (ids : List GraphElementId) :
      (removeGraphs st.store ids).namedGraphs.Extensional q ↔
        st.store.namedGraphs.Extensional q ∧ q ∈ (removeGraphs st.store ids).namedGraphs := by
    rw [extensional_removeGraphs, removeGraphs_eq]
    have hmem := QuadStore.mem_foldl_removeGraph st.store.namedGraphs ids q
    rw [hmem]
    exact ⟨fun hq => ⟨hq.1, hq.1.1, hq.2⟩, fun hq => ⟨hq.1, hq.2.2⟩⟩
  cases op with
  | insertData tmp | deleteData tmp =>
    cases h
    exact drops_of_eq (translateToMainIds_namedGraphs st.store tmp) q
  | createGraph iri =>
    cases h
    exact drops_of_eq rfl q
  | patternUpdate deleteTemplate insertTemplate pattern prefixes =>
    exact drops_of_eq (applyOp_patternUpdate_frame h).2 q
  | clearDefault | dropDefault =>
    cases h
    exact hgraph defaultGraphElementId
  | clearAll | dropAll | clearNamed | dropNamed =>
    cases h
    exact hgraphs _
  | clearGraph iri | dropGraph iri =>
    rcases applyOp_clearGraph env network h with ⟨-, rfl⟩ | ⟨id, -, rfl⟩
    · exact drops_of_eq rfl q
    · exact hgraph id
  | loadGraph source into silent => cases hload

theorem removeGraphs_resources (store : Datastore N) (ids : List GraphElementId) :
    (removeGraphs store ids).resources = store.resources := by
  rw [removeGraphs_eq]

theorem applyOp_extends (hop : op.Interned) (hload : op.isLoad = false)
    (h : applyOp env network st op = .ok st') :
    st.store.resources.Extends st'.store.resources := by
  cases op with
  | insertData tmp | deleteData tmp =>
    cases h
    exact (translateToMainIds_spec st.store hop).extended
  | createGraph iri =>
    cases h
    exact st.store.addResource_extends (.iri iri)
  | patternUpdate deleteTemplate insertTemplate pattern prefixes =>
    exact (applyOp_patternUpdate_frame h).1
  | clearDefault | dropDefault =>
    cases h
    exact .refl _
  | clearAll | dropAll | clearNamed | dropNamed =>
    cases h
    have hsame := removeGraphs_resources st.store
    rw [hsame]
  | clearGraph iri | dropGraph iri =>
    rcases applyOp_clearGraph env network h with ⟨-, rfl⟩ | ⟨id, -, rfl⟩
    · exact .refl _
    · exact .refl _
  | loadGraph source into silent => cases hload

theorem applyOp_asserted (hop : op.Interned) (hload : op.isLoad = false) (hst : st.Interned)
    (h : applyOp env network st op = .ok st') :
    st'.store.asserted = st.store.asserted ∩ st'.store.resolved := by
  have hdrops := applyOp_drops hload h
  have hext := applyOp_extends hop hload h
  ext r
  rw [Finset.mem_inter]
  constructor
  · intro hr
    obtain ⟨q, hq, hr'⟩ := mem_asserted.mp hr
    have hold := ((hdrops q).mp hq).1
    obtain ⟨x, hx⟩ := Option.isSome_iff_exists.mp (hst.store q hold.1)
    have hxr : x = r := Option.some.inj ((hext.getResourceQuad hx).symm.trans hr')
    rw [hxr] at hx
    exact ⟨mem_asserted.mpr ⟨q, hold, hx⟩, st'.store.asserted_subset_resolved hr⟩
  · intro ⟨hr, hstored⟩
    obtain ⟨q, hq, hr'⟩ := mem_asserted.mp hr
    have hget := hext.getResourceQuad hr'
    have hmem := (mem_resolve_iff_mem hget).mp hstored
    exact mem_asserted.mpr ⟨q, (hdrops q).mpr ⟨hq, hmem⟩, hget⟩

end Operations

section Faithful

variable {env : UpdateEnv N} {network : NetworkPolicy} {dataset : String} {store : Datastore N}
  {st st' : Pending N}

/-- Operations that the changelog does not record. -/
def PreparedOp.Unlogged : PreparedOp N → Prop
  | .patternUpdate _ _ _ _ | .loadGraph _ _ _ => True
  | _ => False

/-- An unlogged operation does nothing to the quads that are asserted at the commit: a WHERE form
deletes none of them and inserts only such quads, a LOAD copies quads that are stored already. -/
def Pending.Quiet (env : UpdateEnv N) (network : NetworkPolicy) (st : Pending N) :
    PreparedOp N → Prop
  | .patternUpdate deleteTemplate insertTemplate pattern prefixes =>
    ∀ toDelete toInsert, patternTriples env st.viewStore.resolved deleteTemplate insertTemplate
        pattern prefixes = .ok (toDelete, toInsert) →
      Disjoint (templateQuads toDelete) st.assertedView ∧
        templateQuads toInsert \ (st.buffer.del ∪ templateQuads toDelete) ⊆ st.assertedView
  | .loadGraph source into silent => KeepsAsserted env network st (.loadGraph source into silent)
  | _ => True

/-- What a request keeps while its operations run: interned ids, and no stored quad that was not
stored before it. -/
structure Pending.Started (store : Datastore N) (st : Pending N) : Prop where
  interned : st.Interned
  live : st.store.resolved ⊆ store.resolved

theorem assertedView_of_effect {e : Effect (QuadResource N)}
    (hbuffer : st'.buffer = st.buffer.apply e)
    (hkept : st'.store.asserted = st.store.asserted ∩ st'.store.resolved) :
    st'.assertedView = ((st.store.asserted ∩ (st.buffer.apply e).live) ∪ (st.buffer.apply e).ins) \
      (st.buffer.apply e).del := by
  have hlive : st'.store.resolved = (st.buffer.apply e).live := congrArg Buffer.live hbuffer
  have hins : st'.store.resources.resolve st'.inserts = (st.buffer.apply e).ins :=
    congrArg Buffer.ins hbuffer
  have hdel : st'.store.resources.resolve st'.deletes = (st.buffer.apply e).del :=
    congrArg Buffer.del hbuffer
  rw [Pending.assertedView, hkept, hlive, hins, hdel]

theorem Pending.Started.of_effect (hst : st.Started store) {e : Effect (QuadResource N)}
    (hst' : st'.Interned) (hbuffer : st'.buffer = st.buffer.apply e) : st'.Started store := by
  refine ⟨hst', ?_⟩
  have hlive : st'.store.resolved = (st.buffer.apply e).live := congrArg Buffer.live hbuffer
  rw [hlive]
  exact (Buffer.live_apply_subset st.buffer e).trans hst.live

variable {op : PreparedOp N} {entries : List LogEntry}
  {trigParser : String → Except String (List OxQuad)}

theorem Recorded.step (hs : IriGraphs store) (hrec : Recorded dataset store op entries)
    (hst : st.Started store) (hsteady : st.LogSteady store op)
    (h : applyOp env network st op = .ok st') :
    st'.Started store ∧ st'.assertedView = Endpoint.replay st.assertedView entries := by
  obtain ⟨hop, hload⟩ := hrec.in_scope
  have hrefines := applyOp_refines env network hst.interned hop hload
  have hlive : st.buffer.live ⊆ store.resolved := hst.live
  have hplan := hrec.plan env hlive
  cases hp : op.plan env st.buffer.view with
  | error e =>
    rw [hp] at hplan
    cases hplan
  | ok f =>
    rw [hp] at hrefines hplan
    obtain ⟨st₁, hrun, hst₁, hbuffer⟩ := hrefines
    cases h.symm.trans hrun
    have heffect : st'.buffer = st.buffer.apply (op.loggedEffect store) :=
      hbuffer.trans (Except.ok.inj hplan)
    refine ⟨hst.of_effect hst₁ heffect, ?_⟩
    rw [hrec.replay hs, assertedView_of_effect heffect (applyOp_asserted hop hload hst.interned h)]
    exact Buffer.Steady.view_within hsteady st.store.asserted_subset_resolved

theorem loadFetched_extends (store tmp : Datastore N) (into : Option String) :
    store.resources.Extends (loadFetched store tmp into).resources := by
  cases into with
  | none =>
    have hmove := (Translated.start store).moveDefaultGraph tmp store.resources.defaultGraph
    rw [loadFetched]
    dsimp only
    rw [foldl_addQuad_resources]
    exact hmove.extended
  | some iri =>
    have hext := store.addResource_extends (.iri iri)
    have hstart := Translated.start (store.addResource (.iri iri)).1
    have hmove := hstart.moveDefaultGraph tmp (store.addResource_get (.iri iri))
    rw [loadFetched]
    dsimp only
    rw [foldl_addQuad_resources]
    exact hext.trans hmove.extended

theorem Pending.Quiet.step (hop : op.Unlogged) (hst : st.Started store)
    (hquiet : st.Quiet env network op) (h : applyOp env network st op = .ok st') :
    st'.Started store ∧ st'.assertedView = st.assertedView := by
  cases op with
  | patternUpdate deleteTemplate insertTemplate pattern prefixes =>
    let op : PreparedOp N := .patternUpdate deleteTemplate insertTemplate pattern prefixes
    have hop : op.Interned := trivial
    have hkept := applyOp_asserted hop rfl hst.interned h
    have hrefines := applyOp_refines env network hst.interned hop rfl
    rw [Pending.Quiet, viewStore_resolved] at hquiet
    rw [PreparedOp.plan] at hrefines
    cases htriples : patternTriples env st.buffer.view deleteTemplate insertTemplate pattern
        prefixes with
    | error e =>
      rw [htriples] at hrefines
      cases h.symm.trans hrefines
    | ok triples =>
      obtain ⟨toDelete, toInsert⟩ := triples
      obtain ⟨hdisjoint, hsubset⟩ := hquiet toDelete toInsert htriples
      rw [htriples] at hrefines
      obtain ⟨st₁, hrun, hst₁, hbuffer⟩ := hrefines
      cases h.symm.trans hrun
      refine ⟨hst.of_effect hst₁ hbuffer, ?_⟩
      rw [assertedView_of_effect hbuffer hkept]
      ext x
      have hno : x ∈ templateQuads toDelete → x ∉ st.assertedView :=
        fun hx => Finset.disjoint_left.mp hdisjoint hx
      have hin := @hsubset x
      have hstored : x ∈ st.store.asserted → x ∈ st.store.resolved :=
        fun hx => st.store.asserted_subset_resolved hx
      simp only [Pending.assertedView, Pending.buffer, Buffer.apply, Finset.mem_sdiff,
        Finset.mem_union, Finset.mem_inter] at hno hin ⊢
      tauto
  | loadGraph source into silent =>
    have hsame := (keepsAsserted_iff h).mp hquiet
    rcases applyOp_loadGraph h with ⟨hnone, rfl⟩ | ⟨tmp, hsome, rfl⟩
    · exact ⟨hst, rfl⟩
    · have hstored := hquiet tmp hsome
      have hext := loadFetched_extends st.store tmp into
      have hmem : ∀ q, q ∈ (loadFetched st.store tmp into).namedGraphs ↔
          q ∈ st.store.namedGraphs := by
        intro q
        rw [loadFetched_namedGraphs, QuadStore.mem_foldl_addQuad]
        exact or_iff_left_of_imp (hstored q)
      have hresolved : (loadFetched st.store tmp into).resolved = st.store.resolved := by
        refine (resolve_extends hext fun q hq => hst.interned.store q ((hmem q).mp hq)).trans ?_
        ext r
        rw [Datastore.resolved, mem_resolve, mem_resolve]
        exact exists_congr fun q => and_congr_left fun _ => hmem q
      refine ⟨⟨⟨?_, ?_, ?_⟩, hresolved.le.trans hst.live⟩, ?_⟩
      · exact fun q hq => (hst.interned.store q ((hmem q).mp hq)).extends hext
      · exact fun q hq => (hst.interned.inserts q hq).extends hext
      · exact fun q hq => (hst.interned.deletes q hq).extends hext
      · rw [Pending.assertedView, Pending.assertedView,
          asserted_extends hst.interned.store hext hsame]
        dsimp only
        rw [resolve_extends hext hst.interned.inserts, resolve_extends hext hst.interned.deletes]
  | _ => exact False.elim hop

/-- An operation with its entries. -/
inductive Logs (dataset : String) (store : Datastore N) : PreparedOp N → List LogEntry → Prop
  | recorded {op : PreparedOp N} {entries : List LogEntry}
    (h : Recorded dataset store op entries) : Logs dataset store op entries
  | unlogged {op : PreparedOp N} (h : op.Unlogged) : Logs dataset store op []

/-- The data of the operation can be recorded. -/
def PreparedOp.Recordable : PreparedOp N → Prop
  | .insertData tmp | .deleteData tmp => RecordableStore tmp
  | _ => True

theorem prepareOp_logs {op : UpdateOp} {prepared : PreparedOp N} (hrecordable : prepared.Recordable)
    (h : prepareOp trigParser dataset store op = .ok (prepared, entries)) :
    Logs dataset store prepared entries := by
  cases op with
  | insertData content prefixes | deleteData content prefixes =>
    rw [prepareOp] at h
    cases hparse : parseTurtleContent (N := N) trigParser content prefixes with
    | error e =>
      rw [hparse] at h
      cases h
    | ok tmp =>
      rw [hparse] at h
      obtain ⟨rfl, rfl⟩ := Prod.mk.inj (Except.ok.inj h)
      refine .recorded ?_
      constructor
      exact hrecordable
  | loadGraph | insertWhere | deleteWhere | deleteInsertWhere =>
    obtain ⟨rfl, rfl⟩ := Prod.mk.inj (Except.ok.inj h)
    exact .unlogged trivial
  | _ =>
    obtain ⟨rfl, rfl⟩ := Prod.mk.inj (Except.ok.inj h)
    exact .recorded (by constructor)

theorem prepareUpdate_logs {ops : List UpdateOp} {prepared : List (PreparedOp N)}
    (hrecordable : ∀ op ∈ prepared, op.Recordable)
    (h : prepareUpdate trigParser dataset store ops = .ok (prepared, entries)) :
    ∃ logged : List (List LogEntry),
      List.Forall₂ (Logs dataset store) prepared logged ∧ entries = logged.flatten := by
  obtain ⟨logged, hlogs, hflat⟩ := prepareUpdate_forall₂
    (R := fun prepared entries => prepared.Recordable → Logs dataset store prepared entries)
    (fun _ _ _ _ hp hop => prepareOp_logs hop hp) h
  refine ⟨logged, ?_, hflat⟩
  clear hflat h
  induction hlogs with
  | nil => exact .nil
  | cons hop _ ih =>
    exact .cons (hop (hrecordable _ List.mem_cons_self))
      (ih fun op hm => hrecordable op (List.mem_cons_of_mem _ hm))

/-- Every operation that runs does what its entries say: no buffered operation stands in its way,
and if it has no entries it changes nothing. -/
def FaithfulRun (env : UpdateEnv N) (network : NetworkPolicy) (store : Datastore N) :
    Pending N → List (PreparedOp N) → Prop
  | _, [] => True
  | st, op :: ops => (st.LogSteady store op ∧ st.Quiet env network op) ∧
    ∀ st', applyOp env network st op = .ok st' → FaithfulRun env network store st' ops

theorem Logs.step (hs : IriGraphs store) (hlogs : Logs dataset store op entries)
    (hst : st.Started store) (hsteady : st.LogSteady store op) (hquiet : st.Quiet env network op)
    (h : applyOp env network st op = .ok st') :
    st'.Started store ∧ st'.assertedView = replay st.assertedView entries := by
  cases hlogs with
  | recorded hrec => exact hrec.step hs hst hsteady h
  | unlogged hop => exact hquiet.step hop hst h

theorem FaithfulRun.applyOps (hs : IriGraphs store) {ops : List (PreparedOp N)}
    {logged : List (List LogEntry)} (hlogs : List.Forall₂ (Logs dataset store) ops logged)
    (hst : st.Started store) (hrun : FaithfulRun env network store st ops)
    (h : applyOps env network st ops = .ok st') :
    st'.assertedView = replay st.assertedView logged.flatten := by
  induction hlogs generalizing st with
  | nil =>
    cases h
    rfl
  | @cons op entries ops logged hop _ ih =>
    obtain ⟨⟨hsteady, hquiet⟩, hrest⟩ := hrun
    rw [Endpoint.applyOps] at h
    split at h
    · cases h
    · next st₁ hstep =>
      obtain ⟨hst₁, hview⟩ := hop.step hs hst hsteady hquiet hstep
      rw [List.flatten_cons, replay_append, ← hview]
      exact ih hst₁ (hrest st₁ hstep) h

end Faithful

section Commit

variable {env : UpdateEnv N} {network : NetworkPolicy} {r : Reasoning Expr}
  {dataset dataset' : Dataset N Expr} {st : Pending N}

theorem commitPending_status (st : Pending N) (q : Quad) :
    (commitPending st).namedGraphs.Extensional q ↔
      (st.store.namedGraphs.Extensional q ∧ q ∉ netDeletes st) ∨
        (q ∈ netInserts st ∧ ¬ (commitPending st).namedGraphs.Derived q) := by
  have hremove := extensional_foldl_removeQuad st.store.namedGraphs (netDeletes st) q
  have hadd := extensional_foldl_addQuad
    ((netDeletes st).foldl QuadStore.removeQuad st.store.namedGraphs) (netInserts st) q
  rw [hremove] at hadd
  rw [commitPending_namedGraphs, QuadStore.derived_foldl_addQuad]
  exact hadd

theorem commitPending_resources (st : Pending N) :
    (commitPending st).resources = st.store.resources := by
  rw [commitPending, foldl_addQuad_resources, foldl_removeQuad_resources]

theorem net_status (st : Pending N) (q : Quad) :
    (st.store.namedGraphs.Extensional q ∧ q ∉ netDeletes st) ∨ q ∈ netInserts st ↔
      (st.store.namedGraphs.Extensional q ∨ q ∈ st.inserts) ∧ q ∉ st.deletes := by
  have hins : q ∈ netInserts st ↔ q ∈ st.inserts ∧ q ∉ st.deletes := by
    simp [netInserts]
  have hdel : q ∈ netDeletes st ↔ q ∈ st.deletes ∧ q ∈ st.store.namedGraphs := by
    simp [netDeletes]
  rw [hins, hdel]
  constructor
  · rintro (⟨hq, hno⟩ | ⟨hq, hno⟩)
    · exact ⟨.inl hq, fun hmem => hno ⟨hmem, hq.1⟩⟩
    · exact ⟨.inr hq, hno⟩
  · rintro ⟨hq | hq, hno⟩
    · exact .inl ⟨hq, fun hmem => hno hmem.1⟩
    · exact .inr ⟨hq, hno⟩

theorem applyReasonedUpdate_asserted {ops : List (PreparedOp N)} {inserts deletes : List Quad}
    (htakes : ∀ st, applyOps env network (.start dataset.1) ops = .ok st →
      TakesDelta r dataset.2 (commitPending st).namedGraphs (netDeletes st) (netInserts st))
    (h : applyReasonedUpdate env network r dataset ops = .ok (dataset', inserts, deletes)) :
    ∃ st, applyOps env network (.start dataset.1) ops = .ok st ∧
      dataset'.1.asserted = st.assertedView := by
  obtain ⟨store, reasoner⟩ := dataset
  rw [applyReasonedUpdate] at h
  dsimp only at h htakes
  rw [Pending.start] at htakes ⊢
  cases hops : applyOps env network ⟨store, [], []⟩ ops with
  | error e =>
    rw [hops] at h
    cases h
  | ok st =>
    have htake := htakes st hops
    rw [hops] at h
    refine ⟨st, rfl, ?_⟩
    have hstatus := commitPending_status st
    have hdone {ds : Datastore N} (hres : ds.resources = st.store.resources)
        (hds : ∀ q, ds.namedGraphs.Extensional q ↔
          (st.store.namedGraphs.Extensional q ∧ q ∉ netDeletes st) ∨ q ∈ netInserts st) :
        ds.asserted = st.assertedView :=
      asserted_edit hres fun q => (hds q).trans (net_status st q)
    cases reasoner with
    | none =>
      cases h
      refine hdone (commitPending_resources st) fun q => (hstatus q).trans ?_
      refine or_congr_right (and_iff_left_of_imp fun hq => htake q hq ?_)
      simp only [netInserts, List.mem_filter, Bool.not_eq_true', List.contains_eq_mem,
        decide_eq_false_iff_not] at hq
      simp [netDeletes, hq.2]
    | some programs =>
      dsimp only at h
      split at h
      · cases h
      · next m hrun =>
        cases h
        refine hdone (commitPending_resources st) fun q => ?_
        refine (reasonDelta_status htake (applyReasonerDelta_ok hrun) q).trans ?_
        dsimp only
        rw [hstatus]
        constructor
        · rintro (⟨⟨hq, -⟩ | ⟨hq, -⟩, hno⟩ | hq)
          · exact .inl ⟨hq, hno⟩
          · exact .inr hq
          · exact .inr hq
        · rintro (⟨hq, hno⟩ | hq)
          · exact .inl ⟨.inl ⟨hq, hno⟩, hno⟩
          · exact .inr hq

end Commit

end RdfDatalog.Endpoint
