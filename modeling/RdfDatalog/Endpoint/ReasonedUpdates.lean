import RdfDatalog.Datalog.InsertionRuns
import RdfDatalog.Endpoint.AssertedUpdates
import RdfDatalog.Endpoint.Generation

namespace RdfDatalog.Endpoint

open Datalog Datalog.IncrementalReasoner FallibleFold QuadStore

variable {N : NativeTypes} {Expr : Type}

/-- The store and the reasoner's derivations on record belong together: the stored quads are the
model of the asserted ones, each follows by derivations on record, and there is no record of a quad
that is not stored. -/
def Maintained (env : ReasonerEnv Expr) (m : IncrementalReasoner Expr) : Prop :=
  Supported env m.asserted [] m

theorem Maintained.closure {env : ReasonerEnv Expr} {m : IncrementalReasoner Expr}
    (h : Maintained env m) : m.base.quads =
      strataModel env (activeStrata m.programs) {q | m.base.Extensional q} := by
  have hmodel := Supported.model h
  have hfacts : m.asserted =
      {q | m.base.Extensional q} ∪ factHeads (activeStrata m.programs).flatten := rfl
  rw [hfacts, h.ordered.strataModel_union_factHeads env] at hmodel
  exact hmodel

section Delta

/-- The state when the reasoner is given a net delta: the store is edited already. -/
def edited (m : IncrementalReasoner Expr) (deletes inserts : List Quad) :
    IncrementalReasoner Expr :=
  { m with base := inserts.foldl QuadStore.addQuad (deletes.foldl QuadStore.removeQuad m.base) }

/-- Neither half of the delta leaves a falsified derivation behind. Without deletions the reverse
index is intact, or the quads to insert falsify nothing. Otherwise the deletion rebuilds the closure
or keeps nothing falsified; and the quads to insert falsify nothing since they are stored when it is
their turn, or the insertion finds what they falsify. -/
def CleanDelta (env : ReasonerEnv Expr) (m : IncrementalReasoner Expr)
    (deletes inserts : List Quad) : Prop :=
  if deletes = [] then TracksNegation m.programs ∨ Unfalsified env m inserts
  else
    ((edited m deletes inserts).FallsBack deletes ∧
      (Positive (activeStrata m.programs).flatten ∨ ∀ q ∈ inserts,
        q ∈ strataModel env (activeStrata m.programs)
          (remaining (edited m deletes inserts).base deletes))) ∨
    (¬ (edited m deletes inserts).FallsBack deletes ∧
      (edited m deletes inserts).DeletesCleanly env deletes ∧
      (TracksNegation m.programs ∨ ∀ q ∈ inserts,
        q ∈ strataModel env (activeStrata m.programs) ((edited m deletes inserts).kept deletes)))

variable {r : Reasoning Expr} (hf : r.env.FixedFilters) {m m' : IncrementalReasoner Expr}
  {deletes inserts : List Quad}
include hf

theorem Maintained.applyInsertions {base : QuadStore} {fuel : Nat} (hm : Maintained r.env m)
    (hquads : ∀ q, q ∈ base ↔ q ∈ m.base ∨ q ∈ inserts)
    (hext : ∀ q, base.Extensional q ↔ m.base.Extensional q ∨ q ∈ m.newlyAsserted inserts)
    (hneg : TracksNegation m.programs ∨ Unfalsified r.env m inserts)
    (h : IncrementalReasoner.applyInsertions r.env fuel { m with base } inserts = .ok m') :
    Maintained r.env m' := by
  rw [IncrementalReasoner.applyInsertions] at h
  split at h
  · cases h
  · rename_i s hs
    have hstart : ∀ q, q ∈ inserts.foldl QuadStore.addQuad base ↔ q ∈ m.base ∨ q ∈ inserts := by
      intro q
      rw [mem_foldl_addQuad, hquads, or_assoc, or_self]
    have hstatus : ∀ q, (inserts.foldl QuadStore.addQuad base).Extensional q ↔
        m.base.Extensional q ∨ q ∈ m.newlyAsserted inserts := by
      intro q
      rw [extensional_foldl_addQuad, hext]
      refine or_iff_left_of_imp fun hq => ?_
      have hmem : q ∈ base := (hquads q).mpr (.inr hq.1)
      exact (hext q).mp ⟨hmem, hq.2⟩
    have hm' := Supported.fed hf hm hstart hstatus hneg hs h
    have hfacts : m.asserted ∪ m.newlyAsserted inserts = m'.asserted := Set.ext hm'.facts
    rw [hfacts] at hm'
    exact hm'

theorem Maintained.applyDeletions {n : Nat} (hm : Maintained r.env m) (hne : deletes ≠ [])
    (hclean : (edited m deletes inserts).FallsBack deletes ∨
      (edited m deletes inserts).DeletesCleanly r.env deletes)
    (h : IncrementalReasoner.applyDeletions r.env (edited m deletes inserts) deletes =
      .ok (m', n)) : Maintained r.env m' := by
  refine applyDeletions_supported hf (m := edited m deletes inserts) hm.ordered ?_ hne hclean h
  intro p hp q d hd
  by_cases hdel : q ∈ deletes
  · exact .inr hdel
  · left
    refine (mem_foldl_addQuad ..).mpr (.inl ?_)
    exact (mem_foldl_removeQuad ..).mpr ⟨hm.stored p hp q d hd, hdel⟩

theorem reasonDelta_maintained (hm : Maintained r.env m)
    (hclean : CleanDelta r.env m deletes inserts)
    (h : reasonDelta r (edited m deletes inserts) deletes inserts = .ok m') :
    Maintained r.env m' := by
  rw [CleanDelta] at hclean
  obtain ⟨m₁, n, hrun, hinsert⟩ := reasonDelta_ok h
  by_cases hdel : deletes = []
  · subst hdel
    rw [if_pos rfl] at hclean
    cases hrun
    rcases hinsert with ⟨rfl, rfl⟩ | ⟨-, h⟩
    · exact hm
    · refine hm.applyInsertions hf (fun q => mem_foldl_addQuad ..) (fun q => ?_) hclean h
      exact extensional_foldl_addQuad m.base inserts q
  · rw [if_neg hdel] at hclean
    have hm₁ : Maintained r.env m₁ :=
      hm.applyDeletions hf hdel (hclean.imp And.left fun hno => hno.2.1) hrun
    rcases hinsert with ⟨-, rfl⟩ | ⟨-, h⟩
    · exact hm₁
    · have hstrata : activeStrata m₁.programs = activeStrata m.programs :=
        (applyDeletions_status hrun).1
      have hordered : OrderedStrata (activeStrata (edited m deletes inserts).programs) :=
        hm.ordered
      have hneg : TracksNegation m₁.programs ∨ Unfalsified r.env m₁ inserts := by
        rcases hclean with ⟨hfall, hpos | hstored⟩ | ⟨hno, -, htracks | hstored⟩
        · rw [← hstrata] at hpos
          exact .inr (unfalsified_of_positive hpos inserts)
        · refine .inr (Supported.unfalsified_of_stored hm₁ fun q hq => ?_)
          rw [← mem_quads, (applyDeletions_quads hf hordered hdel hrun).2.1 hfall]
          exact hstored q hq
        · exact .inl (applyDeletions_tracks hf (m := edited m deletes inserts) htracks hno hrun)
        · refine .inr (Supported.unfalsified_of_stored hm₁ fun q hq => ?_)
          rw [← mem_quads, (applyDeletions_quads hf hordered hdel hrun).2.2 hno]
          exact hstored q hq
      have hm' := Supported.applyInsertions hf hm₁ hneg h
      have hfacts : m₁.asserted ∪ m₁.newlyAsserted inserts = m'.asserted := Set.ext hm'.facts
      rw [hfacts] at hm'
      exact hm'

end Delta

theorem reasonDelta_strata {r : Reasoning Expr} {m m' : IncrementalReasoner Expr}
    {deletes inserts : List Quad} (h : reasonDelta r m deletes inserts = .ok m') :
    activeStrata m'.programs = activeStrata m.programs := by
  obtain ⟨m₁, n, hrun, hinsert⟩ := reasonDelta_ok h
  have hdelete := (applyDeletions_status hrun).1
  rcases hinsert with ⟨-, rfl⟩ | ⟨-, h⟩
  · exact hdelete
  · exact (applyInsertions_status h).1.trans hdelete

section Requests

variable {env : UpdateEnv N} {network : NetworkPolicy}

/-- An operation that only fills the buffers of the request. CLEAR and DROP edit the live store at
once, and bypass the reasoner. -/
def PreparedOp.Buffered : PreparedOp N → Prop
  | .insertData _ | .deleteData _ | .createGraph _ | .patternUpdate _ _ _ _ => True
  | _ => False

theorem opsWrites_of_buffered {ops : List (PreparedOp N)} (hops : ∀ op ∈ ops, op.Buffered)
    (st : Pending N) : opsWrites env network st ops = 0 := by
  induction ops generalizing st with
  | nil => rfl
  | cons op ops ih =>
    obtain ⟨hop, hops⟩ := List.forall_mem_cons.mp hops
    have hwrites : opWrites env network st op = 0 := by
      cases op with
      | insertData _ | deleteData _ | createGraph _ | patternUpdate _ _ _ _ => rfl
      | _ => exact hop.elim
    rw [opsWrites]
    cases applyOp env network st op with
    | error e => rfl
    | ok st' =>
      dsimp only
      rw [hwrites, ih hops st']

/-- A request without CLEAR, DROP and LOAD leaves the closure of the asserted quads, and the records
of the reasoner still match it. -/
theorem applyReasonedUpdate_closure {r : Reasoning Expr} (hf : r.env.FixedFilters)
    {store : Datastore N} {programs : List (DatalogProgram Expr)} {ops : List (PreparedOp N)}
    (hops : ∀ op ∈ ops, op.Buffered) (hm : Maintained r.env ⟨programs, store.namedGraphs⟩)
    (hclean : ∀ st, applyOps env network ⟨store, [], []⟩ ops = .ok st →
      CleanDelta r.env ⟨programs, store.namedGraphs⟩ (netDeletes st) (netInserts st))
    {store' : Datastore N} {reasoner' : Option (List (DatalogProgram Expr))}
    {inserts deletes : List Quad}
    (h : applyReasonedUpdate env network r (store, some programs) ops =
      .ok ((store', reasoner'), inserts, deletes)) :
    ∃ programs', reasoner' = some programs' ∧
      activeStrata programs' = activeStrata programs ∧
      store'.namedGraphs.quads = strataModel r.env (activeStrata programs')
        {q | store'.namedGraphs.Extensional q} ∧
      Maintained r.env ⟨programs', store'.namedGraphs⟩ := by
  rw [applyReasonedUpdate] at h
  dsimp only at h
  cases hrun : applyOps env network ⟨store, [], []⟩ ops with
  | error e =>
    rw [hrun] at h
    cases h
  | ok st =>
    rw [hrun] at h
    dsimp only at h
    have hsame : st.store.namedGraphs = store.namedGraphs :=
      (applyOps_namedGraphs (opsWrites_of_buffered hops _)).1 st hrun
    have hcommit : (⟨programs, (commitPending st).namedGraphs⟩ : IncrementalReasoner Expr) =
        edited ⟨programs, store.namedGraphs⟩ (netDeletes st) (netInserts st) := by
      rw [commitPending_namedGraphs, hsame, edited]
    rw [hcommit] at h
    split at h
    · cases h
    · next m' hdelta =>
      cases h
      have hreason := applyReasonerDelta_ok hdelta
      have hm' : Maintained r.env m' := reasonDelta_maintained hf hm (hclean st hrun) hreason
      exact ⟨m'.programs, rfl, reasonDelta_strata hreason, hm'.closure, hm'⟩

end Requests

section Sample

/-- The stored quad of the default graph is copied to the graph with id 1. -/
def copyRule : Rule Empty :=
  ⟨.normalHead (constantQuadPattern ⟨1, 1, 2, 3⟩),
    [.positivePattern (constantQuadPattern ⟨0, 1, 2, 3⟩)]⟩

theorem applyReasonedUpdate_closure_sample : ∃ m store' programs' inserts deletes,
    new .plain [copyRule] sampleStore.namedGraphs = .ok m ∧
      applyReasonedUpdate .offline .deny .plain ({ sampleStore with namedGraphs := m.base },
        some m.programs) [.insertData sampleBlock] =
          .ok ((store', some programs'), inserts, deletes) ∧
      activeStrata programs' = activeStrata m.programs ∧
      store'.namedGraphs.quads = strataModel .plain (activeStrata programs')
        {q | store'.namedGraphs.Extensional q} ∧
      Maintained .plain ⟨programs', store'.namedGraphs⟩ := by
  obtain ⟨m, hnew, hrun⟩ : ∃ m, new .plain [copyRule] sampleStore.namedGraphs = .ok m ∧
      (applyReasonedUpdate .offline .deny .plain ({ sampleStore with namedGraphs := m.base },
        some m.programs) [.insertData sampleBlock]).toBool = true := by decide
  obtain ⟨⟨⟨store', reasoner'⟩, inserts, deletes⟩, hok⟩ := exists_ok_of_toBool hrun
  have hf : ReasonerEnv.plain.FixedFilters := ReasonerEnv.plain_fixedFilters
  have horder : (RulePartitioner.new [copyRule]).orderRules = .ok [[copyRule]] := by
    decide
  have hstored : ∀ q ∈ sampleStore.namedGraphs.quadList,
      sampleStore.namedGraphs.Extensional q := by decide
  have hm : Maintained Reasoning.plain.env
      ⟨m.programs, { sampleStore with namedGraphs := m.base }.namedGraphs⟩ := by
    refine new_supported hf horder (.of_clash (by decide)) (fun q hq => ?_) hnew
    exact subset_strataModel _ _ _ (hstored q hq)
  have hclean : ∀ st, applyOps .offline .deny
      ⟨{ sampleStore with namedGraphs := m.base }, [], []⟩ [.insertData sampleBlock] = .ok st →
      CleanDelta .plain m (netDeletes st) (netInserts st) := by
    intro st hst
    cases hst
    exact .inl (new_tracks hf horder hnew)
  obtain ⟨programs', hsome, hkept⟩ := applyReasonedUpdate_closure (r := .plain) hf
    (by simp [PreparedOp.Buffered]) hm hclean hok
  subst hsome
  exact ⟨m, store', programs', inserts, deletes, hnew, hok, hkept⟩

/-- CLEAR DEFAULT leaves the copies of the quads that it removes. -/
theorem applyReasonedUpdate_keeps_unsupported : ∃ m store' programs',
    new .plain [copyRule] sampleStore.namedGraphs = .ok m ∧
      applyReasonedUpdate .offline .deny .plain ({ sampleStore with namedGraphs := m.base },
        some m.programs) [.clearDefault] = .ok ((store', some programs'), [], []) ∧
      store'.namedGraphs.quads ≠ strataModel .plain (activeStrata programs')
        {q | store'.namedGraphs.Extensional q} := by
  obtain ⟨m, hnew, result, hok, hdelta, programs', hprograms, hstrata, hstored, hderived⟩ :
      ∃ m, new .plain [copyRule] sampleStore.namedGraphs = .ok m ∧
        ∃ result, applyReasonedUpdate .offline .deny .plain
          ({ sampleStore with namedGraphs := m.base }, some m.programs) [.clearDefault] =
            .ok result ∧ result.2 = ([], []) ∧
        ∃ programs' ∈ result.1.2, activeStrata programs' = [[copyRule]] ∧
          ⟨1, 1, 2, 3⟩ ∈ result.1.1.namedGraphs ∧
          ∀ q ∈ result.1.1.namedGraphs.quadList, result.1.1.namedGraphs.Derived q := by decide
  obtain ⟨fresh, hfresh, hempty⟩ : ∃ fresh, new .plain [copyRule] .new = .ok fresh ∧
      ⟨1, 1, 2, 3⟩ ∉ fresh.base := by decide
  obtain ⟨⟨store', reasoner'⟩, inserts, deletes⟩ := result
  cases hdelta
  cases hprograms
  have horder : (RulePartitioner.new [copyRule]).orderRules = .ok [[copyRule]] := by
    decide
  refine ⟨m, store', programs', hnew, hok, fun heq => ?_⟩
  have hnone : {q | store'.namedGraphs.Extensional q} = QuadStore.new.quads := by
    ext q
    constructor
    · exact fun hq => absurd (hderived q hq.1) hq.2
    · intro hq
      cases hq
  rw [hnone, hstrata, ← (new_ok ReasonerEnv.plain_fixedFilters horder
    (.of_clash (by decide)) hfresh).2.1] at heq
  have hmem : ⟨1, 1, 2, 3⟩ ∈ store'.namedGraphs.quads := hstored
  rw [heq] at hmem
  exact hempty hmem

end Sample

end RdfDatalog.Endpoint
