import RdfDatalog.Datalog.FailedRuns
import RdfDatalog.Endpoint.UpdateSemantics

namespace RdfDatalog.Endpoint

open Datalog Datalog.IncrementalReasoner GroundProgram FallibleFold QuadStore

variable {N : NativeTypes} {Expr : Type}

/-- What the reasoner of a dataset calls out to, how many rounds an insertion may take, and the
text of a reasoning error. -/
structure Reasoning (Expr : Type) where
  env : ReasonerEnv Expr
  fuel : Nat
  describe : Fault Expr → String

inductive DeltaError where
  | contradiction (msg : String)
  | rollbackFailed (msg : String)

def DeltaError.toUpdateError : DeltaError → UpdateError
  | contradiction msg => .contradiction msg
  | rollbackFailed msg => .other msg

def reasonDelta (r : Reasoning Expr) (m : IncrementalReasoner Expr)
    (netDeletes netInserts : List Quad) : Updated Expr (IncrementalReasoner Expr) :=
  match (if netDeletes.isEmpty then .ok (m, 0) else applyDeletions r.env m netDeletes) with
  | .error e => .error e
  | .ok (m, _) => if netInserts.isEmpty then .ok m else applyInsertions r.env r.fuel m netInserts

theorem reasonDelta_ok {r : Reasoning Expr} {m m' : IncrementalReasoner Expr}
    {netDeletes netInserts : List Quad} (h : reasonDelta r m netDeletes netInserts = .ok m') :
    ∃ m₁ n, applyDeletions r.env m netDeletes = .ok (m₁, n) ∧
      (netInserts = [] ∧ m' = m₁ ∨
        netInserts ≠ [] ∧ applyInsertions r.env r.fuel m₁ netInserts = .ok m') := by
  have hguard : (if netDeletes.isEmpty then .ok (m, 0) else applyDeletions r.env m netDeletes) =
      applyDeletions r.env m netDeletes := by
    cases netDeletes with
    | nil => rfl
    | cons x xs => rfl
  rw [reasonDelta, hguard] at h
  cases hrun : applyDeletions r.env m netDeletes with
  | error e =>
    rw [hrun] at h
    cases h
  | ok result =>
    rw [hrun] at h
    refine ⟨result.1, result.2, rfl, ?_⟩
    cases netInserts with
    | nil =>
      cases h
      exact .inl ⟨rfl, rfl⟩
    | cons x xs => exact .inr ⟨List.cons_ne_nil x xs, h⟩

/-- Take the net delta of a failed update back. -/
def undoDelta (m : IncrementalReasoner Expr) (netDeletes netInserts : List Quad) :
    IncrementalReasoner Expr :=
  { m with
    base := netDeletes.foldl QuadStore.addQuad (netInserts.foldl QuadStore.removeQuad m.base) }

def applyReasonerDelta (r : Reasoning Expr) (m : IncrementalReasoner Expr)
    (netDeletes netInserts : List Quad) :
    Except (DeltaError × IncrementalReasoner Expr) (IncrementalReasoner Expr) :=
  match reasonDelta r m netDeletes netInserts with
  | .ok m => .ok m
  | .error (f, m) =>
    match rebuildFromBase r.env (undoDelta m netDeletes netInserts) with
    | .error (f₂, m) =>
      .error (.rollbackFailed ("contradiction rollback failed to restore a consistent state: " ++
        r.describe f₂ ++ " (original contradiction: " ++ r.describe f ++ ")"), m)
    | .ok m => .error (.contradiction (r.describe f), m)

/-- What a request leaves: the live store, and the programs of the reasoner if there is one. -/
abbrev Dataset (N : NativeTypes) (Expr : Type) :=
  Datastore N × Option (List (DatalogProgram Expr))

/-- A request, with an optional reasoner over the live store. -/
def applyReasonedUpdate (env : UpdateEnv N) (network : NetworkPolicy) (r : Reasoning Expr)
    (dataset : Dataset N Expr) (ops : List (PreparedOp N)) :
    Except (UpdateError × Dataset N Expr) (Dataset N Expr × List Quad × List Quad) :=
  match applyOps env network ⟨dataset.1, [], []⟩ ops with
  | .error (e, store) => .error (e, store, dataset.2)
  | .ok st =>
    let store := commitPending st
    match dataset.2 with
    | none => .ok ((store, none), netInserts st, netDeletes st)
    | some programs =>
      match applyReasonerDelta r ⟨programs, store.namedGraphs⟩ (netDeletes st) (netInserts st) with
      | .error (e, m) =>
        .error (e.toUpdateError, { store with namedGraphs := m.base }, some m.programs)
      | .ok m => .ok (({ store with namedGraphs := m.base }, some m.programs), netInserts st,
          netDeletes st)

section Operations

variable {env : UpdateEnv N} {network : NetworkPolicy} {st st' : Pending N}

theorem translateQuads_namedGraphs (tmp : Datastore N) (g : GraphElementId) (quads : List Quad)
    (acc : Datastore N × List Quad) :
    (quads.foldl (translateQuad tmp g) acc).1.namedGraphs = acc.1.namedGraphs := by
  induction quads generalizing acc with
  | nil => rfl
  | cons q quads ih =>
    rw [List.foldl_cons, ih, translateQuad]
    split <;> rfl

theorem translateToMainIds_namedGraphs (store tmp : Datastore N) :
    (translateToMainIds store tmp).1.namedGraphs = store.namedGraphs := by
  have hfold (ids : List GraphElementId) (acc : Datastore N × List Quad) :
      (ids.foldl (translateGraph tmp) acc).1.namedGraphs = acc.1.namedGraphs := by
    induction ids generalizing acc with
    | nil => rfl
    | cons g ids ih =>
      rw [List.foldl_cons, ih, translateGraph]
      have hquads := translateQuads_namedGraphs tmp (resolveTmpGraphId acc.1 tmp g).2
        (tmp.namedGraphs.table.getGraph g) ((resolveTmpGraphId acc.1 tmp g).1, acc.2)
      refine hquads.trans ?_
      rw [resolveTmpGraphId]
      split_ifs
      · rfl
      · split <;> rfl
  exact hfold _ _

/-- The document that a LOAD copies, if it gets one. -/
def fetched (env : UpdateEnv N) (network : NetworkPolicy) (source : String) :
    Option (Datastore N) :=
  match network with
  | .deny | .ignore => none
  | .allow | .allowList _ =>
    match env.fetchRdf source network with
    | .error _ => none
    | .ok document => (env.parseFetched document source).toOption

/-- The triples of a fetched document as quads of the target graph. -/
def loadedQuads (store tmp : Datastore N) (into : Option String) : List Quad :=
  let (store, targetGraphId) :=
    match into with
    | none => (store, defaultGraphElementId)
    | some iri => store.addResource (.iri iri)
  ((tmp.namedGraphs.table.getGraph defaultGraphElementId).foldl
    (translateQuad tmp targetGraphId) (store, [])).2

variable (store : Datastore N)

theorem foldl_addQuad_namedGraphs (quads : List Quad) :
    (quads.foldl Datastore.addQuad store).namedGraphs =
      quads.foldl QuadStore.addQuad store.namedGraphs := by
  induction quads generalizing store with
  | nil => rfl
  | cons q quads ih => exact ih (store.addQuad q)

theorem foldl_removeQuad_namedGraphs (quads : List Quad) :
    (quads.foldl Datastore.removeQuad store).namedGraphs =
      quads.foldl QuadStore.removeQuad store.namedGraphs := by
  induction quads generalizing store with
  | nil => rfl
  | cons q quads ih => exact ih (store.removeQuad q)

theorem foldl_addQuad_resources (quads : List Quad) :
    (quads.foldl Datastore.addQuad store).resources = store.resources := by
  induction quads generalizing store with
  | nil => rfl
  | cons q quads ih => exact ih (store.addQuad q)

theorem foldl_removeQuad_resources (quads : List Quad) :
    (quads.foldl Datastore.removeQuad store).resources = store.resources := by
  induction quads generalizing store with
  | nil => rfl
  | cons q quads ih => exact ih (store.removeQuad q)

theorem loadFetched_namedGraphs (store tmp : Datastore N) (into : Option String) :
    (loadFetched store tmp into).namedGraphs =
      (loadedQuads store tmp into).foldl QuadStore.addQuad store.namedGraphs := by
  cases into with
  | none =>
    rw [loadFetched, loadedQuads]
    dsimp only
    rw [foldl_addQuad_namedGraphs, translateQuads_namedGraphs]
  | some iri =>
    rw [loadFetched, loadedQuads]
    dsimp only
    rw [foldl_addQuad_namedGraphs, translateQuads_namedGraphs]
    rfl

/-- The operation changes at once no quad that is asserted: it clears no graph with asserted
quads, and loads no new quad. -/
def KeepsAsserted (env : UpdateEnv N) (network : NetworkPolicy) (st : Pending N) :
    PreparedOp N → Prop
  | .clearDefault | .dropDefault =>
    ∀ q, st.store.namedGraphs.Extensional q → q.tripleId ≠ defaultGraphElementId
  | .clearAll | .dropAll => ∀ q, ¬ st.store.namedGraphs.Extensional q
  | .clearNamed | .dropNamed =>
    ∀ q, st.store.namedGraphs.Extensional q → q.tripleId = defaultGraphElementId
  | .clearGraph iri | .dropGraph iri =>
    ∀ q, st.store.namedGraphs.Extensional q → st.store.lookupNamedGraphId iri ≠ some q.tripleId
  | .loadGraph source into _ => ∀ tmp, fetched env network source = some tmp →
    ∀ q ∈ loadedQuads st.store tmp into, q ∈ st.store.namedGraphs
  | _ => True

theorem extensional_removeGraph (s : QuadStore) (g : GraphElementId) (q : Quad) :
    (s.removeGraph g).Extensional q ↔ s.Extensional q ∧ q.tripleId ≠ g := by
  rw [QuadStore.Extensional, mem_removeGraph, derived_removeGraph]
  constructor
  · rintro ⟨⟨hq, hne⟩, hd⟩
    exact ⟨⟨hq, fun hder => hd ⟨hder, hne⟩⟩, hne⟩
  · rintro ⟨⟨hq, hd⟩, hne⟩
    exact ⟨⟨hq, hne⟩, fun hder => hd hder.1⟩

theorem extensional_removeGraphs (ids : List GraphElementId) (q : Quad) :
    (removeGraphs store ids).namedGraphs.Extensional q ↔
      store.namedGraphs.Extensional q ∧ q.tripleId ∉ ids := by
  rw [removeGraphs]
  induction ids generalizing store with
  | nil => simp
  | cons g ids ih =>
    have hstep := extensional_removeGraph store.namedGraphs g q
    rw [List.foldl_cons, ih, List.mem_cons, not_or, ← and_assoc]
    exact and_congr_left fun _ => hstep

theorem mem_graphIds_of_extensional {s : QuadStore} {q : Quad} (h : s.Extensional q) :
    q.tripleId ∈ s.graphIds :=
  (s.mem_graphIds q.tripleId).mpr ⟨q, h.1, rfl⟩

theorem loadGraph_eq_ok {store store' : Datastore N} {source : String} {into : Option String}
    {silent : Bool} (h : loadGraph env network store source into silent = .ok store') :
    (fetched env network source = none ∧ store' = store) ∨
      ∃ tmp, fetched env network source = some tmp ∧ store' = loadFetched store tmp into := by
  rw [loadGraph.eq_def] at h
  rw [fetched.eq_def]
  cases network with
  | deny =>
    simp only at h
    split_ifs at h
    exact .inl ⟨rfl, (Except.ok.inj h).symm⟩
  | ignore => exact .inl ⟨rfl, (Except.ok.inj h).symm⟩
  | allow | allowList =>
    simp only at h ⊢
    generalize env.fetchRdf source _ = fetch at h ⊢
    cases fetch with
    | error e =>
      simp only at h
      split_ifs at h
      exact .inl ⟨rfl, (Except.ok.inj h).symm⟩
    | ok document =>
      simp only at h ⊢
      generalize env.parseFetched document source = parsed at h ⊢
      cases parsed with
      | error e =>
        simp only at h
        split_ifs at h
        exact .inl ⟨rfl, (Except.ok.inj h).symm⟩
      | ok tmp => exact .inr ⟨tmp, rfl, (Except.ok.inj h).symm⟩

theorem applyOp_loadGraph {source : String} {into : Option String} {silent : Bool}
    (h : applyOp env network st (.loadGraph source into silent) = .ok st') :
    (fetched env network source = none ∧ st' = st) ∨
      ∃ tmp, fetched env network source = some tmp ∧
        st' = { st with store := loadFetched st.store tmp into } := by
  rw [applyOp] at h
  cases hload : loadGraph env network st.store source into silent with
  | error e => rw [hload] at h; cases h
  | ok store =>
    rw [hload] at h
    cases h
    rcases loadGraph_eq_ok hload with ⟨hnone, rfl⟩ | ⟨tmp, hsome, rfl⟩
    · exact .inl ⟨hnone, rfl⟩
    · exact .inr ⟨tmp, hsome, rfl⟩

variable (env network) in
theorem applyOp_clearGraph {iri : String}
    (h : applyOp env network st (.clearGraph iri) = .ok st') :
    (st.store.lookupNamedGraphId iri = none ∧ st' = st) ∨
      ∃ id, st.store.lookupNamedGraphId iri = some id ∧
        st' = { st with store := st.store.removeGraph id } := by
  rw [applyOp] at h
  cases hl : st.store.lookupNamedGraphId iri with
  | none =>
    rw [hl] at h
    exact .inl ⟨rfl, (Except.ok.inj h).symm⟩
  | some id =>
    rw [hl] at h
    exact .inr ⟨id, rfl, (Except.ok.inj h).symm⟩

theorem applyOp_patternUpdate_frame {deletes inserts : Option String} {pattern : String}
    {prefixes : Prefixes}
    (h : applyOp env network st (.patternUpdate deletes inserts pattern prefixes) = .ok st') :
    st.store.resources.Extends st'.store.resources ∧
      st'.store.namedGraphs = st.store.namedGraphs := by
  rw [applyOp] at h
  split at h
  · cases h
  · next toDelete toInsert _ =>
    cases h
    have hdeletes := groundQuads_spec st.store toDelete
    have hinserts := groundQuads_spec (groundQuads st.store toDelete).1 toInsert
    exact ⟨hdeletes.extended.trans hinserts.extended,
      hinserts.namedGraphs.trans hdeletes.namedGraphs⟩

theorem keeps_of_namedGraphs {s s' : QuadStore} (h : s' = s) :
    True ↔ ∀ q, s'.Extensional q ↔ s.Extensional q := by
  rw [h]
  exact ⟨fun _ _ => Iff.rfl, fun _ => trivial⟩

theorem keepsAsserted_iff {op : PreparedOp N} (h : applyOp env network st op = .ok st') :
    KeepsAsserted env network st op ↔
      ∀ q, st'.store.namedGraphs.Extensional q ↔ st.store.namedGraphs.Extensional q := by
  cases op with
  | insertData tmp | deleteData tmp =>
    cases h
    exact keeps_of_namedGraphs (translateToMainIds_namedGraphs st.store tmp)
  | createGraph iri =>
    cases h
    exact keeps_of_namedGraphs rfl
  | patternUpdate deleteTemplate insertTemplate pattern prefixes =>
    exact keeps_of_namedGraphs (applyOp_patternUpdate_frame h).2
  | clearDefault | dropDefault =>
    cases h
    have hext := extensional_removeGraph st.store.namedGraphs defaultGraphElementId
    simp only [KeepsAsserted, Datastore.removeGraph, hext, and_iff_left_iff_imp]
  | clearAll | dropAll =>
    cases h
    have hext := extensional_removeGraphs st.store st.store.namedGraphs.graphIds
    simp only [KeepsAsserted, hext, and_iff_left_iff_imp]
    constructor
    · exact fun hno q hq => absurd hq (hno q)
    · exact fun hno q hq => hno q hq (mem_graphIds_of_extensional hq)
  | clearNamed | dropNamed =>
    cases h
    have hext := extensional_removeGraphs st.store
      (st.store.namedGraphs.graphIds.filter fun id => id ≠ defaultGraphElementId)
    simp only [KeepsAsserted, hext, and_iff_left_iff_imp, List.mem_filter, decide_eq_true_eq,
      not_and, not_not]
    constructor
    · exact fun hdefault q hq _ => hdefault q hq
    · exact fun hkeep q hq => hkeep q hq (mem_graphIds_of_extensional hq)
  | clearGraph iri | dropGraph iri =>
    rw [KeepsAsserted]
    rcases applyOp_clearGraph env network h with ⟨hl, rfl⟩ | ⟨id, hl, rfl⟩
    · simp [hl]
    · have hext := extensional_removeGraph st.store.namedGraphs id
      simp only [Datastore.removeGraph, hl, hext, and_iff_left_iff_imp, ne_eq, Option.some.injEq]
      exact forall_congr' fun q => imp_congr_right fun _ => not_congr eq_comm
  | loadGraph source into silent =>
    rw [KeepsAsserted]
    rcases applyOp_loadGraph h with ⟨hnone, rfl⟩ | ⟨tmp, hsome, rfl⟩
    · simp [hnone]
    · have hext := extensional_foldl_addQuad st.store.namedGraphs (loadedQuads st.store tmp into)
      simp only [hsome, Option.some.injEq, loadFetched_namedGraphs, hext]
      constructor
      · intro hstored q
        refine or_iff_left_of_imp fun hq => ?_
        exact ⟨hstored tmp rfl q hq.1, hq.2⟩
      · intro hsame tmp' htmp q hq
        subst htmp
        by_contra hno
        have hnew := (hsame q).mp (.inr ⟨hq, fun hd => hno hd.mem⟩)
        exact hno hnew.1

/-- Every operation that runs changes at once no asserted quad. -/
def StepsKeep (env : UpdateEnv N) (network : NetworkPolicy) :
    Pending N → List (PreparedOp N) → Prop
  | _, [] => True
  | st, op :: ops => KeepsAsserted env network st op ∧
    ∀ st', applyOp env network st op = .ok st' → StepsKeep env network st' ops

theorem StepsKeep.applyOps {ops : List (PreparedOp N)} (h : StepsKeep env network st ops) :
    (∀ st', applyOps env network st ops = .ok st' →
      ∀ q, st'.store.namedGraphs.Extensional q ↔ st.store.namedGraphs.Extensional q) ∧
    ∀ e store, applyOps env network st ops = .error (e, store) →
      ∀ q, store.namedGraphs.Extensional q ↔ st.store.namedGraphs.Extensional q := by
  induction ops generalizing st with
  | nil =>
    constructor
    · intro st' hst q
      cases hst
      rfl
    · intro e store hst
      cases hst
  | cons op ops ih =>
    rw [Endpoint.applyOps]
    cases hop : applyOp env network st op with
    | error e =>
      constructor
      · intro st' hst
        cases hst
      · intro e' store hst q
        cases hst
        rfl
    | ok st₁ =>
      have hstep := (keepsAsserted_iff hop).mp h.1
      obtain ⟨hok, herror⟩ := ih (h.2 st₁ hop)
      constructor
      · exact fun st' hst q => (hok st' hst q).trans (hstep q)
      · exact fun e store hst q => (herror e store hst q).trans (hstep q)

end Operations

section Rollback

variable {r : Reasoning Expr} {programs : List (DatalogProgram Expr)} {st : Pending N}

/-- The asserted quads that the request does not delete. -/
def Pending.staying (st : Pending N) : Set Quad :=
  {q | st.store.namedGraphs.Extensional q ∧ q ∉ netDeletes st}

/-- The quads that may be asserted after the commit, or before it. -/
def Pending.assertable (st : Pending N) : Set Quad :=
  {q | st.store.namedGraphs.Extensional q ∨ q ∈ netInserts st}

/-- What follows from the quads that are stored after the commit, where a NOT atom is blocked by
the asserted quads that stay. -/
def Pending.following (st : Pending N) (r : Reasoning Expr)
    (programs : List (DatalogProgram Expr)) : Set Quad :=
  closure (clausesOf r.env (activeStrata programs).flatten) st.staying
    (commitPending st).namedGraphs.quads

/-- The net delta of the request can be taken back: it inserts nothing that is asserted already
and deletes asserted quads only; no asserted quad is reached from a deleted one through recorded
derivations, unless the closure is rebuilt; the heads of body-less rules are asserted; and no
deleted quad follows from what is stored after the commit. -/
structure Restorable (r : Reasoning Expr) (programs : List (DatalogProgram Expr))
    (st : Pending N) : Prop where
  inserts : ∀ q ∈ netInserts st, ¬ st.store.namedGraphs.Extensional q
  deletes : ∀ q ∈ netDeletes st, st.store.namedGraphs.Extensional q
  suspects : FallsBack ⟨programs, (commitPending st).namedGraphs⟩ (netDeletes st) ∨
    ∀ q, st.store.namedGraphs.Extensional q → ¬ Suspect programs (netDeletes st) q
  facts : ∀ q ∈ factHeads (activeStrata programs).flatten, st.store.namedGraphs.Extensional q
  underived : ∀ q ∈ netDeletes st, q ∉ st.following r programs

theorem commitPending_namedGraphs (st : Pending N) : (commitPending st).namedGraphs =
    (netInserts st).foldl QuadStore.addQuad
      ((netDeletes st).foldl QuadStore.removeQuad st.store.namedGraphs) := by
  rw [commitPending, foldl_addQuad_namedGraphs, foldl_removeQuad_namedGraphs]

theorem bounded_commitPending (r : Reasoning Expr) (programs : List (DatalogProgram Expr))
    (st : Pending N) : Bounded (activeStrata programs) st.staying st.assertable
      (st.following r programs) ⟨programs, (commitPending st).namedGraphs⟩ := by
  have hremove := extensional_foldl_removeQuad st.store.namedGraphs (netDeletes st)
  have hadd := extensional_foldl_addQuad
    ((netDeletes st).foldl QuadStore.removeQuad st.store.namedGraphs) (netInserts st)
  rw [← commitPending_namedGraphs] at hadd
  refine ⟨rfl, ?_, ?_, subset_closure _ _ _⟩
  · exact fun q hq => (hadd q).mpr (.inl ((hremove q).mpr hq))
  · intro q hq
    rcases (hadd q).mp hq with hq | hq
    · exact .inl ((hremove q).mp hq).1
    · exact .inr hq.1

theorem Restorable.reasonDelta (hf : r.env.FixedFilters) (h : Restorable r programs st)
    {f : Fault Expr} {m : IncrementalReasoner Expr}
    (hrun : reasonDelta r ⟨programs, (commitPending st).namedGraphs⟩ (netDeletes st)
      (netInserts st) = .error (f, m)) :
    Recoverable (activeStrata programs) st.staying st.assertable {q | q ∈ netDeletes st} m := by
  have hstart := bounded_commitPending r programs st
  have hA : ∀ q ∈ factHeads (activeStrata programs).flatten, q ∈ st.assertable :=
    fun q hq => .inl (h.facts q hq)
  have hC : closure (clausesOf r.env (activeStrata programs).flatten) st.staying
      (st.following r programs) ⊆ st.following r programs := closure_closure_subset _ _ _
  have hdeletes : ∀ q ∈ netDeletes st,
      q ∈ st.assertable ∧ q ∉ st.staying ∧ q ∉ st.following r programs :=
    fun q hq => ⟨.inl (h.deletes q hq), fun hstay => hstay.2 hq, h.underived q hq⟩
  have hclean : FallsBack ⟨programs, (commitPending st).namedGraphs⟩ (netDeletes st) ∨
      ∀ q, q ∈ st.staying ∨ q ∈ netDeletes st → ¬ Suspect programs (netDeletes st) q :=
    h.suspects.imp_right fun hno q hq => hno q (hq.elim And.left (h.deletes q))
  have hinserts : ∀ q ∈ netInserts st, q ∈ st.assertable ∧ q ∈ st.following r programs := by
    intro q hq
    refine ⟨.inr hq, subset_closure _ _ _ ?_⟩
    rw [mem_quads, commitPending_namedGraphs, mem_foldl_addQuad]
    exact .inr hq
  have hdel := hstart.applyDeletions hf hA hC hdeletes hclean
  have hins {m₁ : IncrementalReasoner Expr} (hm₁ : Bounded (activeStrata programs) st.staying
      st.assertable (st.following r programs) m₁)
      (hrun : (if (netInserts st).isEmpty then .ok m₁
        else applyInsertions r.env r.fuel m₁ (netInserts st)) = .error (f, m)) :
      Recoverable (activeStrata programs) st.staying st.assertable {q | q ∈ netDeletes st} m := by
    split_ifs at hrun
    have hpass := hm₁.applyInsertions hf hA hC r.fuel hinserts
    rw [hrun] at hpass
    exact Bounded.recoverable hpass fun q hq => h.underived q hq
  rw [Endpoint.reasonDelta] at hrun
  by_cases hempty : (netDeletes st).isEmpty
  · rw [if_pos hempty] at hrun
    exact hins hstart hrun
  · rw [if_neg hempty] at hrun
    cases hd : applyDeletions r.env ⟨programs, (commitPending st).namedGraphs⟩ (netDeletes st) with
    | error e =>
      rw [hd] at hrun hdel
      cases hrun
      exact hdel
    | ok result =>
      rw [hd] at hrun hdel
      exact hins hdel hrun

theorem Restorable.rollback (hf : r.env.FixedFilters) (h : Restorable r programs st)
    {m : IncrementalReasoner Expr}
    (hm : Recoverable (activeStrata programs) st.staying st.assertable {q | q ∈ netDeletes st} m)
    (q : Quad) :
    (reached (rebuildFromBase r.env (undoDelta m (netDeletes st) (netInserts st)))).base.Extensional
      q ↔ st.store.namedGraphs.Extensional q := by
  have hremove := extensional_foldl_removeQuad m.base (netInserts st)
  have hadd := extensional_foldl_addQuad
    ((netInserts st).foldl QuadStore.removeQuad m.base) (netDeletes st)
  have hundo (q : Quad) : (undoDelta m (netDeletes st) (netInserts st)).base.Extensional q ↔
      st.store.namedGraphs.Extensional q := by
    refine (hadd q).trans ?_
    rw [hremove, derived_foldl_removeQuad]
    constructor
    · rintro (⟨hq, hno⟩ | ⟨hq, -⟩)
      · exact (hm.asserts q hq).resolve_right hno
      · exact h.deletes q hq
    · intro hq
      by_cases hdel : q ∈ netDeletes st
      · exact .inr ⟨hdel, fun hd => hm.unmarked q hdel hd.1⟩
      · exact .inl ⟨hm.keeps q ⟨hq, hdel⟩, fun hins => h.inserts q hins hq⟩
  obtain ⟨hto, hfrom⟩ :=
    rebuildFromBase_status hf (undoDelta m (netDeletes st) (netInserts st)) q
  constructor
  · intro hq
    rcases hfrom hq with hq | hq
    · exact (hundo q).mp hq
    · have hstrata : activeStrata (undoDelta m (netDeletes st) (netInserts st)).programs =
          activeStrata programs := hm.strata
      rw [hstrata] at hq
      exact h.facts q hq
  · exact fun hq => hto ((hundo q).mpr hq)

/-- A request that fails leaves the asserted quads as they were, if none of its operations
changes them at once and its net delta can be taken back. -/
theorem applyReasonedUpdate_atomic (env : UpdateEnv N) (network : NetworkPolicy)
    (r : Reasoning Expr) (dataset : Dataset N Expr) (ops : List (PreparedOp N))
    (hsteps : StepsKeep env network ⟨dataset.1, [], []⟩ ops)
    (hdelta : ∀ programs st, dataset.2 = some programs →
      applyOps env network ⟨dataset.1, [], []⟩ ops = .ok st →
        r.env.FixedFilters ∧ Restorable r programs st)
    {e : UpdateError} {dataset' : Dataset N Expr}
    (h : applyReasonedUpdate env network r dataset ops = .error (e, dataset')) (q : Quad) :
    dataset'.1.namedGraphs.Extensional q ↔ dataset.1.namedGraphs.Extensional q := by
  obtain ⟨store, reasoner⟩ := dataset
  rw [applyReasonedUpdate] at h
  cases hops : applyOps env network ⟨store, [], []⟩ ops with
  | error failed =>
    rw [hops] at h
    cases h
    exact hsteps.applyOps.2 _ _ hops q
  | ok st =>
    rw [hops] at h
    have hsame := hsteps.applyOps.1 st hops q
    cases reasoner with
    | none => cases h
    | some programs =>
      obtain ⟨hf, hst⟩ := hdelta programs st rfl hops
      simp only [applyReasonerDelta] at h
      cases hrun : reasonDelta r ⟨programs, (commitPending st).namedGraphs⟩ (netDeletes st)
        (netInserts st) with
      | ok m =>
        rw [hrun] at h
        cases h
      | error failed =>
        have hroll := hst.rollback hf (hst.reasonDelta hf hrun) q
        simp only [hrun] at h
        cases hre : rebuildFromBase r.env (undoDelta failed.2 (netDeletes st) (netInserts st)) with
        | error failed' =>
          rw [hre] at h hroll
          cases h
          exact hroll.trans hsame
        | ok m =>
          rw [hre] at h hroll
          cases h
          exact hroll.trans hsame

end Rollback

section Sample

def Reasoning.plain : Reasoning Empty := ⟨.plain, 2, fun _ => "contradiction"⟩

/-- No quad may have the predicate with id 4. -/
def forbidden : Rule Empty :=
  ⟨.contradiction, [.positivePattern ⟨.resource 0, .var "x", .resource 4, .var "y"⟩]⟩

/-- A block with a predicate of its own. -/
def sampleBlock : Datastore NativeTypes.text :=
  addOxQuad .new ⟨.namedNode "s", "q", .namedNode "o", .defaultGraph⟩

/-- A clear before a rejected LOAD. -/
theorem applyReasonedUpdate_loses_cleared : ∃ e dataset',
    applyReasonedUpdate .offline .deny .plain (sampleStore, none)
        [.clearDefault, .loadGraph "http://example.org/" none false] = .error (e, dataset') ∧
      ∃ q, sampleStore.namedGraphs.Extensional q ∧ ¬ dataset'.1.namedGraphs.Extensional q := by
  have hrun : (match applyReasonedUpdate .offline .deny .plain (sampleStore, none)
      [.clearDefault, .loadGraph "http://example.org/" none false] with
    | .ok _ => false
    | .error (_, dataset') => decide (sampleStore.namedGraphs.Extensional ⟨0, 1, 2, 3⟩ ∧
        ¬ dataset'.1.namedGraphs.Extensional ⟨0, 1, 2, 3⟩)) = true := by decide
  cases h : applyReasonedUpdate .offline .deny .plain (sampleStore, none)
      [.clearDefault, .loadGraph "http://example.org/" none false] with
  | ok result => rw [h] at hrun; cases hrun
  | error failed =>
    rw [h] at hrun
    exact ⟨failed.1, failed.2, rfl, _, of_decide_eq_true hrun⟩

theorem applyReasonedUpdate_atomic_contradiction : ∃ e dataset',
    applyReasonedUpdate .offline .deny .plain (sampleStore, some [.ofRules [forbidden]])
        [.insertData sampleBlock] = .error (.contradiction e, dataset') ∧
      ∀ q, dataset'.1.namedGraphs.Extensional q ↔ sampleStore.namedGraphs.Extensional q := by
  have hrun : (match applyReasonedUpdate .offline .deny .plain
      (sampleStore, some [.ofRules [forbidden]]) [.insertData sampleBlock] with
    | .error (.contradiction _, _) => true
    | _ => false) = true := by decide
  have hactive : (activeStrata [DatalogProgram.ofRules [forbidden]]).flatten = [forbidden] := by
    decide
  have hnew : ∀ q ∈ (translateToMainIds sampleStore sampleBlock).2,
      ¬ (translateToMainIds sampleStore sampleBlock).1.namedGraphs.Extensional q := by
    decide
  have hdelta : ∀ programs st, some [DatalogProgram.ofRules [forbidden]] = some programs →
      applyOps .offline .deny ⟨sampleStore, [], []⟩ [.insertData sampleBlock] = .ok st →
        ReasonerEnv.plain.FixedFilters ∧ Restorable .plain programs st := by
    intro programs st hprograms hst
    cases hprograms
    cases hst
    refine ⟨ReasonerEnv.plain_fixedFilters, ?_, ?_, .inr ?_, ?_, ?_⟩
    · exact fun q hq => hnew q (List.mem_filter.mp hq).1
    · exact fun q hq => by cases hq
    · exact fun q _ ⟨x, hx, _⟩ => by cases hx
    · intro q ⟨rule, hrule, hbody, _⟩
      rw [hactive, List.mem_singleton] at hrule
      rw [hrule] at hbody
      cases hbody
    · exact fun q hq => by cases hq
  have hsteps : StepsKeep .offline .deny ⟨sampleStore, [], []⟩ [.insertData sampleBlock] :=
    ⟨trivial, fun _ _ => trivial⟩
  cases h : applyReasonedUpdate .offline .deny .plain
      (sampleStore, some [DatalogProgram.ofRules [forbidden]]) [.insertData sampleBlock] with
  | ok result => rw [h] at hrun; cases hrun
  | error failed =>
    obtain ⟨e, dataset'⟩ := failed
    cases e with
    | other msg => rw [h] at hrun; cases hrun
    | contradiction msg =>
      exact ⟨msg, dataset', rfl,
        applyReasonedUpdate_atomic .offline .deny .plain _ _ hsteps hdelta h⟩

end Sample

end RdfDatalog.Endpoint
