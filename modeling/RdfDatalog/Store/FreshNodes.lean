import RdfDatalog.Store.TermQuads

namespace RdfDatalog

variable {N : NativeTypes}

namespace GraphElementManager

def HasBlank (m : GraphElementManager N) (n : Nat) : Prop :=
  .nodeOrEdge (.anonymousBlankNode n) ∈ m.resourceList

/-- Numbers above the counter are free. -/
def FreshAbove (m : GraphElementManager N) : Prop :=
  ∀ n, m.HasBlank n → n ≤ m.anonResourceCount

variable (m : GraphElementManager N)

theorem addResource_anonResourceCount (e : GraphElement N) :
    (m.addResource e).1.anonResourceCount = m.anonResourceCount := by
  unfold addResource
  split <;> rfl

theorem addResource_anonResourceMap (e : GraphElement N) :
    (m.addResource e).1.anonResourceMap = m.anonResourceMap := by
  unfold addResource
  split <;> rfl

theorem createUnnamedAnonResource_spec :
    m.Extends m.createUnnamedAnonResource.1 ∧
      m.createUnnamedAnonResource.1.anonResourceCount = m.anonResourceCount + 1 :=
  ⟨addResource_extends { m with anonResourceCount := m.anonResourceCount + 1 } _,
    addResource_anonResourceCount _ _⟩

theorem createUnnamedAnonResource_anonResourceMap :
    m.createUnnamedAnonResource.1.anonResourceMap = m.anonResourceMap :=
  addResource_anonResourceMap { m with anonResourceCount := m.anonResourceCount + 1 } _

theorem createUnnamedAnonResource_get :
    m.createUnnamedAnonResource.1.getGraphElement m.createUnnamedAnonResource.2 =
      some (.nodeOrEdge (.anonymousBlankNode (m.anonResourceCount + 1))) :=
  addResource_get { m with anonResourceCount := m.anonResourceCount + 1 } _

theorem addResource_hasBlank (e : GraphElement N) (n : Nat) :
    (m.addResource e).1.HasBlank n ↔
      m.HasBlank n ∨ e = .nodeOrEdge (.anonymousBlankNode n) := by
  unfold HasBlank addResource
  split
  · next id he =>
    have hmem := List.mem_of_getElem? ((m.exact e id).mp he)
    constructor
    · intro h
      exact .inl h
    · intro h
      rcases h with h | heq
      · exact h
      · exact heq ▸ hmem
  · rw [List.mem_append, List.mem_singleton]
    exact or_congr_right eq_comm

theorem createUnnamedAnonResource_hasBlank (n : Nat) :
    m.createUnnamedAnonResource.1.HasBlank n ↔ m.HasBlank n ∨ n = m.anonResourceCount + 1 := by
  have h := addResource_hasBlank { m with anonResourceCount := m.anonResourceCount + 1 }
    (.nodeOrEdge (.anonymousBlankNode (m.anonResourceCount + 1))) n
  simp only [GraphElement.nodeOrEdge.injEq, RdfResource.anonymousBlankNode.injEq] at h
  exact h.trans (or_congr_right eq_comm)

theorem addResource_unallocated (e : GraphElement N) :
    m.getGraphElement (m.addResource e).2 = none ↔ e ∉ m.resourceList := by
  unfold addResource
  split
  · next id he =>
    have hid := (m.exact e id).mp he
    have hget : m.getGraphElement id = some e := hid
    simp [hget, List.mem_of_getElem? hid]
  · next he =>
    have hnew : e ∉ m.resourceList := by
      intro hmem
      obtain ⟨i, hi⟩ := List.mem_iff_getElem?.mp hmem
      rw [(m.exact e i).mpr hi] at he
      cases he
    have hlast : m.getGraphElement m.resourceCount = none := by
      rw [getGraphElement, m.count]
      exact List.getElem?_eq_none (Nat.le_refl _)
    simp [hlast, hnew]

theorem createUnnamedAnonResource_unallocated :
    m.getGraphElement m.createUnnamedAnonResource.2 = none ↔
      ¬ m.HasBlank (m.anonResourceCount + 1) :=
  addResource_unallocated { m with anonResourceCount := m.anonResourceCount + 1 } _

/-- Subsequent labels start a fresh scope. -/
def resetBlankNodesMap (m : GraphElementManager N) : GraphElementManager N :=
  { m with anonResourceMap := ∅ }

end GraphElementManager

/-- The operations that change an interning store. -/
inductive ManagerOp (N : NativeTypes) where
  | addResource (e : GraphElement N)
  | createUnnamedAnonResource
  | getOrCreateNamedAnonResource (name : String)
  | resetBlankNodesMap

namespace ManagerOp

/-- Interns a blank node under a number of the caller's. -/
def intern (n : Nat) : ManagerOp N := .addResource (.nodeOrEdge (.anonymousBlankNode n))

def step (m : GraphElementManager N) : ManagerOp N → GraphElementManager N
  | .addResource e => (m.addResource e).1
  | .createUnnamedAnonResource => m.createUnnamedAnonResource.1
  | .getOrCreateNamedAnonResource name => (m.getOrCreateNamedAnonResource name).1
  | .resetBlankNodesMap => m.resetBlankNodesMap

def run (m : GraphElementManager N) (ops : List (ManagerOp N)) : GraphElementManager N :=
  ops.foldl step m

/-- How many blank nodes the operations create, when the labels `named` are taken. -/
def creations (named : List String) : List (ManagerOp N) → Nat
  | [] => 0
  | .addResource _ :: ops => creations named ops
  | .createUnnamedAnonResource :: ops => creations named ops + 1
  | .getOrCreateNamedAnonResource name :: ops =>
    if name ∈ named then creations named ops else creations (name :: named) ops + 1
  | .resetBlankNodesMap :: ops => creations [] ops

open GraphElementManager

variable (m : GraphElementManager N)

theorem step_named (name : String) :
    m.getOrCreateNamedAnonResource name = match m.anonResourceMap.lookup name with
      | some id => (m, id)
      | none => ({ m.createUnnamedAnonResource.1 with
          anonResourceMap := m.createUnnamedAnonResource.1.anonResourceMap.insert name
            m.createUnnamedAnonResource.2 }, m.createUnnamedAnonResource.2) := rfl

/-- The blank nodes after a step: those before it, one that is interned under its number, and
those the counter passed. -/
theorem step_hasBlank (op : ManagerOp N) (n : Nat) :
    (step m op).HasBlank n ↔ m.HasBlank n ∨ op = intern n ∨
      m.anonResourceCount < n ∧ n ≤ (step m op).anonResourceCount := by
  have hcreate : (m.createUnnamedAnonResource.1.HasBlank n ↔ m.HasBlank n ∨
      m.anonResourceCount < n ∧ n ≤ m.createUnnamedAnonResource.1.anonResourceCount) := by
    rw [createUnnamedAnonResource_hasBlank, (createUnnamedAnonResource_spec m).2]
    exact or_congr_right (by omega)
  cases op with
  | addResource e =>
    have hcount := addResource_anonResourceCount m e
    have hadd := addResource_hasBlank m e n
    have hnot : ¬ (m.anonResourceCount < n ∧ n ≤ (m.addResource e).1.anonResourceCount) := by
      omega
    simp only [step, intern, ManagerOp.addResource.injEq, hnot, or_false, hadd]
  | createUnnamedAnonResource => simpa [step, intern] using hcreate
  | getOrCreateNamedAnonResource name =>
    cases hname : m.anonResourceMap.lookup name with
    | some id =>
      have hnot : ¬ (m.anonResourceCount < n ∧ n ≤ m.anonResourceCount) := by omega
      simp [step, step_named, hname, intern, hnot]
    | none =>
      simp only [step, step_named, hname, intern, reduceCtorEq, false_or]
      exact hcreate
  | resetBlankNodesMap =>
    have hnot : ¬ (m.anonResourceCount < n ∧ n ≤ m.anonResourceCount) := by omega
    change m.HasBlank n ↔ m.HasBlank n ∨ _ ∨ (m.anonResourceCount < n ∧ n ≤ m.anonResourceCount)
    simp only [intern, hnot, or_false, reduceCtorEq]

variable (ops : List (ManagerOp N))

theorem run_anonResourceCount (m : GraphElementManager N)
    (named : List String)
    (hnamed : ∀ name, name ∈ named ↔ (m.anonResourceMap.lookup name).isSome) :
    (run m ops).anonResourceCount = m.anonResourceCount + creations named ops := by
  induction ops generalizing m named with
  | nil => rfl
  | cons op ops ih =>
    have hnext := ih (step m op)
    change (run (step m op) ops).anonResourceCount = _
    cases op with
    | addResource e =>
      rw [hnext named (by rwa [step, addResource_anonResourceMap])]
      rw [step, addResource_anonResourceCount, creations]
    | createUnnamedAnonResource =>
      rw [hnext named (by rwa [step, createUnnamedAnonResource_anonResourceMap])]
      rw [step, (createUnnamedAnonResource_spec m).2, creations]
      omega
    | getOrCreateNamedAnonResource name =>
      by_cases hmem : name ∈ named
      · obtain ⟨id, hid⟩ := Option.isSome_iff_exists.mp ((hnamed name).mp hmem)
        have hsame : step m (.getOrCreateNamedAnonResource name) = m := by
          simp only [step, step_named, hid]
        rw [hsame] at hnext ⊢
        rw [hnext named hnamed, creations, if_pos hmem]
      · have hnone : m.anonResourceMap.lookup name = none :=
          Option.not_isSome_iff_eq_none.mp fun h => hmem ((hnamed name).mpr h)
        have hmap : (step m (.getOrCreateNamedAnonResource name)).anonResourceMap =
            m.anonResourceMap.insert name m.createUnnamedAnonResource.2 := by
          simp only [step, step_named, hnone, createUnnamedAnonResource_anonResourceMap]
        have hcount : (step m (.getOrCreateNamedAnonResource name)).anonResourceCount =
            m.anonResourceCount + 1 := by
          simp only [step, step_named, hnone]
          exact (createUnnamedAnonResource_spec m).2
        rw [hnext (name :: named), hcount, creations, if_neg hmem]
        · omega
        · intro other
          rw [hmap, List.mem_cons, hnamed]
          by_cases hother : other = name
          · rw [hother, AList.lookup_insert]
            simp
          · rw [AList.lookup_insert_ne hother]
            simp [hother]
    | resetBlankNodesMap =>
      have hempty (name : String) :
          name ∈ [] ↔ (m.resetBlankNodesMap.anonResourceMap.lookup name).isSome := by
        simp [GraphElementManager.resetBlankNodesMap]
      exact hnext [] hempty

theorem le_step_anonResourceCount (op : ManagerOp N) :
    m.anonResourceCount ≤ (step m op).anonResourceCount := by
  cases op with
  | addResource e => exact (addResource_anonResourceCount m e).ge
  | createUnnamedAnonResource =>
    rw [step, (createUnnamedAnonResource_spec m).2]
    exact Nat.le_succ _
  | getOrCreateNamedAnonResource name =>
    cases hname : m.anonResourceMap.lookup name with
    | some id => simp [step, step_named, hname]
    | none =>
      simp only [step, step_named, hname, (createUnnamedAnonResource_spec m).2]
      exact Nat.le_succ _
  | resetBlankNodesMap => exact Nat.le_refl _

theorem le_run_anonResourceCount (m : GraphElementManager N) :
    m.anonResourceCount ≤ (run m ops).anonResourceCount := by
  induction ops generalizing m with
  | nil => exact Nat.le_refl _
  | cons op ops ih => exact (le_step_anonResourceCount m op).trans (ih (step m op))

theorem run_hasBlank (m : GraphElementManager N) (n : Nat) :
    (run m ops).HasBlank n ↔ m.HasBlank n ∨ intern n ∈ ops ∨
      m.anonResourceCount < n ∧ n ≤ (run m ops).anonResourceCount := by
  induction ops generalizing m with
  | nil =>
    have hnot : ¬ (m.anonResourceCount < n ∧ n ≤ m.anonResourceCount) := by omega
    simp [run, hnot]
  | cons op ops ih =>
    have hstep := step_hasBlank m op n
    have hle := le_step_anonResourceCount m op
    have hrest := le_run_anonResourceCount ops (step m op)
    have hsplit : (m.anonResourceCount < n ∧ n ≤ (step m op).anonResourceCount ∨
        (step m op).anonResourceCount < n ∧ n ≤ (run (step m op) ops).anonResourceCount) ↔
        m.anonResourceCount < n ∧ n ≤ (run (step m op) ops).anonResourceCount := by
      omega
    change (run (step m op) ops).HasBlank n ↔ m.HasBlank n ∨ intern n ∈ op :: ops ∨
      m.anonResourceCount < n ∧ n ≤ (run (step m op) ops).anonResourceCount
    rw [ih, hstep, ← hsplit, List.mem_cons, @eq_comm _ (intern n) op]
    tauto

theorem hasBlank_new (n : Nat) : ¬ (GraphElementManager.new (N := N)).HasBlank n := by
  intro h
  have hiri := List.mem_singleton.mp h
  cases hiri

end ManagerOp

namespace GraphElementManager

/-- Elements and ids `0..resourceCount` correspond one to one. -/
structure Bijective (m : GraphElementManager N) : Prop where
  listed : ∀ i < m.resourceCount,
    ∃ e, m.resourceList[i]? = some e ∧ m.resourceMap.lookup e = some i
  mapped : ∀ e i, m.resourceMap.lookup e = some i →
    i < m.resourceCount ∧ m.resourceList[i]? = some e

/-- A blank node created now gets an id that no element has, with or without a label. -/
structure CreatesFresh (m : GraphElementManager N) : Prop where
  unnamed : m.getGraphElement m.createUnnamedAnonResource.2 = none
  named : ∀ name, m.anonResourceMap.lookup name = none →
    m.getGraphElement (m.getOrCreateNamedAnonResource name).2 = none

theorem bijective (m : GraphElementManager N) : m.Bijective where
  listed i hi := by
    rw [m.count] at hi
    have hget := List.getElem?_eq_getElem hi
    exact ⟨m.resourceList[i], hget, (m.exact _ i).mpr hget⟩
  mapped e i h := by
    have hget := (m.exact e i).mp h
    obtain ⟨hlt, -⟩ := List.getElem?_eq_some_iff.mp hget
    exact ⟨m.count ▸ hlt, hget⟩

theorem createsFresh_iff (m : GraphElementManager N) :
    m.CreatesFresh ↔ ¬ m.HasBlank (m.anonResourceCount + 1) := by
  rw [← createUnnamedAnonResource_unallocated]
  constructor
  · exact CreatesFresh.unnamed
  · intro h
    refine ⟨h, fun name hname => ?_⟩
    simpa only [ManagerOp.step_named, hname] using h

open ManagerOp in
/-- Interning stays a bijection in every run, and the next blank node is fresh exactly when the
run did not intern, under a number of the caller's, the number the counter reaches next. -/
theorem run_bijective_createsFresh_iff (ops : List (ManagerOp N)) :
    (run new ops).Bijective ∧ (run new ops).CreatesFresh ↔
      intern (creations [] ops + 1) ∉ ops := by
  have hcount : (run (N := N) new ops).anonResourceCount = creations [] ops := by
    have h := run_anonResourceCount ops new [] (by intro name; simp [new])
    rw [h]
    exact Nat.zero_add _
  have hnew := hasBlank_new (N := N) (creations [] ops + 1)
  have hnot : ¬ (0 < creations [] ops + 1 ∧ creations [] ops + 1 ≤ creations [] ops) := by omega
  have hblank := run_hasBlank ops new (creations [] ops + 1)
  rw [hcount] at hblank
  rw [createsFresh_iff, hcount, hblank]
  simp only [bijective, true_and, hnew, false_or]
  exact not_congr (or_iff_left hnot)

open ManagerOp in
/-- A node that keeps its number from elsewhere is handed out again as a new one. -/
theorem run_not_createsFresh :
    ¬ ∀ ops : List (ManagerOp NativeTypes.text),
      (run new ops).Bijective ∧ (run new ops).CreatesFresh := by
  intro h
  have hfresh := (h [intern 1]).2.unnamed
  revert hfresh
  decide

end GraphElementManager

namespace Datastore

open GraphElementManager

def terms (ds : Datastore N) : Set (TermQuad N) :=
  {t | ∃ r ∈ ds.resolved, ds.resources.ResolvesQuad r t}

section Growth

variable {ds ds' : Datastore N}

theorem Resolvable.extends (h : ds.Resolvable) (hgraphs : ds'.namedGraphs = ds.namedGraphs)
    (hext : ds.resources.Extends ds'.resources) : ds'.Resolvable := by
  intro q hq
  rw [hgraphs] at hq
  obtain ⟨r, t, hr, ht⟩ := h q hq
  exact ⟨r, t, hext.getResourceQuad hr, ht.extends hext⟩

theorem terms_extends (h : ds.Resolvable) (hgraphs : ds'.namedGraphs = ds.namedGraphs)
    (hext : ds.resources.Extends ds'.resources) : ds'.terms = ds.terms := by
  ext t
  constructor
  · intro ⟨r, hr, ht⟩
    obtain ⟨q, hq, hqr⟩ := mem_resolve.mp hr
    rw [QuadStore.mem_quadList, hgraphs] at hq
    obtain ⟨r', t', hr', ht'⟩ := h q hq
    cases hqr.symm.trans (hext.getResourceQuad hr')
    rw [ht.unique (ht'.extends hext)]
    exact ⟨r, mem_resolve.mpr ⟨q, (QuadStore.mem_quadList _ q).mpr hq, hr'⟩, ht'⟩
  · intro ⟨r, hr, ht⟩
    obtain ⟨q, hq, hqr⟩ := mem_resolve.mp hr
    rw [QuadStore.mem_quadList, ← hgraphs] at hq
    exact ⟨r, mem_resolve.mpr ⟨q, (QuadStore.mem_quadList _ q).mpr hq, hext.getResourceQuad hqr⟩,
      ht.extends hext⟩

theorem Resolvable.addQuad (h : ds.Resolvable) {q : Quad} {r : QuadResource N} {t : TermQuad N}
    (hr : ds.resources.getResourceQuad q = some r) (ht : ds.resources.ResolvesQuad r t) :
    (ds.addQuad q).Resolvable := by
  intro q' hq'
  rcases (ds.namedGraphs.mem_addQuad q q').mp hq' with hq' | hq'
  · exact h q' hq'
  · subst hq'
    exact ⟨r, t, hr, ht⟩

theorem terms_addQuad {q : Quad} {r : QuadResource N} {t : TermQuad N}
    (hr : ds.resources.getResourceQuad q = some r) (ht : ds.resources.ResolvesQuad r t) :
    (ds.addQuad q).terms = ds.terms ∪ {t} := by
  have hresolved (r' : QuadResource N) :
      r' ∈ (ds.addQuad q).resolved ↔ r' ∈ ds.resolved ∨ r' = r := by
    rw [resolved_addQuad ds hr, Finset.mem_union, Finset.mem_singleton]
  ext t'
  constructor
  · intro ⟨r', hr', ht'⟩
    rcases (hresolved r').mp hr' with hold | rfl
    · exact .inl ⟨r', hold, ht'⟩
    · exact .inr (ht'.unique ht)
  · intro h
    rcases h with ⟨r', hr', ht'⟩ | heq
    · exact ⟨r', (hresolved r').mpr (.inl hr'), ht'⟩
    · rw [Set.mem_singleton_iff] at heq
      subst heq
      exact ⟨r, (hresolved r).mpr (.inr rfl), ht⟩

end Growth

end Datastore

end RdfDatalog
