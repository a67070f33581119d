import RdfDatalog.Store.QuadTableLookup

namespace RdfDatalog

open BucketIndex

/-- A quad table that satisfies its representation invariant. -/
structure QuadStore where
  table : QuadTable
  wellFormed : table.WellFormed

namespace QuadStore

instance : Membership Quad QuadStore := ⟨fun s q => q ∈ s.table.quadList⟩

theorem mem_def {s : QuadStore} {q : Quad} : q ∈ s ↔ q ∈ s.table.quadList := Iff.rfl

instance (s : QuadStore) (q : Quad) : Decidable (q ∈ s) :=
  inferInstanceAs (Decidable (q ∈ s.table.quadList))

def new : QuadStore := ⟨QuadTable.new, QuadTable.wellFormed_new⟩

def quadList (s : QuadStore) : List Quad := s.table.quadList

def contains (s : QuadStore) (q : Quad) : Bool := s.table.contains q

def addQuad (s : QuadStore) (q : Quad) : QuadStore := ⟨s.table.addQuad q, s.wellFormed.addQuad q⟩

def addIntensionalQuad (s : QuadStore) (q : Quad) : QuadStore :=
  ⟨s.table.addIntensionalQuad q, s.wellFormed.addIntensionalQuad q⟩

def removeQuad (s : QuadStore) (q : Quad) : QuadStore :=
  ⟨s.table.removeQuad q, s.wellFormed.removeQuad q⟩

def truncateTo (s : QuadStore) (len : Nat) : QuadStore :=
  ⟨s.table.truncateTo len, s.wellFormed.truncateTo len⟩

def removeGraph (s : QuadStore) (g : GraphElementId) : QuadStore :=
  ⟨s.table.removeGraph g, s.wellFormed.removeGraph g⟩

/-- The ids of the non-empty graphs. -/
def graphIds (s : QuadStore) : List GraphElementId := s.table.tripleIdIndex.keys

def isExtensional (s : QuadStore) (q : Quad) : Bool := s.table.isExtensional q

def Derived (s : QuadStore) (q : Quad) : Prop := q ∈ s.table.intensionalQuads

instance (s : QuadStore) (q : Quad) : Decidable (s.Derived q) :=
  inferInstanceAs (Decidable (q ∈ s.table.intensionalQuads))

def Extensional (s : QuadStore) (q : Quad) : Prop := q ∈ s ∧ ¬ s.Derived q

instance (s : QuadStore) (q : Quad) : Decidable (s.Extensional q) :=
  inferInstanceAs (Decidable (_ ∧ _))

variable (s : QuadStore)

@[simp] theorem contains_iff (q : Quad) : s.contains q = true ↔ q ∈ s :=
  s.wellFormed.contains_iff q

@[simp] theorem mem_quadList (q : Quad) : q ∈ s.quadList ↔ q ∈ s := Iff.rfl

def quads (s : QuadStore) : Set Quad := {q | q ∈ s}

@[simp] theorem mem_quads (q : Quad) : q ∈ s.quads ↔ q ∈ s := Iff.rfl

theorem nodup_quadList : s.quadList.Nodup := s.wellFormed.nodup

theorem Derived.mem {s : QuadStore} {q : Quad} (h : s.Derived q) : q ∈ s :=
  s.wellFormed.intensional q h

@[simp] theorem isExtensional_iff (q : Quad) :
    s.isExtensional q = true ↔ s.Extensional q := by
  have hc := s.wellFormed.contains_iff q
  simp [isExtensional, QuadTable.isExtensional, Extensional, Derived, hc, mem_def]

@[simp] theorem not_mem_new (q : Quad) : q ∉ new := List.not_mem_nil

@[simp] theorem mem_addQuad (x q : Quad) :
    q ∈ s.addQuad x ↔ q ∈ s ∨ q = x :=
  s.wellFormed.mem_addQuad x q

@[simp] theorem derived_addQuad (x q : Quad) :
    (s.addQuad x).Derived q ↔ s.Derived q := by
  change q ∈ (s.table.addQuad x).intensionalQuads ↔ _
  rw [QuadTable.addQuad_intensionalQuads]
  rfl

theorem quadList_addQuad (x : Quad) :
    (s.addQuad x).quadList = if x ∈ s then s.quadList else s.quadList ++ [x] := by
  have h := QuadTable.addQuad_quadList s.table x
  have hc := s.wellFormed.contains_iff x
  simp only [hc] at h
  exact h

@[simp] theorem mem_addIntensionalQuad (x q : Quad) :
    q ∈ s.addIntensionalQuad x ↔ q ∈ s ∨ q = x := by
  have h : (s.table.addIntensionalQuad x).quadList = (s.table.addQuad x).quadList := by
    unfold QuadTable.addIntensionalQuad
    simp only
    split_ifs <;> rfl
  rw [← mem_addQuad]
  change q ∈ (s.table.addIntensionalQuad x).quadList ↔ q ∈ (s.table.addQuad x).quadList
  rw [h]

theorem quadList_addIntensionalQuad (x : Quad) :
    (s.addIntensionalQuad x).quadList = if x ∈ s then s.quadList else s.quadList ++ [x] := by
  rw [← quadList_addQuad]
  change (s.table.addIntensionalQuad x).quadList = (s.table.addQuad x).quadList
  unfold QuadTable.addIntensionalQuad
  simp only
  split_ifs <;> rfl

@[simp] theorem derived_addIntensionalQuad (x q : Quad) :
    (s.addIntensionalQuad x).Derived q ↔ s.Derived q ∨ (q = x ∧ ¬ s.Extensional x) := by
  have he := s.isExtensional_iff x
  have hb := QuadTable.addQuad_intensionalQuads s.table x
  change q ∈ (s.table.addIntensionalQuad x).intensionalQuads ↔ _
  unfold QuadTable.addIntensionalQuad
  simp only
  split_ifs with h
  · have hx : s.Extensional x := he.mp h
    rw [hb]
    simp only [hx, not_true_eq_false, and_false, or_false]
    rfl
  · have hx : ¬ s.Extensional x := fun hx => h (he.mpr hx)
    simp only [hb, Finset.mem_insert, hx, not_false_eq_true, and_true]
    exact or_comm

@[simp] theorem mem_removeQuad (x q : Quad) :
    q ∈ s.removeQuad x ↔ q ∈ s ∧ q ≠ x :=
  (s.wellFormed.removeQuad_spec x).2.1 q

@[simp] theorem derived_removeQuad (x q : Quad) :
    (s.removeQuad x).Derived q ↔ s.Derived q ∧ q ≠ x := by
  change q ∈ (s.table.removeQuad x).intensionalQuads ↔ _
  rw [(s.wellFormed.removeQuad_spec x).2.2, Finset.mem_erase, and_comm]
  rfl

@[simp] theorem mem_removeGraph (g : GraphElementId) (q : Quad) :
    q ∈ s.removeGraph g ↔ q ∈ s ∧ q.tripleId ≠ g := by
  change q ∈ (s.table.removeGraph g).quadList ↔ _
  have hg := s.wellFormed.graphExists_iff g
  unfold QuadTable.removeGraph
  split_ifs with h
  · rw [(s.table.rebuild_spec (s.wellFormed.nodup.filter _)).2, List.mem_filter]
    simp [mem_def]
  · refine ⟨fun hq => ⟨hq, fun he => h (hg.mpr ⟨q, hq, he⟩)⟩, And.left⟩

@[simp] theorem derived_removeGraph (g : GraphElementId) (q : Quad) :
    (s.removeGraph g).Derived q ↔ s.Derived q ∧ q.tripleId ≠ g := by
  change q ∈ (s.table.removeGraph g).intensionalQuads ↔ _
  have hg := s.wellFormed.graphExists_iff g
  unfold QuadTable.removeGraph
  split_ifs with h
  · rw [QuadTable.rebuild, Finset.mem_filter, List.mem_toFinset, List.mem_filter]
    simp only [ne_eq, decide_not, Bool.not_eq_eq_eq_not, Bool.not_true, decide_eq_false_iff_not]
    constructor
    · intro ⟨⟨_, hne⟩, hd⟩
      exact ⟨hd, hne⟩
    · intro ⟨hd, hne⟩
      exact ⟨⟨hd.mem, hne⟩, hd⟩
  · refine ⟨fun hq => ⟨hq, fun he => h (hg.mpr ⟨q, ?_, he⟩)⟩, And.left⟩
    exact Derived.mem (s := s) hq

theorem quadList_truncateTo (len : Nat) :
    (s.truncateTo len).quadList = s.quadList.take len := by
  change (s.table.truncateTo len).quadList = _
  unfold QuadTable.truncateTo
  split_ifs with h
  · exact (List.take_of_length_le h).symm
  · exact (s.table.rebuild_spec (s.wellFormed.nodup.sublist (List.take_sublist len _))).2

theorem derived_truncateTo (len : Nat) (q : Quad) :
    (s.truncateTo len).Derived q ↔ s.Derived q ∧ q ∈ s.quadList.take len := by
  change q ∈ (s.table.truncateTo len).intensionalQuads ↔ _
  unfold QuadTable.truncateTo
  split_ifs with h
  · have hall : s.quadList.take len = s.quadList := List.take_of_length_le h
    rw [hall]
    exact ⟨fun hq => ⟨hq, Derived.mem hq⟩, And.left⟩
  · rw [QuadTable.rebuild, Finset.mem_filter, List.mem_toFinset]
    exact and_comm

theorem mem_graphIds (g : GraphElementId) :
    g ∈ s.graphIds ↔ ∃ q ∈ s, q.tripleId = g := by
  refine Iff.trans ?_ (s.wellFormed.graphExists_iff g)
  rw [QuadTable.graphExists, AList.lookup_isSome]
  rfl

theorem mem_foldl_addQuad (l : List Quad) (q : Quad) :
    q ∈ l.foldl addQuad s ↔ q ∈ s ∨ q ∈ l := by
  induction l generalizing s with
  | nil => simp
  | cons x l ih => rw [List.foldl_cons, ih]; simp [or_assoc]

theorem derived_foldl_addQuad (l : List Quad) (q : Quad) :
    (l.foldl addQuad s).Derived q ↔ s.Derived q := by
  induction l generalizing s with
  | nil => rfl
  | cons x l ih => rw [List.foldl_cons, ih, derived_addQuad]

theorem quadList_isPrefix_addQuad (q : Quad) :
    s.quadList <+: (s.addQuad q).quadList := by
  rw [quadList_addQuad]
  split_ifs
  · exact List.prefix_rfl
  · exact List.prefix_append _ _

theorem quadList_isPrefix_foldl_addQuad (l : List Quad) :
    s.quadList <+: (l.foldl addQuad s).quadList := by
  induction l generalizing s with
  | nil => exact List.prefix_rfl
  | cons x l ih => exact (s.quadList_isPrefix_addQuad x).trans (ih (s.addQuad x))

theorem addQuad_of_mem {s : QuadStore} {q : Quad} (h : q ∈ s) : s.addQuad q = s := by
  have hc : s.table.contains q = true := (s.wellFormed.contains_iff q).mpr h
  have htable : s.table.addQuad q = s.table := by
    rw [QuadTable.addQuad, if_pos hc]
  rw [addQuad]
  congr

theorem foldl_addQuad_of_mem {s : QuadStore} {l : List Quad} (h : ∀ q ∈ l, q ∈ s) :
    l.foldl addQuad s = s := by
  induction l with
  | nil => rfl
  | cons x l ih =>
    rw [List.foldl_cons, addQuad_of_mem (h x List.mem_cons_self)]
    exact ih fun q hq => h q (List.mem_cons_of_mem x hq)

theorem mem_foldl_removeQuad (l : List Quad) (q : Quad) :
    q ∈ l.foldl removeQuad s ↔ q ∈ s ∧ q ∉ l := by
  induction l generalizing s with
  | nil => simp
  | cons x l ih => rw [List.foldl_cons, ih]; simp [and_assoc]

theorem derived_foldl_removeQuad (l : List Quad) (q : Quad) :
    (l.foldl removeQuad s).Derived q ↔ s.Derived q ∧ q ∉ l := by
  induction l generalizing s with
  | nil => simp
  | cons x l ih => rw [List.foldl_cons, ih]; simp [and_assoc]

theorem mem_foldl_removeGraph (l : List GraphElementId) (q : Quad) :
    q ∈ l.foldl removeGraph s ↔ q ∈ s ∧ q.tripleId ∉ l := by
  induction l generalizing s with
  | nil => simp
  | cons x l ih => rw [List.foldl_cons, ih]; simp [and_assoc]

end QuadStore

end RdfDatalog
