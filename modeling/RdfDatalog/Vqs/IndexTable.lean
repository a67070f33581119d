import Mathlib.Data.Fintype.Pi
import RdfDatalog.Math.Dominance
import RdfDatalog.Math.SolutionBag
import RdfDatalog.Store.GraphElement

namespace RdfDatalog.Vqs

variable {N : NativeTypes} {columns : Nat}

inductive IndexCell (N : NativeTypes) where
  | exists
  | null
  | value (e : GraphElement N)
  deriving DecidableEq

/-- A cell for each variable but the root's. -/
abbrev IndexRow (N : NativeTypes) (columns : Nat) := Fin columns → IndexCell N

def isSubfunction (phi phi' : IndexRow N columns) : Bool :=
  phi ≠ phi' && decide (∀ c, phi c = .null ∨ phi c = phi' c)

theorem isSubfunction_iff {phi phi' : IndexRow N columns} : isSubfunction phi phi' = true ↔
    phi ≠ phi' ∧ ∀ c, phi c = .null ∨ phi c = phi' c := by
  simp [isSubfunction]

theorem strict_isSubfunction : Dominance.Strict (@isSubfunction N columns) where
  irrefl a := by simp [isSubfunction]
  trans a b c hab hbc := by
    obtain ⟨hne, hab⟩ := isSubfunction_iff.mp hab
    obtain ⟨-, hbc⟩ := isSubfunction_iff.mp hbc
    refine isSubfunction_iff.mpr ⟨?_, fun i => ?_⟩
    · intro hac
      subst hac
      refine hne (funext fun i => ?_)
      rcases hab i with ha | ha
      · rcases hbc i with hb | hb
        · exact ha.trans hb.symm
        · exact hb.symm
      · exact ha
    · rcases hab i with ha | ha
      · exact .inl ha
      · rw [ha]
        exact hbc i

section RemoveSubfunctions

variable {α : Type} [DecidableEq α]

/-- Of equal neighbours the first stays. -/
def dedup : List α → List α
  | [] => []
  | [a] => [a]
  | a :: b :: l => if a = b then dedup (b :: l) else a :: dedup (b :: l)

theorem mem_dedup {x : α} {l : List α} : x ∈ dedup l ↔ x ∈ l := by
  fun_induction dedup l with
  | case1 => simp
  | case2 a => simp
  | case3 a l ih => simp [ih]
  | case4 a b l hne ih => simp [ih]

/-- The rows are sorted by the derived order `le`. -/
def removeSubfunctions (le : IndexRow N columns → IndexRow N columns → Bool)
    (rows : List (IndexRow N columns)) : List (IndexRow N columns) :=
  Dominance.prune isSubfunction (dedup (rows.mergeSort le))

variable (le : IndexRow N columns → IndexRow N columns → Bool) (rows : List (IndexRow N columns))

theorem mem_sorted {row : IndexRow N columns} : row ∈ dedup (rows.mergeSort le) ↔ row ∈ rows :=
  mem_dedup.trans List.mem_mergeSort

theorem mem_removeSubfunctions {row : IndexRow N columns} : row ∈ removeSubfunctions le rows ↔
    row ∈ rows ∧ ∀ other ∈ rows, isSubfunction row other = false := by
  rw [removeSubfunctions, strict_isSubfunction.mem_prune]
  simp only [mem_sorted]

theorem exists_mem_removeSubfunctions {row : IndexRow N columns} (h : row ∈ rows) :
    ∃ other ∈ removeSubfunctions le rows, other = row ∨ isSubfunction row other :=
  strict_isSubfunction.exists_mem_prune _ ((mem_sorted le rows).mpr h)

/-- What is left are the rows with nothing above them, and every other row is below one of
these. -/
theorem removeSubfunctions_maximal :
    (∀ row, row ∈ removeSubfunctions le rows ↔
      row ∈ rows ∧ ∀ other ∈ rows, isSubfunction row other = false) ∧
    ∀ row ∈ rows, row ∉ removeSubfunctions le rows →
      ∃ other ∈ removeSubfunctions le rows, isSubfunction row other := by
  refine ⟨fun row => mem_removeSubfunctions le rows, fun row hrow hdropped => ?_⟩
  obtain ⟨other, hother, hbelow⟩ := exists_mem_removeSubfunctions le rows hrow
  refine ⟨other, hother, hbelow.resolve_left ?_⟩
  intro h
  exact hdropped (h ▸ hother)

end RemoveSubfunctions

/-- An instance is kept as a mark that there is one. -/
def compress : IndexCell N → IndexCell N
  | .value (.nodeOrEdge _) => .exists
  | cell => cell

def readCell : Option (GraphElement N) → IndexCell N
  | some elem => .value elem
  | none => .null

/-- The rows of the answers, whose variables are `v1` and on. -/
def executeOptionalSparql (columns : Nat) (answers : List (Mapping String (GraphElement N))) :
    List (IndexRow N columns) :=
  answers.map fun binding i => readCell (binding ("v" ++ toString (i.val + 1)))

structure IndexTable (N : NativeTypes) (columns : Nat) where
  rows : List (IndexRow N columns)

/-- A table without columns has no rows. -/
def IndexTable.build (le : IndexRow N columns → IndexRow N columns → Bool)
    (answers : List (Mapping String (GraphElement N))) : IndexTable N columns :=
  if columns = 0 then ⟨[]⟩
  else ⟨removeSubfunctions le ((executeOptionalSparql columns answers).map (compress ∘ ·))⟩

namespace IndexTable

/-- The cell of the node with index `idx`; the root's index reads the first column. -/
def cell (row : IndexRow N columns) (idx : Nat) : Option (IndexCell N) :=
  if h : idx - 1 < columns then some (row ⟨idx - 1, h⟩) else none

def rowPasses (filters : List (Nat × IndexCell N)) (row : IndexRow N columns) : Bool :=
  filters.all fun (fc, fv) =>
    let c := (cell row fc).getD .null
    c == fv || fv == .exists && c == .exists

def lookupValues (table : IndexTable N columns) (colIdx : Nat)
    (filters : List (Nat × IndexCell N)) : List (GraphElement N) :=
  table.rows.filterMap fun row =>
    if rowPasses filters row then
      match cell row colIdx with
      | some (.value elem) => some elem
      | _ => none
    else none

/-- What a cell says of a variable's value; an empty one says nothing. -/
def Describes : IndexCell N → Option (GraphElement N) → Prop
  | .exists, value => ∃ r, value = some (.nodeOrEdge r)
  | .null, _ => False
  | .value e, value => value = some e ∧ ∀ r, e ≠ .nodeOrEdge r

theorem compress_readCell {c : IndexCell N} (hc : c ≠ .null) (value : Option (GraphElement N)) :
    compress (readCell value) = c ↔ Describes c value := by
  cases c with
  | null => exact absurd rfl hc
  | «exists» => rcases value with _ | _ | _ | _ <;> simp [readCell, compress, Describes]
  | value e =>
    rcases value with _ | r | _ | _ <;> simp [readCell, compress, Describes]
    · intro h
      exact ⟨r, h.symm⟩
    all_goals
      intro h r he
      cases h.trans he

/-- The answer has a value for the node at `idx` that the cell describes. -/
def Shows (columns : Nat) (answer : Mapping String (GraphElement N)) (idx : Nat)
    (c : IndexCell N) : Prop :=
  idx - 1 < columns ∧ Describes c (answer ("v" ++ toString (idx - 1 + 1)))

variable {row other : IndexRow N columns} {idx : Nat} {c : IndexCell N}

theorem cell_eq_some : cell row idx = some c ↔ ∃ h : idx - 1 < columns, row ⟨idx - 1, h⟩ = c := by
  simp [cell]

theorem cell_of_below (h : other = row ∨ isSubfunction row other) (hc : c ≠ .null)
    (hcell : cell row idx = some c) : cell other idx = some c := by
  rcases h with rfl | h
  · exact hcell
  · obtain ⟨hlt, hrow⟩ := cell_eq_some.mp hcell
    have hor := (isSubfunction_iff.mp h).2 ⟨idx - 1, hlt⟩
    rw [hrow, or_iff_right hc] at hor
    exact cell_eq_some.mpr ⟨hlt, hor.symm⟩

theorem rowPasses_iff {filters : List (Nat × IndexCell N)} (hnull : ∀ f ∈ filters, f.2 ≠ .null) :
    rowPasses filters row = true ↔ ∀ f ∈ filters, cell row f.1 = some f.2 := by
  rw [rowPasses, List.all_eq_true]
  refine forall₂_congr fun f hf => ?_
  simp only [Bool.or_eq_true, Bool.and_eq_true, beq_iff_eq]
  rw [or_iff_left_of_imp fun h => h.2.trans h.1.symm]
  cases cell row f.1 with
  | none => simp [(hnull f hf).symm]
  | some c => simp

theorem mem_lookupValues {table : IndexTable N columns} {filters : List (Nat × IndexCell N)}
    (hnull : ∀ f ∈ filters, f.2 ≠ .null) {v : GraphElement N} :
    v ∈ table.lookupValues idx filters ↔
      ∃ row ∈ table.rows, cell row idx = some (.value v) ∧
        ∀ f ∈ filters, cell row f.1 = some f.2 := by
  rw [lookupValues, List.mem_filterMap]
  refine exists_congr fun row => and_congr_right fun _ => ?_
  rw [← rowPasses_iff hnull]
  split_ifs with hpass
  · simp only [hpass, and_true]
    split <;> simp_all
  · simp [hpass]

/-- Looking values up in the table finds what the answers have, though the rows below another
are gone: a filter on `null` is the one that can tell. -/
theorem lookupValues_build (le : IndexRow N columns → IndexRow N columns → Bool)
    (answers : List (Mapping String (GraphElement N))) (colIdx : Nat)
    {filters : List (Nat × IndexCell N)} (hnull : ∀ f ∈ filters, f.2 ≠ .null)
    (v : GraphElement N) :
    v ∈ (build le answers).lookupValues colIdx filters ↔
      ∃ answer ∈ answers, Shows columns answer colIdx (.value v) ∧
        ∀ f ∈ filters, Shows columns answer f.1 f.2 := by
  have hshows (answer : Mapping String (GraphElement N)) (idx : Nat) {c : IndexCell N}
      (hc : c ≠ .null) : @cell N columns
        (fun i => compress (readCell (answer ("v" ++ toString (i.val + 1))))) idx = some c ↔
          Shows columns answer idx c := by
    rw [cell_eq_some, Shows, ← exists_prop]
    exact exists_congr fun _ => compress_readCell hc _
  have hrow (row : IndexRow N columns) :
      row ∈ (executeOptionalSparql columns answers).map (compress ∘ ·) ↔ ∃ answer ∈ answers,
        (fun i => compress (readCell (answer ("v" ++ toString (i.val + 1))))) = row := by
    rw [executeOptionalSparql, List.map_map, List.mem_map]
    rfl
  rw [mem_lookupValues hnull, build]
  split_ifs with hcolumns
  · simp [Shows, hcolumns]
  constructor
  · intro ⟨row, hmem, hcell, hfilters⟩
    obtain ⟨answer, hanswer, rfl⟩ := (hrow row).mp ((mem_removeSubfunctions le _).mp hmem).1
    exact ⟨answer, hanswer, (hshows answer colIdx (by simp)).mp hcell,
      fun f hf => (hshows answer f.1 (hnull f hf)).mp (hfilters f hf)⟩
  · intro ⟨answer, hanswer, hv, hfilters⟩
    obtain ⟨other, hother, hbelow⟩ :=
      exists_mem_removeSubfunctions le _ ((hrow _).mpr ⟨answer, hanswer, rfl⟩)
    exact ⟨other, hother, cell_of_below hbelow (by simp) ((hshows answer colIdx (by simp)).mpr hv),
      fun f hf => cell_of_below hbelow (hnull f hf) ((hshows answer f.1 (hnull f hf)).mpr
        (hfilters f hf))⟩

theorem lookupValues_build_two : .graphLiteral (.booleanLiteral true) ∈
    (build (fun _ _ => true) [fun name => some (if name = "v1"
      then .graphLiteral (.booleanLiteral true) else .nodeOrEdge (.iri "ex:a"))] :
        IndexTable .text 2).lookupValues 1 [(2, .exists)] := by
  refine (lookupValues_build _ _ 1 (by simp) _).mpr ⟨_, .head _, ?_, ?_⟩
  · exact ⟨by decide, rfl, nofun⟩
  · exact List.forall_mem_singleton.mpr ⟨by decide, _, rfl⟩

end IndexTable
end RdfDatalog.Vqs
