import Mathlib.Order.WellFoundedSet

namespace RdfDatalog.Dominance

variable {α : Type} (below : α → α → Bool) (rows : List α)

def belowAt (i j : Nat) : Bool :=
  match rows[i]?, rows[j]? with
  | some a, some b => below a b
  | _, _ => false

/-- The marks once row `i` was looked at: it loses its own if another marked row is above it. -/
def turn (keep : Nat → Bool) (i : Nat) : Nat → Bool :=
  if keep i && (List.range rows.length).any fun j => j ≠ i && keep j && belowAt below rows i j
  then Function.update keep i false else keep

def marks (n : Nat) : Nat → Bool := (List.range n).foldl (turn below rows) fun _ => true

/-- The rows that keep their marks. -/
def prune : List α :=
  rows.zipIdx.filterMap fun r => if marks below rows rows.length r.2 then some r.1 else none

/-- No two of the rows are below each other, also not by way of a third one. -/
structure Strict (below : α → α → Bool) : Prop where
  irrefl : ∀ a, below a a = false
  trans : ∀ a b c, below a b → below b c → below a c

variable {below}

variable (h : Strict below)

include h

theorem Strict.exists_top {x : α} (hx : x ∈ rows) : ∃ m ∈ rows,
    (m = x ∨ below x m) ∧ ∀ y ∈ rows, below m y = false := by
  have horder : IsStrictOrder α fun a b => below b a :=
    { irrefl := by simp [h.irrefl], trans := fun a b c hba hcb => h.trans c b a hcb hba }
  have hwf : Set.WellFoundedOn {y | y ∈ rows} fun a b => below b a :=
    rows.finite_toSet.wellFoundedOn
  apply hwf.induction hx
  intro y hy ih
  by_cases htop : ∀ z ∈ rows, below y z = false
  · exact ⟨y, hy, .inl rfl, htop⟩
  · simp only [not_forall, Bool.not_eq_false] at htop
    obtain ⟨z, hz, hyz⟩ := htop
    obtain ⟨m, hm, hzm, htop⟩ := ih z hz hyz
    refine ⟨m, hm, .inr ?_, htop⟩
    rcases hzm with rfl | hzm
    · exact hyz
    · exact h.trans y z m hyz hzm

/-- A row that was looked at has its mark if no row is above it, and every other row still has
its own. -/
theorem Strict.marks_iff {n i : Nat} {a : α} (hi : rows[i]? = some a) :
    marks below rows n i = true ↔ (i < n → ∀ b ∈ rows, below a b = false) := by
  induction n generalizing i a with
  | zero => simp [marks]
  | succ n ih =>
    rw [marks, List.range_succ, List.foldl_append, List.foldl_cons, List.foldl_nil, ← marks, turn]
    have hself (hin : i ≠ n) : marks below rows n i = true ↔
        (i < n + 1 → ∀ b ∈ rows, below a b = false) := by
      rw [ih hi, Nat.lt_succ_iff_lt_or_eq, or_iff_left hin]
    by_cases hin : i = n
    · subst hin
      have hkeep : marks below rows i i = true := (ih hi).mpr fun hlt => absurd hlt (by omega)
      have hany : ((List.range rows.length).any fun j =>
          j ≠ i && marks below rows i j && belowAt below rows i j) = true ↔
            ∃ b ∈ rows, below a b := by
        simp only [List.any_eq_true, List.mem_range, Bool.and_eq_true, decide_eq_true_eq]
        constructor
        · intro ⟨j, hj, _, hbelow⟩
          rw [belowAt, hi, List.getElem?_eq_getElem hj] at hbelow
          exact ⟨_, List.getElem_mem hj, hbelow⟩
        · intro ⟨b, hb, hab⟩
          obtain ⟨m, hrow, hm, htop⟩ := h.exists_top rows hb
          have ham : below a m := by
            rcases hm with rfl | hm
            · exact hab
            · exact h.trans a b m hab hm
          obtain ⟨j, hj⟩ := List.mem_iff_getElem?.mp hrow
          obtain ⟨hlt, -⟩ := List.getElem?_eq_some_iff.mp hj
          refine ⟨j, hlt, ⟨?_, (ih hj).mpr fun _ => htop⟩, by rw [belowAt, hi, hj]; exact ham⟩
          rintro rfl
          rw [Option.some.inj (hi.symm.trans hj), h.irrefl] at ham
          cases ham
      rw [hkeep, Bool.true_and]
      split_ifs with hcond
      · obtain ⟨b, hb, hab⟩ := hany.mp hcond
        rw [Function.update_self]
        refine iff_of_false Bool.false_ne_true fun hall => ?_
        rw [hall (by omega) b hb] at hab
        cases hab
      · refine iff_of_true hkeep fun _ b hb => ?_
        by_contra hab
        exact hcond (hany.mpr ⟨b, hb, by simpa using hab⟩)
    · split_ifs
      · rw [Function.update_of_ne hin]
        exact hself hin
      · exact hself hin

/-- The marked rows are those with no row above. -/
theorem Strict.mem_prune {a : α} :
    a ∈ prune below rows ↔ a ∈ rows ∧ ∀ b ∈ rows, below a b = false := by
  simp only [prune, List.mem_filterMap, List.mem_zipIdx_iff_getElem?, Option.ite_none_right_eq_some]
  constructor
  · intro ⟨⟨b, i⟩, hi, hmark, hb⟩
    cases hb
    exact ⟨List.mem_of_getElem? hi, (h.marks_iff rows hi).mp hmark
      (List.getElem?_eq_some_iff.mp hi).1⟩
  · intro ⟨hmem, htop⟩
    obtain ⟨i, hi⟩ := List.mem_iff_getElem?.mp hmem
    exact ⟨(a, i), hi, (h.marks_iff rows hi).mpr fun _ => htop, rfl⟩

/-- What was pruned is below a row that is left. -/
theorem Strict.exists_mem_prune {a : α} (ha : a ∈ rows) :
    ∃ b ∈ prune below rows, b = a ∨ below a b := by
  obtain ⟨m, hrow, hm, htop⟩ := h.exists_top rows ha
  exact ⟨m, (h.mem_prune rows).mpr ⟨hrow, htop⟩, hm⟩

omit h

end RdfDatalog.Dominance
