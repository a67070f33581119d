import Mathlib.Data.List.Perm.Basic

/-!
Association lists that are kept in the order of their keys.
-/

namespace RdfDatalog.SortedFields

variable {K V : Type} [LT K] [DecidableLT K] [DecidableEq K]

def insert (key : K) (value : V) : List (K × V) → List (K × V)
  | [] => [(key, value)]
  | (k, v) :: fields =>
    if key < k then (key, value) :: (k, v) :: fields
    else if key = k then (key, value) :: fields
    else (k, v) :: insert key value fields

/-- The entries, set one after the other. -/
def ofEntries (entries : List (K × V)) : List (K × V) :=
  entries.foldl (fun fields entry => insert entry.1 entry.2 fields) []

theorem insert_perm {key : K} {fields : List (K × V)} (h : key ∉ fields.map Prod.fst) (value : V) :
    (insert key value fields).Perm ((key, value) :: fields) := by
  induction fields with
  | nil => exact .refl _
  | cons field fields ih =>
    obtain ⟨k, v⟩ := field
    rw [List.map_cons, List.mem_cons, not_or] at h
    rw [insert]
    split_ifs with hlt heq
    · exact .refl _
    · exact absurd heq h.1
    · exact ((ih h.2).cons (k, v)).trans (.swap _ _ _)

theorem foldl_insert_perm {entries fields : List (K × V)}
    (h : ((fields ++ entries).map Prod.fst).Nodup) :
    (entries.foldl (fun fields entry => insert entry.1 entry.2 fields) fields).Perm
      (fields ++ entries) := by
  induction entries generalizing fields with
  | nil =>
    rw [List.append_nil]
    exact .refl _
  | cons entry entries ih =>
    have hmiddle : (fields ++ entry :: entries).Perm (entry :: fields ++ entries) :=
      List.perm_middle
    have hfresh : entry.1 ∉ fields.map Prod.fst := by
      rw [(hmiddle.map Prod.fst).nodup_iff, List.cons_append, List.map_cons, List.nodup_cons,
        List.map_append, List.mem_append, not_or] at h
      exact h.1.1
    have hperm : (insert entry.1 entry.2 fields ++ entries).Perm (fields ++ entry :: entries) :=
      ((insert_perm hfresh entry.2).append_right entries).trans hmiddle.symm
    rw [List.foldl_cons]
    exact (ih ((hperm.map Prod.fst).nodup_iff.mpr h)).trans hperm

theorem ofEntries_perm {entries : List (K × V)} (h : (entries.map Prod.fst).Nodup) :
    (ofEntries entries).Perm entries :=
  @foldl_insert_perm K V _ _ _ entries [] h

omit [LT K] [DecidableLT K] in
theorem lookup_eq_some_of_mem {fields : List (K × V)} (h : (fields.map Prod.fst).Nodup) {key : K}
    {value : V} (hmem : (key, value) ∈ fields) : fields.lookup key = some value := by
  induction fields with
  | nil => cases hmem
  | cons field fields ih =>
    obtain ⟨k, v⟩ := field
    rw [List.map_cons, List.nodup_cons] at h
    rw [List.lookup_cons]
    rcases List.mem_cons.mp hmem with heq | hmem
    · cases heq
      simp
    · have hne : (key == k) = false := by
        rw [beq_eq_false_iff_ne]
        intro heq
        exact h.1 (heq ▸ List.mem_map.mpr ⟨_, hmem, rfl⟩)
      rw [hne]
      exact ih h.2 hmem

omit [LT K] [DecidableLT K] in
theorem lookup_eq_none_of_notMem {fields : List (K × V)} {key : K}
    (h : key ∉ fields.map Prod.fst) : fields.lookup key = none := by
  rw [List.lookup_eq_none_iff]
  intro field hfield
  rw [bne_iff_ne]
  intro heq
  exact h (heq ▸ List.mem_map_of_mem hfield)

end RdfDatalog.SortedFields
