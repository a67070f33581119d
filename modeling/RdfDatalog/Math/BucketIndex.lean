import Mathlib.Data.List.AList
import Mathlib.Data.List.Perm.Basic

namespace RdfDatalog.BucketIndex

variable {α κ μ : Type} [DecidableEq α] [DecidableEq κ] [DecidableEq μ]

omit [DecidableEq α] in
theorem getElem?_concat_eq_some (l : List α) (x y : α) (i : Nat) :
    (l ++ [x])[i]? = some y ↔ l[i]? = some y ∨ (i = l.length ∧ y = x) := by
  by_cases hi : i < l.length
  · rw [List.getElem?_append_left hi]
    constructor
    · exact Or.inl
    · intro h
      cases h with
      | inl h => exact h
      | inr h => exact absurd hi (by omega)
  · have hnone : l[i]? = none := List.getElem?_eq_none (by omega)
    rw [hnone, List.getElem?_append_right (by omega), List.getElem?_singleton]
    by_cases he : i = l.length
    · simp [he, eq_comm]
    · have hsub : ¬ i - l.length = 0 := by omega
      simp [he, hsub]

/-- Removal by position that moves the last element into the hole. -/
def swapRemove (l : List α) (i : Nat) : List α :=
  match l.getLast? with
  | none => l
  | some x => (l.set i x).dropLast

omit [DecidableEq α] in
theorem swapRemove_concat (l : List α) (z : α) (i : Nat) :
    swapRemove (l ++ [z]) i = if i < l.length then l.set i z else l := by
  unfold swapRemove
  rw [List.getLast?_concat]
  by_cases hi : i < l.length
  · simp [hi, List.set_append_left i z hi]
  · have hle : l.length ≤ i := Nat.le_of_not_lt hi
    simp only [hi, if_false, List.set_append_right i z hle]
    cases i - l.length <;> simp

theorem set_idxOf_perm (l : List α) (x y : α) (hx : x ∈ l) :
    (l.set (l.idxOf x) y).Perm (y :: l.erase x) := by
  induction l with
  | nil => simp at hx
  | cons a l ih =>
    by_cases ha : a = x
    · subst a; simp
    · have hmem : x ∈ l := by
        rcases List.mem_cons.mp hx with h | h
        · exact absurd h.symm ha
        · exact h
      rw [List.idxOf_cons_ne _ ha, List.set_cons_succ, List.erase_cons_tail (by simpa using ha)]
      exact ((ih hmem).cons a).trans (List.Perm.swap y a _)

theorem swapRemove_perm (l : List α) (x : α) (hx : x ∈ l) :
    (swapRemove l (l.idxOf x)).Perm (l.erase x) := by
  rcases List.eq_nil_or_concat l with rfl | ⟨init, z, rfl⟩
  · simp at hx
  · rw [List.concat_eq_append] at hx ⊢
    rw [swapRemove_concat]
    by_cases hi : x ∈ init
    · rw [List.idxOf_append_of_mem hi, if_pos (List.idxOf_lt_length_iff.mpr hi),
        List.erase_append_left _ hi]
      exact (set_idxOf_perm init x z hi).trans (List.perm_append_singleton z _).symm
    · have hz : x = z := by simpa [hi] using hx
      subst hz
      rw [List.idxOf_append_of_notMem hi, if_neg (by omega), List.erase_append_right _ hi]
      simp

/-- Swap-removal of the first entry equal to `x`, if there is one. -/
def swapRemoveEntry (l : List α) (x : α) : List α :=
  if x ∈ l then swapRemove l (l.idxOf x) else l

theorem swapRemoveEntry_perm (l : List α) (x : α) : (swapRemoveEntry l x).Perm (l.erase x) := by
  unfold swapRemoveEntry
  split_ifs with hx
  · exact swapRemove_perm l x hx
  · rw [List.erase_of_not_mem hx]

/-- An index from keys to buckets of entries. -/
abbrev Flat (κ α : Type) := AList (fun _ : κ => List α)

/-- An index whose buckets are themselves indexes. -/
abbrev Nested (κ μ α : Type) := AList (fun _ : κ => Flat μ α)

namespace Flat

def bucket (m : Flat κ α) (k : κ) : List α := (m.lookup k).getD []

def push (m : Flat κ α) (k : κ) (x : α) : Flat κ α := m.insert k (m.bucket k ++ [x])

/-- Drop `x` from the bucket of `k`, and the bucket with it once it is empty. -/
def remove (m : Flat κ α) (k : κ) (x : α) : Flat κ α :=
  match m.lookup k with
  | none => m
  | some v =>
    let v' := swapRemoveEntry v x
    if v' = [] then m.erase k else m.insert k v'

/-- Rewrite the entry `old` of the bucket of `k` to `new`. -/
def relocate (m : Flat κ α) (k : κ) (old new : α) : Flat κ α :=
  match m.lookup k with
  | none => m
  | some v => if old ∈ v then m.insert k (v.set (v.idxOf old) new) else m

/-- The index holds exactly the pairs of `R`, each once, and no empty bucket. -/
structure Exact (m : Flat κ α) (R : κ → α → Prop) : Prop where
  mem : ∀ k x, x ∈ m.bucket k ↔ R k x
  live : ∀ k v, m.lookup k = some v → v ≠ [] ∧ v.Nodup

omit [DecidableEq α] in
theorem bucket_of_lookup {m : Flat κ α} {k : κ} {v : List α} (h : m.lookup k = some v) :
    m.bucket k = v := by
  simp [bucket, h]

omit [DecidableEq α] in
theorem bucket_insert (m : Flat κ α) (k j : κ) (v : List α) :
    bucket (m.insert k v) j = if j = k then v else m.bucket j := by
  by_cases h : j = k
  · subst h; simp [bucket]
  · simp [bucket, AList.lookup_insert_ne h, h]

omit [DecidableEq α] in
theorem bucket_erase (m : Flat κ α) (k j : κ) :
    bucket (m.erase k) j = if j = k then [] else m.bucket j := by
  by_cases h : j = k
  · subst h; simp [bucket]
  · simp [bucket, AList.lookup_erase_ne h, h]

omit [DecidableEq α] in
theorem exact_empty : Exact (∅ : Flat κ α) (fun _ _ => False) :=
  ⟨by simp [bucket], by simp⟩

omit [DecidableEq α] in
theorem Exact.congr {m : Flat κ α} {R S : κ → α → Prop} (h : Exact m R)
    (hRS : ∀ k x, R k x ↔ S k x) : Exact m S :=
  ⟨fun k x => (h.mem k x).trans (hRS k x), h.live⟩

omit [DecidableEq α] in
theorem Exact.nodup {m : Flat κ α} {R : κ → α → Prop} (h : Exact m R) (k : κ) :
    (m.bucket k).Nodup := by
  cases hl : m.lookup k with
  | none => simp [bucket, hl]
  | some v => rw [bucket_of_lookup hl]; exact (h.live k v hl).2

omit [DecidableEq α] in
theorem Exact.lookup_isSome {m : Flat κ α} {R : κ → α → Prop} (h : Exact m R) (k : κ) :
    (m.lookup k).isSome ↔ ∃ x, R k x := by
  constructor
  · intro hs
    obtain ⟨v, hv⟩ := Option.isSome_iff_exists.mp hs
    obtain ⟨x, hx⟩ := List.exists_mem_of_ne_nil v (h.live k v hv).1
    exact ⟨x, (h.mem k x).mp (by rwa [bucket_of_lookup hv])⟩
  · rintro ⟨x, hx⟩
    have hm := (h.mem k x).mpr hx
    cases hl : m.lookup k with
    | none => simp [bucket, hl] at hm
    | some v => rfl

omit [DecidableEq α] in
theorem exact_insert {m : Flat κ α} {R S : κ → α → Prop} (h : Exact m R) (k : κ) (v : List α)
    (hne : v ≠ []) (hnd : v.Nodup) (hk : ∀ x, x ∈ v ↔ S k x)
    (hother : ∀ j, j ≠ k → ∀ x, R j x ↔ S j x) : Exact (m.insert k v) S := by
  constructor
  · intro j x
    rw [bucket_insert]
    split_ifs with hj
    · subst hj; exact hk x
    · exact (h.mem j x).trans (hother j hj x)
  · intro j w hw
    by_cases hj : j = k
    · subst hj
      rw [AList.lookup_insert] at hw
      obtain rfl := Option.some.inj hw
      exact ⟨hne, hnd⟩
    · rw [AList.lookup_insert_ne hj] at hw
      exact h.live j w hw

omit [DecidableEq α] in
theorem Exact.push {m : Flat κ α} {R : κ → α → Prop} (h : Exact m R) {k : κ} {x : α}
    (hx : ¬ R k x) : Exact (m.push k x) (fun j y => R j y ∨ (j = k ∧ y = x)) := by
  refine exact_insert h k _ (by simp) ?_ ?_ ?_
  · refine List.nodup_append.mpr ⟨h.nodup k, by simp, ?_⟩
    intro y hy z hz hyz
    obtain rfl : z = x := by simpa using hz
    exact hx ((h.mem k z).mp (hyz ▸ hy))
  · intro y
    simp [h.mem k y]
  · intro j hj y
    simp [hj]

variable {m : Flat κ α} {R : κ → α → Prop}

theorem Exact.remove (h : Exact m R) (k : κ) (x : α) :
    Exact (m.remove k x) (fun j y => R j y ∧ ¬ (j = k ∧ y = x)) := by
  unfold Flat.remove
  cases hl : m.lookup k with
  | none =>
    refine h.congr fun j y => ⟨fun hr => ⟨hr, ?_⟩, And.left⟩
    rintro ⟨rfl, rfl⟩
    have hm := (h.mem j y).mpr hr
    simp [bucket, hl] at hm
  | some v =>
    have hv := h.live k v hl
    have hmem (y : α) : y ∈ v ↔ R k y := by rw [← bucket_of_lookup hl]; exact h.mem k y
    have hperm := swapRemoveEntry_perm v x
    simp only
    split_ifs with hnil
    · constructor
      · intro j y
        rw [bucket_erase]
        split_ifs with hj
        · subst hj
          have hn : y ∉ v.erase x := fun hy => by
            have := hperm.mem_iff.mpr hy
            simp [hnil] at this
          rw [hv.2.mem_erase_iff, hmem y] at hn
          simp only [List.not_mem_nil, true_and, false_iff]
          tauto
        · simp [hj, h.mem j y]
      · intro j w hw
        by_cases hj : j = k
        · subst hj; simp at hw
        · rw [AList.lookup_erase_ne hj] at hw; exact h.live j w hw
    · refine exact_insert h k _ hnil (hperm.nodup_iff.mpr (hv.2.erase x)) ?_ ?_
      · intro y
        rw [hperm.mem_iff, hv.2.mem_erase_iff, hmem y]
        tauto
      · intro j hj y
        simp [hj]

theorem Exact.relocate (h : Exact m R) {k : κ} {old new : α} (hold : R k old) (hnew : ¬ R k new) :
    Exact (m.relocate k old new)
      (fun j y => (R j y ∧ ¬ (j = k ∧ y = old)) ∨ (j = k ∧ y = new)) := by
  have hm := (h.mem k old).mpr hold
  unfold Flat.relocate
  cases hl : m.lookup k with
  | none => simp [bucket, hl] at hm
  | some v =>
    have hv := h.live k v hl
    have hmem (y : α) : y ∈ v ↔ R k y := by rw [← bucket_of_lookup hl]; exact h.mem k y
    have hin : old ∈ v := (hmem old).mpr hold
    have hperm := set_idxOf_perm v old new hin
    simp only [hin, if_true]
    refine exact_insert h k _ ?_ ?_ ?_ ?_
    · intro hnil; simp [hnil] at hperm
    · rw [hperm.nodup_iff, List.nodup_cons]
      exact ⟨fun hn => hnew ((hmem new).mp (List.mem_of_mem_erase hn)), hv.2.erase old⟩
    · intro y
      rw [hperm.mem_iff, List.mem_cons, hv.2.mem_erase_iff, hmem y]
      tauto
    · intro j hj y
      simp [hj]

/-- Every entry of the index, bucket after bucket. -/
def values (m : Flat κ α) : List α := m.entries.flatMap (fun e => e.2)

omit [DecidableEq α] in
theorem mem_values {m : Flat κ α} {x : α} : x ∈ m.values ↔ ∃ k, x ∈ m.bucket k := by
  simp only [values, List.mem_flatMap]
  constructor
  · rintro ⟨⟨k, v⟩, he, hx⟩
    exact ⟨k, by rwa [bucket_of_lookup (AList.mem_lookup_iff.mpr he)]⟩
  · rintro ⟨k, hx⟩
    cases hl : m.lookup k with
    | none => simp [bucket, hl] at hx
    | some v =>
      exact ⟨⟨k, v⟩, AList.mem_lookup_iff.mp hl, by rwa [bucket_of_lookup hl] at hx⟩

omit [DecidableEq α] in
theorem Exact.values_nodup (h : Exact m R) (hfun : ∀ j k x, R j x → R k x → j = k) :
    m.values.Nodup := by
  refine List.nodup_flatMap.mpr ⟨?_, ?_⟩
  · rintro ⟨k, v⟩ he
    exact (h.live k v (AList.mem_lookup_iff.mpr he)).2
  · have hk : (m.entries.map Sigma.fst).Nodup := m.keys_nodup
    refine (List.pairwise_map.mp hk).imp_of_mem ?_
    rintro ⟨j, v⟩ ⟨k, w⟩ hv hw hne x hx hy
    have h1 := (h.mem j x).mp (by rwa [bucket_of_lookup (AList.mem_lookup_iff.mpr hv)])
    have h2 := (h.mem k x).mp (by rwa [bucket_of_lookup (AList.mem_lookup_iff.mpr hw)])
    exact hne (hfun j k x h1 h2)

end Flat

namespace Nested

def inner (m : Nested κ μ α) (k : κ) : Flat μ α := (m.lookup k).getD ∅

def push (m : Nested κ μ α) (k : κ) (j : μ) (x : α) : Nested κ μ α :=
  m.insert k ((m.inner k).push j x)

def remove (m : Nested κ μ α) (k : κ) (j : μ) (x : α) : Nested κ μ α :=
  match m.lookup k with
  | none => m
  | some f =>
    let f' := f.remove j x
    if f'.entries = [] then m.erase k else m.insert k f'

def relocate (m : Nested κ μ α) (k : κ) (j : μ) (old new : α) : Nested κ μ α :=
  match m.lookup k with
  | none => m
  | some f => m.insert k (f.relocate j old new)

structure Exact (m : Nested κ μ α) (R : κ → μ → α → Prop) : Prop where
  flat : ∀ k, Flat.Exact (m.inner k) (R k)
  live : ∀ k f, m.lookup k = some f → f.entries ≠ []

omit [DecidableEq α] [DecidableEq μ] in
theorem inner_of_lookup {m : Nested κ μ α} {k : κ} {f : Flat μ α} (h : m.lookup k = some f) :
    m.inner k = f := by
  simp [inner, h]

omit [DecidableEq α] [DecidableEq μ] in
theorem inner_insert (m : Nested κ μ α) (k i : κ) (f : Flat μ α) :
    inner (m.insert k f) i = if i = k then f else m.inner i := by
  by_cases h : i = k
  · subst h; simp [inner]
  · simp [inner, AList.lookup_insert_ne h, h]

omit [DecidableEq α] in
theorem exact_empty : Exact (∅ : Nested κ μ α) (fun _ _ _ => False) :=
  ⟨fun _ => Flat.exact_empty, by simp⟩

omit [DecidableEq α] in
theorem Exact.congr {m : Nested κ μ α} {R S : κ → μ → α → Prop} (h : Exact m R)
    (hRS : ∀ k j x, R k j x ↔ S k j x) : Exact m S :=
  ⟨fun k => (h.flat k).congr (hRS k), h.live⟩

omit [DecidableEq α] in
theorem exact_insert {m : Nested κ μ α} {R S : κ → μ → α → Prop} (h : Exact m R) (k : κ)
    (f : Flat μ α) (hne : f.entries ≠ []) (hk : Flat.Exact f (S k))
    (hother : ∀ i, i ≠ k → ∀ j x, R i j x ↔ S i j x) : Exact (m.insert k f) S := by
  constructor
  · intro i
    rw [inner_insert]
    split_ifs with hi
    · subst hi; exact hk
    · exact (h.flat i).congr (hother i hi)
  · intro i g hg
    by_cases hi : i = k
    · subst hi
      rw [AList.lookup_insert] at hg
      obtain rfl := Option.some.inj hg
      exact hne
    · rw [AList.lookup_insert_ne hi] at hg
      exact h.live i g hg

omit [DecidableEq α] in
theorem flat_entries_ne_nil {f : Flat μ α} {R : μ → α → Prop} (h : Flat.Exact f R) {j : μ} {x : α}
    (hx : R j x) : f.entries ≠ [] := by
  intro hnil
  have hm : x ∈ f.values := Flat.mem_values.mpr ⟨j, (h.mem j x).mpr hx⟩
  simp [Flat.values, hnil] at hm

omit [DecidableEq α] in
theorem Exact.push {m : Nested κ μ α} {R : κ → μ → α → Prop} (h : Exact m R) {k : κ} {j : μ}
    {x : α} (hx : ¬ R k j x) :
    Exact (m.push k j x) (fun i l y => R i l y ∨ (i = k ∧ l = j ∧ y = x)) := by
  have hf := (h.flat k).push hx
  refine exact_insert h k _ (flat_entries_ne_nil hf (Or.inr ⟨rfl, rfl⟩)) ?_ ?_
  · exact hf.congr (by simp)
  · intro i hi l y
    simp [hi]

variable {R : κ → μ → α → Prop}

theorem Exact.remove {m : Nested κ μ α} (h : Exact m R) (k : κ) (j : μ) (x : α) :
    Exact (m.remove k j x) (fun i l y => R i l y ∧ ¬ (i = k ∧ l = j ∧ y = x)) := by
  unfold Nested.remove
  cases hl : m.lookup k with
  | none =>
    refine h.congr fun i l y => ⟨fun hr => ⟨hr, ?_⟩, And.left⟩
    rintro ⟨rfl, rfl, rfl⟩
    have hm := ((h.flat i).mem l y).mpr hr
    simp [inner, hl, Flat.bucket] at hm
  | some f =>
    have hf : Flat.Exact f (R k) := inner_of_lookup hl ▸ h.flat k
    have hr := hf.remove j x
    simp only
    split_ifs with hnil
    · constructor
      · intro i
        by_cases hi : i = k
        · subst hi
          have he : f.remove j x = ∅ := AList.ext hnil
          rw [he] at hr
          rw [inner, AList.lookup_erase]
          exact hr.congr (by simp)
        · rw [inner, AList.lookup_erase_ne hi]
          exact (h.flat i).congr (by simp [hi])
      · intro i g hg
        by_cases hi : i = k
        · subst hi; simp at hg
        · rw [AList.lookup_erase_ne hi] at hg; exact h.live i g hg
    · refine exact_insert h k _ hnil (hr.congr (by simp)) ?_
      intro i hi l y
      simp [hi]

theorem Exact.relocate {m : Nested κ μ α} (h : Exact m R) {k : κ} {j : μ} {old new : α}
    (hold : R k j old) (hnew : ¬ R k j new) :
    Exact (m.relocate k j old new)
      (fun i l y => (R i l y ∧ ¬ (i = k ∧ l = j ∧ y = old)) ∨ (i = k ∧ l = j ∧ y = new)) := by
  have hm := ((h.flat k).mem j old).mpr hold
  unfold Nested.relocate
  cases hl : m.lookup k with
  | none => simp [inner, hl, Flat.bucket] at hm
  | some f =>
    have hf : Flat.Exact f (R k) := inner_of_lookup hl ▸ h.flat k
    have hr := hf.relocate hold hnew
    refine exact_insert h k _ (flat_entries_ne_nil hr (Or.inr ⟨rfl, rfl⟩)) (hr.congr (by simp)) ?_
    intro i hi l y
    simp [hi]

end Nested

end RdfDatalog.BucketIndex
