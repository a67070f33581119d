import Mathlib.Data.Finmap

/-- A table that is ordered by sequence numbers. -/
structure SequenceTable (V : Type) where
  rows : List (ℕ × V)
  sorted : rows.Pairwise fun a b => a.1 < b.1

namespace SequenceTable

variable {V : Type}

def keys (t : SequenceTable V) : List ℕ := t.rows.map Prod.fst

def insert (t : SequenceTable V) (k : ℕ) (v : V) : SequenceTable V where
  rows := t.rows.filter (fun row => row.1 < k) ++ (k, v) :: t.rows.filter fun row => k < row.1
  sorted := by
    refine List.pairwise_append.mpr ⟨t.sorted.filter _, ?_, ?_⟩
    · refine List.pairwise_cons.mpr ⟨fun row hrow => ?_, t.sorted.filter _⟩
      simpa using (List.mem_filter.mp hrow).2
    · intro a ha b hb
      have hak : a.1 < k := by simpa using (List.mem_filter.mp ha).2
      rcases List.mem_cons.mp hb with rfl | hb
      · exact hak
      · have hkb : k < b.1 := by simpa using (List.mem_filter.mp hb).2
        omega

def remove (t : SequenceTable V) (k : ℕ) : SequenceTable V where
  rows := t.rows.filter fun row => row.1 ≠ k
  sorted := t.sorted.filter _

def removeKeys (t : SequenceTable V) (ks : List ℕ) : SequenceTable V := ks.foldl remove t

/-- Insertions under `k`, `k + 1` and so on. -/
def insertFrom (t : SequenceTable V) (k : ℕ) : List V → SequenceTable V
  | [] => t
  | v :: vs => (t.insert k v).insertFrom (k + 1) vs

def numbered (k : ℕ) : List V → List (ℕ × V)
  | [] => []
  | v :: vs => (k, v) :: numbered (k + 1) vs

/-- All sequence numbers of the table are less than `k`. -/
def Below (t : SequenceTable V) (k : ℕ) : Prop := ∀ row ∈ t.rows, row.1 < k

/-- The sequence number after the last one of the table. -/
def nextKey (t : SequenceTable V) : ℕ :=
  match t.rows.getLast? with
  | some row => row.1 + 1
  | none => 0

theorem below_nextKey (t : SequenceTable V) : t.Below t.nextKey := by
  intro row hrow
  obtain ⟨before, last, hlast⟩ : ∃ before last, t.rows = before ++ [last] := by
    refine ⟨t.rows.dropLast, t.rows.getLast (List.ne_nil_of_mem hrow), ?_⟩
    exact (List.dropLast_append_getLast _).symm
  have hnext : t.nextKey = last.1 + 1 := by
    rw [nextKey, hlast, List.getLast?_concat]
  have hsorted := t.sorted
  rw [hlast] at hrow hsorted
  rw [hnext]
  rcases List.mem_append.mp hrow with hrow | hrow
  · have hlt := (List.pairwise_append.mp hsorted).2.2 row hrow last List.mem_cons_self
    omega
  · rw [List.mem_singleton.mp hrow]
    exact Nat.lt_succ_self _

variable {t : SequenceTable V} {k : ℕ}

theorem rows_insert (h : t.Below k) (v : V) :
    (t.insert k v).rows = t.rows ++ [(k, v)] := by
  have hbefore : t.rows.filter (fun row => row.1 < k) = t.rows :=
    List.filter_eq_self.mpr fun row hrow => by simpa using h row hrow
  have hafter : t.rows.filter (fun row => k < row.1) = [] :=
    List.filter_eq_nil_iff.mpr fun row hrow => by
      have hlt := h row hrow
      simp only [decide_eq_true_eq]
      omega
  show t.rows.filter _ ++ (k, v) :: t.rows.filter _ = _
  rw [hbefore, hafter]

theorem Below.insert (h : t.Below k) (v : V) :
    (t.insert k v).Below (k + 1) := by
  intro row hrow
  rw [rows_insert h] at hrow
  rcases List.mem_append.mp hrow with hrow | hrow
  · have hlt := h row hrow
    omega
  · rw [List.mem_singleton.mp hrow]
    exact Nat.lt_succ_self k

theorem rows_insertFrom (h : t.Below k) (vs : List V) :
    (t.insertFrom k vs).rows = t.rows ++ numbered k vs := by
  induction vs generalizing t k with
  | nil => exact (List.append_nil _).symm
  | cons v vs ih =>
    rw [insertFrom, ih (h.insert v), rows_insert h, List.append_assoc]
    rfl

theorem Below.insertFrom (h : t.Below k) (vs : List V) :
    (t.insertFrom k vs).Below (k + vs.length) := by
  induction vs generalizing t k with
  | nil => exact h
  | cons v vs ih =>
    have hrest := ih (h.insert v)
    rw [Nat.add_right_comm] at hrest
    exact hrest

theorem rows_removeKeys (t : SequenceTable V) : (t.removeKeys t.keys).rows = [] := by
  have hmem (ks : List ℕ) (s : SequenceTable V) (row : ℕ × V) :
      row ∈ (s.removeKeys ks).rows ↔ row ∈ s.rows ∧ row.1 ∉ ks := by
    induction ks generalizing s with
    | nil => simp [removeKeys]
    | cons k ks ih =>
      have hrest := ih (s.remove k)
      rw [removeKeys, List.foldl_cons, ← removeKeys, hrest]
      simp [remove, and_assoc]
  refine List.eq_nil_iff_forall_not_mem.mpr fun row hrow => ?_
  obtain ⟨hin, hno⟩ := (hmem _ _ row).mp hrow
  exact hno (List.mem_map_of_mem hin)

theorem below_of_rows_eq_nil (h : t.rows = []) (k : ℕ) : t.Below k := by
  intro row hrow
  rw [h] at hrow
  cases hrow

@[simp] theorem map_snd_numbered (k : ℕ) (vs : List V) : (numbered k vs).map Prod.snd = vs := by
  induction vs generalizing k with
  | nil => rfl
  | cons v vs ih => simp [numbered, ih]

theorem le_of_mem_numbered {vs : List V} {row : ℕ × V} (h : row ∈ numbered k vs) :
    k ≤ row.1 := by
  induction vs generalizing k with
  | nil => cases h
  | cons v vs ih =>
    rcases List.mem_cons.mp h with rfl | h
    · exact Nat.le_refl k
    · have hle := ih h
      omega

section Marks

variable {A : Type} [DecidableEq A] (mark scope : V → Option A)

/-- For each name the sequence number of the last row that marks it. -/
def lastMarks (rows : List (ℕ × V)) : Finmap fun _ : A => ℕ :=
  rows.foldl (fun cutoffs row =>
    match mark row.2 with
    | some a => cutoffs.insert a row.1
    | none => cutoffs) ∅

/-- The last mark of a name, or the start of the table. -/
def cutoff (rows : List (ℕ × V)) (a : A) : ℕ := ((lastMarks mark rows).lookup a).getD 0

/-- No row of a name stands before a row that marks it. -/
def Settled (vs : List V) : Prop :=
  vs.Pairwise fun x y => ∀ a, mark y = some a → scope x ≠ some a

variable {mark scope}

theorem cutoff_eq (rows : List (ℕ × V)) (a : A) :
    cutoff mark rows a = 0 ∨ ∃ row ∈ rows, mark row.2 = some a ∧ row.1 = cutoff mark rows a := by
  induction rows using List.reverseRecOn with
  | nil => exact .inl rfl
  | append_singleton rows row ih =>
    have hold (h : cutoff mark (rows ++ [row]) a = cutoff mark rows a) :
        cutoff mark (rows ++ [row]) a = 0 ∨ ∃ row' ∈ rows ++ [row],
          mark row'.2 = some a ∧ row'.1 = cutoff mark (rows ++ [row]) a := by
      rw [h]
      refine ih.imp_right fun ⟨row', hrow', hmark⟩ => ?_
      exact ⟨row', List.mem_append_left _ hrow', hmark⟩
    have hstep : lastMarks mark (rows ++ [row]) = match mark row.2 with
        | some a => (lastMarks mark rows).insert a row.1
        | none => lastMarks mark rows := by
      rw [lastMarks, List.foldl_append]
      rfl
    cases hmark : mark row.2 with
    | none =>
      rw [hmark] at hstep
      exact hold (by rw [cutoff, hstep, ← cutoff])
    | some b =>
      rw [hmark] at hstep
      by_cases hb : a = b
      · subst hb
        refine .inr ⟨row, List.mem_append_right _ List.mem_cons_self, hmark, ?_⟩
        rw [cutoff, hstep, Finmap.lookup_insert]
        rfl
      · exact hold (by rw [cutoff, hstep, Finmap.lookup_insert_of_ne _ hb, ← cutoff])

theorem cutoff_le {t : SequenceTable V} (h : Settled mark scope (t.rows.map Prod.snd)) {a : A}
    {row : ℕ × V} (hrow : row ∈ t.rows) (hscope : scope row.2 = some a) :
    cutoff mark t.rows a ≤ row.1 := by
  have hlast : cutoff mark t.rows a = 0 ∨ _ := cutoff_eq t.rows a
  rcases hlast with hzero | ⟨row', hrow', hmark, heq⟩
  · omega
  · rw [← heq]
    let R (x y : ℕ × V) : Prop := x.1 < y.1 ∧ ∀ a, mark y.2 = some a → scope x.2 ≠ some a
    have hpairs : t.rows.Pairwise R := t.sorted.and (List.pairwise_map.mp h)
    have hany : row = row' ∨ R row row' ∨ R row' row :=
      List.Pairwise.forall_of_forall_of_flip (R := fun x y => x = y ∨ R x y ∨ R y x)
        (fun _ _ => .inl rfl) (hpairs.imp fun hxy => .inr (.inl hxy))
        (hpairs.imp fun hyx => .inr (.inr hyx)) hrow hrow'
    rcases hany with rfl | hbefore | hafter
    · exact Nat.le_refl _
    · exact absurd hscope (hbefore.2 a hmark)
    · exact Nat.le_of_lt hafter.1

end Marks

end SequenceTable
