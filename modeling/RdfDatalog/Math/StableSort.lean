import Mathlib.Data.List.Perm.Basic
import Mathlib.Data.Set.Basic

namespace RdfDatalog.GreedyOrder

variable {α σ κ : Type}

/-- The scan of `argBest`: `best` is the position of the best key so far, `i` the next position. -/
def argBestFrom (replaces : κ → κ → Bool) (best : Nat) (bestKey : κ) : Nat → List κ → Nat
  | _, [] => best
  | i, k :: keys =>
    if replaces bestKey k then argBestFrom replaces i k (i + 1) keys
    else argBestFrom replaces best bestKey (i + 1) keys

/-- The position of the best key: each key is compared with the best one before it. -/
def argBest (replaces : κ → κ → Bool) : List κ → Nat
  | [] => 0
  | k :: keys => argBestFrom replaces 0 k 1 keys

/-- Take the elements one after another, each time the one at the position that `pick` chooses; the
state records what has been taken. -/
def greedy (pick : σ → List α → Nat) (advance : σ → α → σ) : Nat → σ → List α → List α
  | 0, _, l => l
  | n + 1, s, l =>
    match l[pick s l]? with
    | none => l
    | some x => x :: greedy pick advance n (advance s x) (l.eraseIdx (pick s l))

theorem greedy_perm (pick : σ → List α → Nat) (advance : σ → α → σ) (n : Nat) (s : σ)
    (l : List α) : (greedy pick advance n s l).Perm l := by
  induction n generalizing s l with
  | zero => exact .refl l
  | succ n ih =>
    rw [greedy]
    cases h : l[pick s l]? with
    | none => exact .refl l
    | some x =>
      obtain ⟨hlt, rfl⟩ := List.getElem?_eq_some_iff.mp h
      have hrest := (ih (advance s l[pick s l]) (l.eraseIdx (pick s l))).cons l[pick s l]
      exact hrest.trans (List.getElem_cons_eraseIdx_perm hlt)

end RdfDatalog.GreedyOrder

namespace RdfDatalog

variable {α β : Type}

section Comparators

/-- On the set, the comparison of `b` with `a` is that of `a` with `b` the other way, and what is
not greater is so transitively. -/
structure ConsistentOn (cmp : α → α → Ordering) (T : Set α) : Prop where
  swap : ∀ a ∈ T, ∀ b ∈ T, cmp b a = (cmp a b).swap
  trans : ∀ a ∈ T, ∀ b ∈ T, ∀ c ∈ T, cmp a b ≠ .gt → cmp b c ≠ .gt → cmp a c ≠ .gt

variable {cmp cmp' : α → α → Ordering} {T : Set α} {a b c : α}

instance {l : List α} : Decidable (ConsistentOn cmp {a | a ∈ l}) :=
  decidable_of_iff ((∀ a ∈ l, ∀ b ∈ l, cmp b a = (cmp a b).swap) ∧
      ∀ a ∈ l, ∀ b ∈ l, ∀ c ∈ l, cmp a b ≠ .gt → cmp b c ≠ .gt → cmp a c ≠ .gt)
    ⟨fun h => ⟨h.1, h.2⟩, fun h => ⟨h.swap, h.trans⟩⟩

variable (h : ConsistentOn cmp T)

include h

theorem ConsistentOn.mono {S : Set α} (hS : S ⊆ T) : ConsistentOn cmp S :=
  ⟨fun a ha b hb => h.swap a (hS ha) b (hS hb),
    fun a ha b hb c hc => h.trans a (hS ha) b (hS hb) c (hS hc)⟩

theorem ConsistentOn.comap {f : β → α} {S : Set β}
    (hf : ∀ x ∈ S, f x ∈ T) : ConsistentOn (fun x y => cmp (f x) (f y)) S :=
  ⟨fun a ha b hb => h.swap _ (hf a ha) _ (hf b hb),
    fun a ha b hb c hc => h.trans _ (hf a ha) _ (hf b hb) _ (hf c hc)⟩

theorem ConsistentOn.ne_gt_of_lt (ha : a ∈ T) (hb : b ∈ T)
    (hab : cmp a b ≠ .lt) : cmp b a ≠ .gt := by
  rw [h.swap a ha b hb]
  cases hcmp : cmp a b with
  | eq => simp
  | lt => exact absurd hcmp hab
  | gt => simp

theorem ConsistentOn.lt_of_lt_of_le (ha : a ∈ T) (hb : b ∈ T) (hc : c ∈ T)
    (hab : cmp a b = .lt) (hbc : cmp b c ≠ .gt) : cmp a c = .lt := by
  by_contra hne
  have hba := h.trans b hb c hc a ha hbc (h.ne_gt_of_lt ha hc hne)
  rw [h.swap a ha b hb, hab] at hba
  exact hba rfl

theorem ConsistentOn.lt_of_le_of_lt (ha : a ∈ T) (hb : b ∈ T) (hc : c ∈ T)
    (hab : cmp a b ≠ .gt) (hbc : cmp b c = .lt) : cmp a c = .lt := by
  by_contra hne
  have hcb := h.trans c hc a ha b hb (h.ne_gt_of_lt ha hc hne) hab
  rw [h.swap b hb c hc, hbc] at hcb
  exact hcb rfl

theorem ConsistentOn.eq_trans (ha : a ∈ T) (hb : b ∈ T) (hc : c ∈ T)
    (hab : cmp a b = .eq) (hbc : cmp b c = .eq) : cmp a c = .eq := by
  have hle := h.trans a ha b hb c hc (by simp [hab]) (by simp [hbc])
  have hge := h.trans c hc b hb a ha (by simp [h.swap b hb c hc, hbc]) (by
    simp [h.swap a ha b hb, hab])
  rw [h.swap a ha c hc] at hge
  cases hcmp : cmp a c with
  | eq => rfl
  | lt => rw [hcmp] at hge; exact absurd rfl hge
  | gt => exact absurd hcmp hle

theorem ConsistentOn.reversed :
    ConsistentOn (fun a b => (cmp a b).swap) T := by
  constructor
  · intro a ha b hb
    rw [h.swap a ha b hb]
  · intro a ha b hb c hc hab hbc
    rw [← h.swap a ha b hb] at hab
    rw [← h.swap b hb c hc] at hbc
    rw [← h.swap a ha c hc]
    exact h.trans c hc b hb a ha hbc hab

theorem ConsistentOn.thenBy (h' : ConsistentOn cmp' T) :
    ConsistentOn (fun a b => if cmp a b = .eq then cmp' a b else cmp a b) T := by
  constructor
  · intro a ha b hb
    have hswap := h.swap a ha b hb
    by_cases heq : cmp a b = .eq
    · have hback : cmp b a = .eq := by rw [hswap, heq]; rfl
      rw [if_pos heq, if_pos hback]
      exact h'.swap a ha b hb
    · have hback : cmp b a ≠ .eq := by
        rw [hswap]
        simpa using heq
      rw [if_neg heq, if_neg hback]
      exact hswap
  · intro a ha b hb c hc hab hbc
    by_cases heab : cmp a b = .eq
    · rw [if_pos heab] at hab
      by_cases hebc : cmp b c = .eq
      · rw [if_pos hebc] at hbc
        rw [if_pos (h.eq_trans ha hb hc heab hebc)]
        exact h'.trans a ha b hb c hc hab hbc
      · rw [if_neg hebc] at hbc
        have hlt : cmp b c = .lt := by
          cases hcmp : cmp b c with
          | lt => rfl
          | eq => exact absurd hcmp hebc
          | gt => exact absurd hcmp hbc
        have hac := h.lt_of_le_of_lt ha hb hc (by simp [heab]) hlt
        simp [hac]
    · rw [if_neg heab] at hab
      have hlt : cmp a b = .lt := by
        cases hcmp : cmp a b with
        | lt => rfl
        | eq => exact absurd hcmp heab
        | gt => exact absurd hcmp hab
      have hle : cmp b c ≠ .gt := by
        by_cases hebc : cmp b c = .eq
        · simp [hebc]
        · rwa [if_neg hebc] at hbc
      have hac := h.lt_of_lt_of_le ha hb hc hlt hle
      simp [hac]

omit h

/-- A missing value comes before every value. -/
def noneFirst (cmp : α → α → Ordering) : Option α → Option α → Ordering
  | some l, some r => cmp l r
  | none, some _ => .lt
  | some _, none => .gt
  | none, none => .eq

include h in
theorem ConsistentOn.noneFirst :
    ConsistentOn (noneFirst cmp) {o | ∀ e ∈ o, e ∈ T} := by
  constructor
  · intro a ha b hb
    cases a <;> cases b
    · rfl
    · rfl
    · rfl
    · exact h.swap _ (ha _ rfl) _ (hb _ rfl)
  · intro a ha b hb c hc hab hbc
    cases a <;> cases b <;> cases c <;> simp_all [RdfDatalog.noneFirst]
    exact h.trans _ ha _ hb _ hc hab hbc

theorem consistentOn_eq (T : Set α) : ConsistentOn (fun _ _ => .eq) T :=
  ⟨fun _ _ _ _ => rfl, fun _ _ _ _ _ _ _ _ => by simp⟩

end Comparators

section Sorting

/-- The relation that a sort by a comparison uses. -/
def notGreater (cmp : α → α → Ordering) (a b : α) : Bool := cmp a b ≠ .gt

variable {cmp : α → α → Ordering} {cmp' : β → β → Ordering} {T : Set α} {l : List α}

/-- A list over the set, as one of elements of the set. -/
def within (hl : ∀ a ∈ l, a ∈ T) : List T := l.attach.map fun a => ⟨a.1, hl a.1 a.2⟩

theorem map_within (hl : ∀ a ∈ l, a ∈ T) : (within hl).map Subtype.val = l := by
  rw [within, List.map_map]
  exact List.attach_map_subtype_val l

theorem map_mergeSort_within (cmp : α → α → Ordering) (hl : ∀ a ∈ l, a ∈ T) :
    ((within hl).mergeSort fun a b => notGreater cmp a b).map Subtype.val =
      l.mergeSort (notGreater cmp) := by
  have hmap := List.map_mergeSort (s := notGreater cmp) (f := Subtype.val) (l := within hl)
    fun _ _ _ _ => rfl
  rw [map_within] at hmap
  exact hmap

variable (h : ConsistentOn cmp T)

include h

theorem ConsistentOn.total (a b : T) :
    notGreater cmp a b || notGreater cmp b a := by
  have hswap := h.swap a a.2 b b.2
  unfold notGreater
  cases hcmp : cmp a b <;> simp [hswap, hcmp]

theorem ConsistentOn.le_trans (a b c : T) (hab : notGreater cmp a b)
    (hbc : notGreater cmp b c) : notGreater cmp a c := by
  simp only [notGreater, decide_eq_true_eq] at hab hbc ⊢
  exact h.trans a a.2 b b.2 c c.2 hab hbc

theorem ConsistentOn.pairwise_mergeSort (hl : ∀ a ∈ l, a ∈ T) :
    (l.mergeSort (notGreater cmp)).Pairwise fun a b => cmp a b ≠ .gt := by
  have hsorted := List.pairwise_mergeSort h.le_trans h.total (within hl)
  rw [← map_mergeSort_within cmp hl, List.pairwise_map]
  refine hsorted.imp fun hab => ?_
  simpa [notGreater] using hab

omit h

theorem mergeSort_pair (le : α → α → Bool) (a b : α) :
    [a, b].mergeSort le = if le a b then [a, b] else [b, a] := by
  simp [List.mergeSort, List.merge]

variable {le : α → α → Bool} {le' : β → β → Bool} {p : α → β}

/-- Where an element is inserted among others that look like it does not show. -/
theorem map_insert_of_agrees {a : α} {l₁ l₂ m₁ m₂ : List α}
    (hagree : ∀ b, p a = p b ∨ le' (p a) (p b) = le a b) (hl₁ : ∀ b ∈ l₁, le a b = false)
    (hl₂ : ∀ b ∈ l₂, le' (p a) (p b)) (hm₁ : ∀ b ∈ m₁, le' (p a) (p b) = false)
    (hm₂ : ∀ b ∈ m₂, le' (p a) (p b)) (h : (l₁ ++ l₂).map p = (m₁ ++ m₂).map p) :
    (l₁ ++ a :: l₂).map p = (m₁ ++ a :: m₂).map p := by
  induction l₁ generalizing m₁ with
  | nil =>
    cases m₁ with
    | nil => simpa using h
    | cons c m₁ =>
      have hc : p c ∈ l₂.map p := by
        rw [List.nil_append] at h
        simp [h]
      obtain ⟨b, hb, hbc⟩ := List.mem_map.mp hc
      have hle := hl₂ b hb
      rw [hbc, hm₁ c (.head m₁)] at hle
      cases hle
  | cons b l₁ ih =>
    cases m₁ with
    | cons c m₁ =>
      simp only [List.cons_append, List.map_cons, List.cons.injEq] at h ⊢
      exact ⟨h.1, ih (fun x hx => hl₁ x (.tail b hx)) (fun x hx => hm₁ x (.tail c hx)) h.2⟩
    | nil =>
      -- all that `le` puts before `a` looks like `a`
      have hsame : ∀ x ∈ b :: l₁, p x = p a := by
        intro x hx
        have hmem : p x ∈ m₂.map p := by
          rw [List.nil_append] at h
          rw [← h]
          exact List.mem_map_of_mem (List.mem_append_left _ hx)
        obtain ⟨y, hy, hyx⟩ := List.mem_map.mp hmem
        have hle := hm₂ y hy
        rw [hyx] at hle
        rcases hagree x with heq | heq
        · exact heq.symm
        · rw [heq, hl₁ x hx] at hle
          cases hle
      have hall : (b :: l₁).map p = List.replicate (l₁.length + 1) (p a) :=
        List.map_eq_replicate_iff.mpr hsame
      rw [List.nil_append, List.map_append, hall] at h
      rw [List.map_append, hall, List.nil_append, List.map_cons, List.map_cons, ← h,
        List.append_cons, ← List.replicate_succ']
      rfl

/-- An element is inserted before the first that is not less. -/
theorem mergeSort_cons_split (htrans : ∀ a b c, le a b → le b c → le a c)
    (htotal : ∀ a b, le a b || le b a) (a : α) (l : List α) :
    ∃ l₁ l₂, (a :: l).mergeSort le = l₁ ++ a :: l₂ ∧ l.mergeSort le = l₁ ++ l₂ ∧
      (∀ b ∈ l₁, le a b = false) ∧ ∀ b ∈ l₂, le a b := by
  obtain ⟨l₁, l₂, h₁, h₂, hl₁⟩ := List.mergeSort_cons htrans htotal a l
  have hsorted := List.pairwise_mergeSort htrans htotal (a :: l)
  rw [h₁] at hsorted
  refine ⟨l₁, l₂, h₁, h₂, fun b hb => by simpa using hl₁ b hb, ?_⟩
  exact (List.pairwise_cons.mp (List.pairwise_append.mp hsorted).2.1).1

/-- Sorting commutes with a projection where the two orders agree on all elements that the
projection keeps apart. -/
theorem map_mergeSort_of_agrees (htrans : ∀ a b c, le a b → le b c → le a c)
    (htotal : ∀ a b, le a b || le b a) (hrefl : ∀ a, le' (p a) (p a))
    (hagree : ∀ a b, p a = p b ∨ le' (p a) (p b) = le a b) (l : List α) :
    (l.map p).mergeSort le' = (l.mergeSort le).map p := by
  let le₃ (a b : α) : Bool := le' (p a) (p b)
  have hle₃ {a b : α} (hab : le a b) : le₃ a b := by
    rcases hagree a b with heq | heq
    · change le' (p a) (p b) = true
      rw [heq]
      exact hrefl b
    · exact heq.trans hab
  have htotal₃ (a b : α) : le₃ a b || le₃ b a := by
    rw [Bool.or_eq_true]
    exact ((Bool.or_eq_true _ _).mp (htotal a b)).imp hle₃ hle₃
  have htrans₃ (a b c : α) (hab : le₃ a b) (hbc : le₃ b c) : le₃ a c := by
    rcases hagree a b with heq | heq
    · change le' (p a) (p c) = true
      rw [heq]
      exact hbc
    rcases hagree b c with heq' | heq'
    · change le' (p a) (p c) = true
      rw [← heq']
      exact hab
    exact hle₃ (htrans a b c (heq.symm.trans hab) (heq'.symm.trans hbc))
  rw [← List.map_mergeSort (r := le₃) (f := p) fun _ _ _ _ => rfl]
  induction l with
  | nil => simp
  | cons a l ih =>
    obtain ⟨l₁, l₂, hl, hl', hl₁, hl₂⟩ := mergeSort_cons_split htrans htotal a l
    obtain ⟨m₁, m₂, hm, hm', hm₁, hm₂⟩ := mergeSort_cons_split htrans₃ htotal₃ a l
    rw [hl', hm'] at ih
    rw [hl, hm]
    exact (map_insert_of_agrees (hagree a) hl₁ (fun b hb => hle₃ (hl₂ b hb)) hm₁ hm₂ ih.symm).symm

include h in
/-- Sorting over a set commutes with a projection exactly where the two comparisons agree on all
elements that the projection keeps apart. -/
theorem ConsistentOn.map_mergeSort_iff
    (hrefl : ∀ a ∈ T, cmp' (p a) (p a) = .eq) :
    (∀ l : List α, (∀ a ∈ l, a ∈ T) →
      (l.map p).mergeSort (notGreater cmp') = (l.mergeSort (notGreater cmp)).map p) ↔
    ∀ a ∈ T, ∀ b ∈ T, p a = p b ∨ (cmp' (p a) (p b) = .gt ↔ cmp a b = .gt) := by
  constructor
  · intro hall a ha b hb
    by_cases hab : p a = p b
    · exact .inl hab
    · right
      have hpair := hall [a, b] (by simp [ha, hb])
      rw [List.map_cons, List.map_cons, List.map_nil, mergeSort_pair, mergeSort_pair] at hpair
      have hba : p b ≠ p a := fun heq => hab heq.symm
      by_cases h₁ : cmp' (p a) (p b) = .gt <;> by_cases h₂ : cmp a b = .gt <;>
        simp_all [notGreater]
  · intro hagree l hl
    have hsub : ((within hl).map fun a : T => p a).mergeSort (notGreater cmp') =
        ((within hl).mergeSort fun a b => notGreater cmp a b).map fun a : T => p a :=
      map_mergeSort_of_agrees h.le_trans h.total
      (fun a => by simp [notGreater, hrefl a a.2]) (fun a b => by
        rcases hagree a a.2 b b.2 with heq | heq
        · exact .inl heq
        · exact .inr (by simp [notGreater, heq])) (within hl)
    have hproj : (within hl).map (fun a : T => p a) = l.map p := by
      have hmap := congrArg (List.map p) (map_within hl)
      rwa [List.map_map] at hmap
    rw [hproj] at hsub
    rw [hsub, ← map_mergeSort_within cmp hl, List.map_map]
    rfl

end Sorting

end RdfDatalog
