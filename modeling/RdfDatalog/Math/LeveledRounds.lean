import Mathlib.Data.DFinsupp.WellFounded
import Mathlib.Data.Set.Finite.Lemmas

namespace RdfDatalog.LeveledRounds

variable {α : Type} {scope : Finset α}

/-- The items on record, and those among them that the last round put there. -/
structure State (scope : Finset α) where
  present : Set α
  fresh : Set α
  fresh_present : fresh ⊆ present
  fresh_scope : ∀ x ∈ fresh, x ∈ scope

namespace State

/-- What the last round left on record. -/
def kept (s : State scope) : Set α := s.present \ s.fresh

open Classical in
/-- The items of a level that are not on record. -/
noncomputable def missing (level : α → ℕ) (s : State scope) (n : ℕ) : Finset α :=
  {x ∈ scope | level x = n ∧ x ∉ s.present}

open Classical in
/-- How many items of a level are missing; above the lowest fresh item, more than can be. -/
noncomputable def deficit (level : α → ℕ) (s : State scope) (n : ℕ) : ℕ :=
  if ∀ x ∈ s.fresh, n ≤ level x then (s.missing level n).card else scope.card + 1

open Classical in
noncomputable def staleLeft (stale : Set α) (s : State scope) : Finset α :=
  {x ∈ scope | x ∈ stale ∧ x ∈ s.present}

noncomputable def rank (level : α → ℕ) (stale : Set α) (s : State scope) :
    ℕ ×ₗ Lex (Fin (scope.sup level + 1) → ℕ) :=
  toLex ((s.staleLeft stale).card, toLex fun n => s.deficit level n)

theorem missing_subset (level : α → ℕ) (s : State scope) (n : ℕ) : s.missing level n ⊆ scope := by
  intro x hx
  simp only [missing, Finset.mem_filter] at hx
  exact hx.1

theorem exists_lowest (level : α → ℕ) {s : State scope} (h : s.fresh.Nonempty) :
    ∃ y ∈ s.fresh, ∀ x ∈ s.fresh, level y ≤ level x := by
  have hfinite : s.fresh.Finite := scope.finite_toSet.subset s.fresh_scope
  exact Set.exists_min_image s.fresh level hfinite h

end State

/-- One round withdraws items and adds fresh ones, none of them stale. An item is withdrawn after a
fresh one of a lower level, unless a stale one is withdrawn as well. -/
structure Round (level : α → ℕ) (stale : Set α) (s s' : State scope) : Prop where
  kept_subset : s'.kept ⊆ s.present
  fresh_sound : ∀ x ∈ s'.fresh, x ∉ stale
  cause : ∀ x ∈ s.present, x ∉ s'.kept →
    (∃ y ∈ s.present, y ∈ scope ∧ y ∈ stale ∧ y ∉ s'.kept) ∨ ∃ y ∈ s.fresh, level y < level x

namespace Round

variable {level : α → ℕ} {stale : Set α} {s s' : State scope}

theorem stale_kept (h : Round level stale s s') {x : α} (hx : x ∈ stale) (hmem : x ∈ s'.present) :
    x ∈ s'.kept := ⟨hmem, fun hfresh => h.fresh_sound x hfresh hx⟩

theorem staleLeft_subset (h : Round level stale s s') : s'.staleLeft stale ⊆ s.staleLeft stale := by
  intro x hx
  simp only [State.staleLeft, Finset.mem_filter] at hx ⊢
  exact ⟨hx.1, hx.2.1, h.kept_subset (h.stale_kept hx.2.1 hx.2.2)⟩

theorem staleLeft_lt (h : Round level stale s s') {y : α} (hy : y ∈ s.present) (hscope : y ∈ scope)
    (hstale : y ∈ stale) (hkept : y ∉ s'.kept) :
    (s'.staleLeft stale).card < (s.staleLeft stale).card := by
  apply Finset.card_lt_card
  refine ⟨h.staleLeft_subset, fun hback => hkept ?_⟩
  have hleft : y ∈ s.staleLeft stale := by
    simp only [State.staleLeft, Finset.mem_filter]
    exact ⟨hscope, hstale, hy⟩
  have hleft' := hback hleft
  simp only [State.staleLeft, Finset.mem_filter] at hleft'
  exact h.stale_kept hstale hleft'.2.2

section Levels

variable {low low' : α}

theorem missing_eq (h : Round level stale s s')
    (hcause : ∀ x ∈ s.present, x ∉ s'.kept → ∃ y ∈ s.fresh, level y < level x)
    (hlow : ∀ x ∈ s.fresh, level low ≤ level x) (hlow' : ∀ x ∈ s'.fresh, level low' ≤ level x)
    {n : ℕ} (hn : n ≤ level low) (hn' : n < level low') :
    s'.missing level n = s.missing level n := by
  have hpresent (x : α) (hx : level x = n) : x ∈ s'.present ↔ x ∈ s.present := by
    constructor
    · intro hmem
      refine h.kept_subset ⟨hmem, fun hfresh => ?_⟩
      have hle := hlow' x hfresh
      omega
    · intro hmem
      by_contra hno
      obtain ⟨y, hy, hlt⟩ := hcause x hmem fun hkept => hno hkept.1
      have hle := hlow y hy
      omega
  ext x
  simp only [State.missing, Finset.mem_filter]
  constructor
  · intro ⟨hscope, hx, hno⟩
    exact ⟨hscope, hx, fun hmem => hno ((hpresent x hx).mpr hmem)⟩
  · intro ⟨hscope, hx, hno⟩
    exact ⟨hscope, hx, fun hmem => hno ((hpresent x hx).mp hmem)⟩

theorem missing_lt (hcause : ∀ x ∈ s.present, x ∉ s'.kept → ∃ y ∈ s.fresh, level y < level x)
    (hlow : ∀ x ∈ s.fresh, level low ≤ level x) (hfresh' : low' ∈ s'.fresh)
    (hle : level low' ≤ level low) :
    (s'.missing level (level low')).card < (s.missing level (level low')).card := by
  have hkept (x : α) (hx : level x = level low') (hmem : x ∈ s.present) : x ∈ s'.kept := by
    by_contra hno
    obtain ⟨y, hy, hlt⟩ := hcause x hmem hno
    have hle' := hlow y hy
    omega
  apply Finset.card_lt_card
  constructor
  · intro x hx
    simp only [State.missing, Finset.mem_filter] at hx ⊢
    exact ⟨hx.1, hx.2.1, fun hmem => hx.2.2 (hkept x hx.2.1 hmem).1⟩
  · intro hback
    have hmissing : low' ∈ s.missing level (level low') := by
      simp only [State.missing, Finset.mem_filter, true_and]
      exact ⟨s'.fresh_scope _ hfresh', fun hmem => (hkept low' rfl hmem).2 hfresh'⟩
    have hmissing' := hback hmissing
    simp only [State.missing, Finset.mem_filter] at hmissing'
    exact hmissing'.2.2 (s'.fresh_present hfresh')

end Levels

theorem rank_lt (h : Round level stale s s') (hfresh : s.fresh.Nonempty)
    (hfresh' : s'.fresh.Nonempty) : s'.rank level stale < s.rank level stale := by
  rw [State.rank, State.rank, Prod.Lex.toLex_lt_toLex]
  by_cases hwithdrawn : ∃ y ∈ s.present, y ∈ scope ∧ y ∈ stale ∧ y ∉ s'.kept
  · obtain ⟨y, hy, hscope, hstale, hkept⟩ := hwithdrawn
    exact .inl (h.staleLeft_lt hy hscope hstale hkept)
  · have hcause : ∀ x ∈ s.present, x ∉ s'.kept → ∃ y ∈ s.fresh, level y < level x :=
      fun x hx hno => (h.cause x hx hno).resolve_left hwithdrawn
    obtain ⟨low, hlowmem, hlow⟩ := State.exists_lowest level hfresh
    obtain ⟨low', hlowmem', hlow'⟩ := State.exists_lowest level hfresh'
    have hbound' : level low' ≤ scope.sup level := Finset.le_sup (s'.fresh_scope _ hlowmem')
    have hdeficit (n : ℕ) (hn : n ≤ level low) : s.deficit level n = (s.missing level n).card := by
      rw [State.deficit, if_pos fun x hx => hn.trans (hlow x hx)]
    have hdeficit' (n : ℕ) (hn : n ≤ level low') :
        s'.deficit level n = (s'.missing level n).card := by
      rw [State.deficit, if_pos fun x hx => hn.trans (hlow' x hx)]
    have hsame (n : ℕ) (hn : n ≤ level low) (hn' : n < level low') :
        s'.deficit level n = s.deficit level n := by
      rw [hdeficit n hn, hdeficit' n hn'.le, h.missing_eq hcause hlow hlow' hn hn']
    rcases (h.staleLeft_subset.eq_or_ssubset) with heq | hlt
    · refine .inr ⟨congrArg Finset.card heq, ?_⟩
      by_cases hle : level low' ≤ level low
      · refine ⟨⟨level low', by omega⟩, fun n hn => ?_, ?_⟩
        · have hn' : (n : ℕ) < level low' := hn
          exact hsame n (by omega) hn'
        · change s'.deficit level (level low') < s.deficit level (level low')
          rw [hdeficit _ hle, hdeficit' _ le_rfl]
          exact missing_lt hcause hlow hlowmem' hle
      · refine ⟨⟨level low + 1, by omega⟩, fun n hn => ?_, ?_⟩
        · have hn' : (n : ℕ) < level low + 1 := hn
          exact hsame n (by omega) (by omega)
        · change s'.deficit level (level low + 1) < s.deficit level (level low + 1)
          have htop : s.deficit level (level low + 1) = scope.card + 1 := by
            rw [State.deficit, if_neg]
            intro hall
            have hself := hall low hlowmem
            omega
          rw [htop, hdeficit' _ (by omega), Nat.lt_succ_iff]
          exact Finset.card_le_card (s'.missing_subset level _)
    · exact .inl (Finset.card_lt_card hlt)

end Round

theorem wellFounded_round (level : α → ℕ) (stale : Set α) :
    WellFounded fun s' s : State scope =>
      Round level stale s s' ∧ s.fresh.Nonempty ∧ s'.fresh.Nonempty := by
  have hrank : WellFounded fun s' s : State scope => s'.rank level stale < s.rank level stale :=
    InvImage.wf _ wellFounded_lt
  exact hrank.mono fun s' s ⟨h, hfresh, hfresh'⟩ => h.rank_lt hfresh hfresh'

end RdfDatalog.LeveledRounds
