import RdfDatalog.Store.QuadTable

namespace RdfDatalog

open BucketIndex

/-- Which quad sits at which position. -/
abbrev Placement := QuadListIndex → Quad → Prop

namespace Placement

variable {κ μ : Type} [DecidableEq κ] [DecidableEq μ]

def Functional (At : Placement) : Prop := ∀ i q r, At i q → At i r → q = r

def added (At : Placement) (i : QuadListIndex) (quad : Quad) : Placement :=
  fun j q => At j q ∨ (j = i ∧ q = quad)

def dropped (At : Placement) (i : QuadListIndex) (quad : Quad) : Placement :=
  fun j q => At j q ∧ ¬ (j = i ∧ q = quad)

/-- The positions of the quads with key `k`. -/
def keyed (At : Placement) (f : Quad → κ) : κ → QuadListIndex → Prop :=
  fun k i => ∃ q, At i q ∧ f q = k

def keyed₂ (At : Placement) (f : Quad → κ) (g : Quad → μ) : κ → μ → QuadListIndex → Prop :=
  fun k j i => ∃ q, At i q ∧ f q = k ∧ g q = j

theorem Functional.dropped {At : Placement} (h : At.Functional) (i : QuadListIndex)
    (quad : Quad) : (At.dropped i quad).Functional :=
  fun j q r hq hr => h j q r hq.1 hr.1

theorem not_dropped {At : Placement} (h : At.Functional) {i : QuadListIndex} {quad : Quad}
    (hAt : At i quad) (q : Quad) : ¬ At.dropped i quad i q :=
  fun hq => hq.2 ⟨rfl, h i q quad hq.1 hAt⟩

theorem moved_positions {At : Placement} {last : QuadListIndex} {moved : Quad}
    (hlast : At last moved) (i : QuadListIndex) (q : Quad) :
    (∃ j, (At.dropped last moved).added i moved j q) ↔ ∃ j, At j q := by
  constructor
  · intro ⟨j, hj⟩
    cases hj with
    | inl hj => exact ⟨j, hj.1⟩
    | inr hj => exact ⟨last, hj.2 ▸ hlast⟩
  · intro ⟨j, hj⟩
    by_cases hq : j = last ∧ q = moved
    · exact ⟨i, Or.inr ⟨rfl, hq.2⟩⟩
    · exact ⟨j, Or.inl ⟨hj, hq⟩⟩

omit [DecidableEq κ] in
theorem keyed_added (At : Placement) (f : Quad → κ) (i : QuadListIndex) (quad : Quad)
    (k : κ) (j : QuadListIndex) :
    (At.added i quad).keyed f k j ↔ At.keyed f k j ∨ (k = f quad ∧ j = i) := by
  constructor
  · rintro ⟨q, hq | ⟨rfl, rfl⟩, rfl⟩
    · exact Or.inl ⟨q, hq, rfl⟩
    · exact Or.inr ⟨rfl, rfl⟩
  · rintro (⟨q, hq, rfl⟩ | ⟨rfl, rfl⟩)
    · exact ⟨q, Or.inl hq, rfl⟩
    · exact ⟨quad, Or.inr ⟨rfl, rfl⟩, rfl⟩

omit [DecidableEq κ] in
theorem keyed_dropped {At : Placement} (h : At.Functional) (f : Quad → κ) {i : QuadListIndex}
    {quad : Quad} (hAt : At i quad) (k : κ) (j : QuadListIndex) :
    (At.dropped i quad).keyed f k j ↔ At.keyed f k j ∧ ¬ (k = f quad ∧ j = i) := by
  constructor
  · rintro ⟨q, hq, rfl⟩
    refine ⟨⟨q, hq.1, rfl⟩, ?_⟩
    rintro ⟨-, rfl⟩
    exact not_dropped h hAt q hq
  · rintro ⟨⟨q, hq, rfl⟩, hne⟩
    refine ⟨q, ⟨hq, ?_⟩, rfl⟩
    rintro ⟨rfl, rfl⟩
    exact hne ⟨rfl, rfl⟩

omit [DecidableEq κ] [DecidableEq μ] in
theorem keyed₂_iff (At : Placement) (f : Quad → κ) (g : Quad → μ) (k : κ) (l : μ)
    (j : QuadListIndex) : At.keyed₂ f g k l j ↔ At.keyed (fun q => (f q, g q)) (k, l) j := by
  simp [keyed₂, keyed]

end Placement

open Placement

section Buckets

variable {κ μ : Type} [DecidableEq κ] [DecidableEq μ] {At : Placement} {f : Quad → κ}
  {g : Quad → μ}

variable {m : Flat κ QuadListIndex} {i : QuadListIndex} {quad : Quad}

theorem flat_push (h : m.Exact (At.keyed f)) (hi : ∀ q, ¬ At i q) (quad : Quad) :
    Flat.Exact (m.push (f quad) i) ((At.added i quad).keyed f) := by
  have hnew : ¬ At.keyed f (f quad) i := fun ⟨q, hq, _⟩ => hi q hq
  exact (h.push hnew).congr fun k j => (keyed_added At f i quad k j).symm

theorem flat_remove (h : m.Exact (At.keyed f)) (hfun : At.Functional) (hAt : At i quad) :
    Flat.Exact (m.remove (f quad) i) ((At.dropped i quad).keyed f) :=
  (h.remove (f quad) i).congr fun k j => (keyed_dropped hfun f hAt k j).symm

theorem flat_relocate (h : m.Exact (At.keyed f)) (hfun : At.Functional) {last : QuadListIndex}
    (hAt : At last quad) (hi : ∀ q, ¬ At i q) :
    Flat.Exact (m.relocate (f quad) last i) (((At.dropped last quad).added i quad).keyed f) := by
  have hnew : ¬ At.keyed f (f quad) i := fun ⟨q, hq, _⟩ => hi q hq
  refine (h.relocate ⟨quad, hAt, rfl⟩ hnew).congr fun k j => ?_
  rw [keyed_added, keyed_dropped hfun f hAt]

theorem nested_push {m : Nested κ μ QuadListIndex} (h : m.Exact (At.keyed₂ f g))
    (hi : ∀ q, ¬ At i q) (quad : Quad) :
    Nested.Exact (m.push (f quad) (g quad) i) ((At.added i quad).keyed₂ f g) := by
  have hnew : ¬ At.keyed₂ f g (f quad) (g quad) i := fun ⟨q, hq, _⟩ => hi q hq
  refine (h.push hnew).congr fun k l j => ?_
  rw [keyed₂_iff, keyed₂_iff, keyed_added, Prod.mk.injEq, and_assoc]

theorem nested_remove {m : Nested κ μ QuadListIndex} (h : m.Exact (At.keyed₂ f g))
    (hfun : At.Functional) (hAt : At i quad) :
    Nested.Exact (m.remove (f quad) (g quad) i) ((At.dropped i quad).keyed₂ f g) := by
  refine (h.remove (f quad) (g quad) i).congr fun k l j => ?_
  rw [keyed₂_iff, keyed₂_iff, keyed_dropped hfun _ hAt, Prod.mk.injEq, and_assoc]

theorem nested_relocate {m : Nested κ μ QuadListIndex} (h : m.Exact (At.keyed₂ f g))
    (hfun : At.Functional) {last : QuadListIndex} (hAt : At last quad) (hi : ∀ q, ¬ At i q) :
    Nested.Exact (m.relocate (f quad) (g quad) last i)
      (((At.dropped last quad).added i quad).keyed₂ f g) := by
  have hnew : ¬ At.keyed₂ f g (f quad) (g quad) i := fun ⟨q, hq, _⟩ => hi q hq
  refine (h.relocate ⟨quad, hAt, rfl, rfl⟩ hnew).congr fun k l j => ?_
  rw [keyed₂_iff, keyed₂_iff, keyed_added, keyed_dropped hfun _ hAt]
  simp only [Prod.mk.injEq, and_assoc]

end Buckets

namespace QuadTable

/-- The five indexes of the table hold exactly the quads placed by `At`. -/
structure Indexed (t : QuadTable) (At : Placement) : Prop where
  functional : At.Functional
  fourKeys : ∀ q i, t.fourKeysIndex.lookup q = some i ↔ At i q
  tripleId : t.tripleIdIndex.Exact (At.keyed Quad.tripleId)
  predicate : t.predicateIndex.Exact (At.keyed Quad.predicate)
  subjectPredicate :
    t.subjectPredicateIndex.Exact (At.keyed₂ Quad.subject Quad.predicate)
  objectPredicate : t.objectPredicateIndex.Exact (At.keyed₂ Quad.obj Quad.predicate)

/-- Position `i` of the quad list holds `q`. -/
def Listed (t : QuadTable) : Placement := fun i q => t.quadList[i]? = some q

/-- The representation invariant. -/
structure WellFormed (t : QuadTable) : Prop where
  count : t.quadCount = t.quadList.length
  nodup : t.quadList.Nodup
  indexed : t.Indexed t.Listed
  intensional : ∀ q ∈ t.intensionalQuads, q ∈ t.quadList

variable {t : QuadTable} {At : Placement} {target : Quad}

theorem Indexed.congr {At' : Placement} (h : t.Indexed At) (hAt : ∀ i q, At i q ↔ At' i q) :
    t.Indexed At' := by
  obtain rfl : At = At' := funext₂ fun i q => propext (hAt i q)
  exact h

theorem Indexed.injective (h : t.Indexed At) {i j q} (hi : At i q) (hj : At j q) : i = j := by
  have hi' := (h.fourKeys q i).mpr hi
  have hj' := (h.fourKeys q j).mpr hj
  exact Option.some.inj (hi'.symm.trans hj')

theorem Indexed.linkQuad (h : t.Indexed At) {quad : Quad} {i : QuadListIndex} (hi : ∀ q, ¬ At i q)
    (hquad : ∀ j, ¬ At j quad) :
    (t.linkQuad quad i).Indexed (At.added i quad) where
  functional := by
    rintro j q r (hq | ⟨rfl, rfl⟩) (hr | ⟨hj, rfl⟩)
    · exact h.functional j q r hq hr
    · exact absurd (hj ▸ hq) (hi q)
    · exact absurd hr (hi r)
    · rfl
  fourKeys q j := by
    change (t.fourKeysIndex.insert quad i).lookup q = some j ↔ _
    by_cases hq : q = quad
    · subst hq
      rw [AList.lookup_insert, Option.some.injEq]
      constructor
      · rintro rfl; exact Or.inr ⟨rfl, rfl⟩
      · rintro (hj | ⟨rfl, -⟩)
        · exact absurd hj (hquad j)
        · rfl
    · rw [AList.lookup_insert_ne hq, h.fourKeys]
      simp [added, hq]
  tripleId := flat_push h.tripleId hi quad
  predicate := flat_push h.predicate hi quad
  subjectPredicate := nested_push h.subjectPredicate hi quad
  objectPredicate := nested_push h.objectPredicate hi quad

theorem Indexed.unlinkQuad (h : t.Indexed At) {i : QuadListIndex} (hi : At i target) :
    (t.unlinkQuad target i).Indexed (At.dropped i target) where
  functional := h.functional.dropped i target
  fourKeys q j := by
    change (t.fourKeysIndex.erase target).lookup q = some j ↔ _
    by_cases hq : q = target
    · subst hq
      rw [AList.lookup_erase]
      simp only [reduceCtorEq, false_iff]
      rintro ⟨hj, hne⟩
      exact hne ⟨h.injective hj hi, rfl⟩
    · rw [AList.lookup_erase_ne hq, h.fourKeys]
      simp [dropped, hq]
  tripleId := flat_remove h.tripleId h.functional hi
  predicate := flat_remove h.predicate h.functional hi
  subjectPredicate := nested_remove h.subjectPredicate h.functional hi
  objectPredicate := nested_remove h.objectPredicate h.functional hi

theorem Indexed.moveQuad (h : t.Indexed At) {moved : Quad} {last target : QuadListIndex}
    (hl : At last moved) (ht : ∀ q, ¬ At target q) :
    (t.moveQuad moved last target).Indexed ((At.dropped last moved).added target moved) where
  functional := by
    rintro j q r (hq | ⟨rfl, rfl⟩) (hr | ⟨hj, rfl⟩)
    · exact h.functional.dropped last moved j q r hq hr
    · exact absurd (hj ▸ hq.1) (ht q)
    · exact absurd hr.1 (ht r)
    · rfl
  fourKeys q j := by
    change (t.fourKeysIndex.insert moved target).lookup q = some j ↔ _
    by_cases hq : q = moved
    · subst hq
      rw [AList.lookup_insert, Option.some.injEq]
      constructor
      · rintro rfl; exact Or.inr ⟨rfl, rfl⟩
      · rintro (hj | ⟨rfl, -⟩)
        · exact absurd ⟨h.injective hj.1 hl, rfl⟩ hj.2
        · rfl
    · rw [AList.lookup_insert_ne hq, h.fourKeys]
      simp [added, dropped, hq]
  tripleId := flat_relocate h.tripleId h.functional hl ht
  predicate := flat_relocate h.predicate h.functional hl ht
  subjectPredicate := nested_relocate h.subjectPredicate h.functional hl ht
  objectPredicate := nested_relocate h.objectPredicate h.functional hl ht

variable (h : t.WellFormed)

include h in
theorem WellFormed.contains_iff (q : Quad) :
    t.contains q ↔ q ∈ t.quadList := by
  rw [contains, Option.isSome_iff_exists, List.mem_iff_getElem?]
  exact exists_congr fun i => h.indexed.fourKeys q i

theorem wellFormed_new : new.WellFormed where
  count := rfl
  nodup := List.nodup_nil
  intensional := by simp [new]
  indexed :=
    { functional := by simp [Functional, Listed, new]
      fourKeys := by simp [Listed, new]
      tripleId := Flat.exact_empty.congr (by simp [keyed, Listed, new])
      predicate := Flat.exact_empty.congr (by simp [keyed, Listed, new])
      subjectPredicate := Nested.exact_empty.congr (by simp [keyed₂, Listed, new])
      objectPredicate := Nested.exact_empty.congr (by simp [keyed₂, Listed, new]) }

theorem addQuad_quadList (t : QuadTable) (quad : Quad) :
    (t.addQuad quad).quadList =
      if t.contains quad then t.quadList else t.quadList ++ [quad] := by
  unfold addQuad
  split_ifs <;> rfl

theorem addQuad_intensionalQuads (t : QuadTable) (quad : Quad) :
    (t.addQuad quad).intensionalQuads = t.intensionalQuads := by
  unfold addQuad
  split_ifs <;> rfl

include h

theorem WellFormed.addQuad (quad : Quad) :
    (t.addQuad quad).WellFormed := by
  unfold QuadTable.addQuad
  split_ifs with hc
  · exact h
  · have hnew : quad ∉ t.quadList := fun hm => hc ((h.contains_iff quad).mpr hm)
    have hfree (q : Quad) : ¬ t.Listed t.quadCount q := by
      simp [Listed, h.count]
    have hquad (j : Nat) : ¬ t.Listed j quad := fun hj =>
      hnew (List.mem_of_getElem? hj)
    constructor
    · simp [linkQuad, addSubjectPredicateIndex, addObjectPredicateIndex, addPredicateIndex,
        addTripleIdIndex, h.count]
    · exact List.nodup_append.mpr ⟨h.nodup, by simp, by
        intro a ha b hb hab
        obtain rfl : b = quad := by simpa using hb
        exact hnew (hab ▸ ha)⟩
    · have hlink := h.indexed.linkQuad hfree hquad
      have hlisted (i : Nat) (q : Quad) :
          t.Listed.added t.quadCount quad i q ↔ (t.quadList ++ [quad])[i]? = some q := by
        rw [getElem?_concat_eq_some, ← h.count]; rfl
      have hfinal := hlink.congr hlisted
      exact ⟨hfinal.1, hfinal.2, hfinal.3, hfinal.4, hfinal.5, hfinal.6⟩
    · intro q hq
      exact List.mem_append_left _ (h.intensional q hq)

theorem WellFormed.mem_addQuad (quad q : Quad) :
    q ∈ (t.addQuad quad).quadList ↔ q ∈ t.quadList ∨ q = quad := by
  rw [addQuad_quadList]
  split_ifs with hc
  · have hm := (h.contains_iff quad).mp hc
    constructor
    · exact Or.inl
    · rintro (hq | rfl)
      · exact hq
      · exact hm
  · simp

theorem WellFormed.addIntensionalQuad (quad : Quad) :
    (t.addIntensionalQuad quad).WellFormed := by
  have hadd := h.addQuad quad
  unfold QuadTable.addIntensionalQuad
  simp only
  split_ifs
  · exact hadd
  · refine ⟨hadd.count, hadd.nodup, ?_, ?_⟩
    · exact ⟨hadd.indexed.1, hadd.indexed.2, hadd.indexed.3, hadd.indexed.4, hadd.indexed.5,
        hadd.indexed.6⟩
    · intro q hq
      rcases Finset.mem_insert.mp hq with rfl | hq
      · exact (h.mem_addQuad q q).mpr (Or.inr rfl)
      · exact hadd.intensional q hq

omit h

private theorem listed_dropLast (l : List Quad) (i : Nat) (q : Quad) :
    l.dropLast[i]? = some q ↔ l[i]? = some q ∧ i ≠ l.length - 1 := by
  rw [List.getElem?_dropLast]
  split_ifs with hi
  · have hne : i ≠ l.length - 1 := Nat.ne_of_lt hi
    simp [hne]
  · simp only [false_iff, not_and, not_not]
    intro h
    obtain ⟨hlt, -⟩ := List.getElem?_eq_some_iff.mp h
    omega

private theorem listed_dropped_last {l : List Quad} {target : Quad}
    (ht : l[l.length - 1]? = some target) (i : Nat) (q : Quad) :
    (l[i]? = some q ∧ ¬ (i = l.length - 1 ∧ q = target)) ↔ l.dropLast[i]? = some q := by
  rw [listed_dropLast]
  refine and_congr_right fun hi => not_congr ⟨And.left, fun h => ⟨h, ?_⟩⟩
  rw [h, ht] at hi
  exact (Option.some.inj hi).symm

private theorem listed_moved {l : List Quad} {target moved : Quad} {k : Nat}
    (ht : l[k]? = some target) (hm : l[l.length - 1]? = some moved) (hk : k ≠ l.length - 1)
    (i : Nat) (q : Quad) :
    (((l[i]? = some q ∧ ¬ (i = k ∧ q = target)) ∧ ¬ (i = l.length - 1 ∧ q = moved)) ∨
        (i = k ∧ q = moved)) ↔
      (l.set k moved).dropLast[i]? = some q := by
  obtain ⟨hlt, -⟩ := List.getElem?_eq_some_iff.mp ht
  rw [listed_dropLast, List.length_set, List.getElem?_set]
  by_cases hik : i = k
  · subst hik
    simp only [hlt, hk, if_true, Option.some.injEq, true_and, ne_eq, not_false_eq_true, and_true,
      false_and]
    constructor
    · intro h
      cases h with
      | inl h =>
        have hq : q = target := Option.some.inj (h.1.symm.trans ht)
        exact absurd hq h.2
      | inr h => exact h.symm
    · intro h
      exact Or.inr h.symm
  · have hki : ¬ k = i := fun h => hik h.symm
    simp only [hik, hki, if_false, false_and, not_false_eq_true, and_true, or_false, ne_eq]
    refine and_congr_right fun hi => not_congr ⟨And.left, fun h => ⟨h, ?_⟩⟩
    rw [h, hm] at hi
    exact (Option.some.inj hi).symm

private theorem wellFormed_of_dropped {t t' : QuadTable} {target : Quad} (h : t.WellFormed)
    (hcount : t'.quadCount = t.quadCount - 1)
    (hlen : t'.quadList.length = t.quadList.length - 1)
    (hindexed : t'.Indexed t'.Listed)
    (hmem : ∀ q, q ∈ t'.quadList ↔ q ∈ t.quadList ∧ q ≠ target)
    (hint : t'.intensionalQuads = t.intensionalQuads.erase target) : t'.WellFormed := by
  refine ⟨by rw [hcount, hlen, h.count], ?_, hindexed, ?_⟩
  · rw [List.nodup_iff_injective_getElem]
    intro i j hij
    apply Fin.ext
    have hi : t'.Listed i (t'.quadList[i]) := List.getElem?_eq_getElem i.2
    have hj : t'.Listed j (t'.quadList[j]) := List.getElem?_eq_getElem j.2
    have heq : t'.quadList[i] = t'.quadList[j] := hij
    rw [← heq] at hj
    exact hindexed.injective hi hj
  · intro q hq
    rw [hint] at hq
    obtain ⟨hne, hq⟩ := Finset.mem_erase.mp hq
    exact (hmem q).mpr ⟨h.intensional q hq, hne⟩

private theorem mem_of_listed_iff {t t' : QuadTable} (h : t.WellFormed) {target : Quad} {k : Nat}
    (hk : t.Listed k target)
    (hmem : ∀ q, (∃ i, t'.Listed i q) ↔ ∃ i, t.Listed.dropped k target i q) (q : Quad) :
    q ∈ t'.quadList ↔ q ∈ t.quadList ∧ q ≠ target := by
  rw [List.mem_iff_getElem?, List.mem_iff_getElem?]
  refine (hmem q).trans ?_
  constructor
  · intro ⟨i, hi, hne⟩
    refine ⟨⟨i, hi⟩, ?_⟩
    intro hq
    subst hq
    exact hne ⟨h.indexed.injective hi hk, rfl⟩
  · intro ⟨⟨i, hi⟩, hne⟩
    exact ⟨i, hi, fun h => hne h.2⟩

theorem removeQuad_absent (hl : t.fourKeysIndex.lookup target = none) :
    t.removeQuad target = t := by
  unfold removeQuad
  rw [hl]

theorem removeQuad_last (hl : t.fourKeysIndex.lookup target = some (t.quadCount - 1)) :
    t.removeQuad target = (t.unlinkQuad target (t.quadCount - 1)).popLast := by
  unfold removeQuad
  rw [hl]
  exact if_pos rfl

theorem removeQuad_moved {moved : Quad} {k : Nat} (hl : t.fourKeysIndex.lookup target = some k)
    (hk : k ≠ t.quadCount - 1) (hm : t.Listed (t.quadCount - 1) moved) :
    t.removeQuad target =
      ((t.unlinkQuad target k).moveQuad moved (t.quadCount - 1) k).popLast := by
  have hm' : (t.unlinkQuad target k).quadList[(t.unlinkQuad target k).quadCount - 1]? =
    some moved := hm
  unfold removeQuad
  rw [hl]
  simp only
  rw [hm']
  exact if_neg hk

include h

/-- What `removeQuad` does: the invariant holds, the quad and its derived flag are gone, and
every other quad stays. -/
theorem WellFormed.removeQuad_spec (target : Quad) :
    (t.removeQuad target).WellFormed ∧
      (∀ q, q ∈ (t.removeQuad target).quadList ↔ q ∈ t.quadList ∧ q ≠ target) ∧
      (t.removeQuad target).intensionalQuads = t.intensionalQuads.erase target := by
  cases hl : t.fourKeysIndex.lookup target with
  | none =>
    have hnot : target ∉ t.quadList := by
      intro hm
      have hc := (h.contains_iff target).mpr hm
      simp [contains, hl] at hc
    rw [removeQuad_absent hl]
    refine ⟨h, ?_, ?_⟩
    · intro q
      refine ⟨fun hq => ⟨hq, ?_⟩, And.left⟩
      intro he
      exact hnot (he ▸ hq)
    · exact (Finset.erase_eq_of_notMem fun hm => hnot (h.intensional target hm)).symm
  | some k =>
    have hk : t.Listed k target := (h.indexed.fourKeys target k).mp hl
    have hunlink := h.indexed.unlinkQuad hk
    obtain ⟨moved, hmoved⟩ : ∃ moved, t.Listed (t.quadCount - 1) moved := by
      obtain ⟨hlt, -⟩ := List.getElem?_eq_some_iff.mp hk
      have hlast : t.quadCount - 1 < t.quadList.length := by
        have hc := h.count
        omega
      exact ⟨_, List.getElem?_eq_getElem hlast⟩
    by_cases hlast : k = t.quadCount - 1
    · subst hlast
      rw [removeQuad_last hl]
      generalize hfin : (t.unlinkQuad target (t.quadCount - 1)).popLast = t'
      have hlist : t'.quadList = t.quadList.dropLast := by rw [← hfin]; rfl
      have hlisted (i : Nat) (q : Quad) :
          t.Listed.dropped (t.quadCount - 1) target i q ↔ t'.Listed i q := by
        rw [Listed, hlist, ← listed_dropped_last (h.count ▸ hk), ← h.count]; rfl
      have hindexed : t'.Indexed t'.Listed := by
        have hfinal := hunlink.congr hlisted
        rw [← hfin] at hfinal ⊢
        exact ⟨hfinal.1, hfinal.2, hfinal.3, hfinal.4, hfinal.5, hfinal.6⟩
      have hspec := mem_of_listed_iff h hk fun q => exists_congr fun i => (hlisted i q).symm
      have hint : t'.intensionalQuads = t.intensionalQuads.erase target := by rw [← hfin]; rfl
      refine ⟨wellFormed_of_dropped h ?_ ?_ hindexed hspec hint, hspec, hint⟩
      · rw [← hfin]; rfl
      · rw [hlist, List.length_dropLast]
    · rw [removeQuad_moved hl hlast hmoved]
      generalize hfin : ((t.unlinkQuad target k).moveQuad moved (t.quadCount - 1) k).popLast = t'
      have hlist : t'.quadList = (t.quadList.set k moved).dropLast := by rw [← hfin]; rfl
      have hmlisted : t.Listed.dropped k target (t.quadCount - 1) moved :=
        ⟨hmoved, fun he => hlast he.1.symm⟩
      have hmove := hunlink.moveQuad hmlisted (not_dropped h.indexed.functional hk)
      have hlisted (i : Nat) (q : Quad) :
          ((t.Listed.dropped k target).dropped (t.quadCount - 1) moved).added k moved i q ↔
            t'.Listed i q := by
        rw [Listed, hlist, ← listed_moved hk (h.count ▸ hmoved) (h.count ▸ hlast), ← h.count]
        rfl
      have hindexed : t'.Indexed t'.Listed := by
        have hfinal := hmove.congr hlisted
        rw [← hfin] at hfinal ⊢
        exact ⟨hfinal.1, hfinal.2, hfinal.3, hfinal.4, hfinal.5, hfinal.6⟩
      have hspec := mem_of_listed_iff h hk fun q =>
        (exists_congr fun i => (hlisted i q).symm).trans (moved_positions hmlisted k q)
      have hint : t'.intensionalQuads = t.intensionalQuads.erase target := by rw [← hfin]; rfl
      refine ⟨wellFormed_of_dropped h ?_ ?_ hindexed hspec hint, hspec, hint⟩
      · rw [← hfin]; rfl
      · rw [hlist, List.length_dropLast, List.length_set]

theorem WellFormed.removeQuad (target : Quad) :
    (t.removeQuad target).WellFormed :=
  (h.removeQuad_spec target).1

theorem foldl_addQuad_wellFormed (kept : List Quad) :
    (kept.foldl QuadTable.addQuad t).WellFormed := by
  induction kept generalizing t with
  | nil => exact h
  | cons q kept ih => exact ih (h.addQuad q)

theorem foldl_addQuad_quadList {kept : List Quad}
    (hnd : (t.quadList ++ kept).Nodup) :
    (kept.foldl QuadTable.addQuad t).quadList = t.quadList ++ kept := by
  induction kept generalizing t with
  | nil => simp
  | cons q kept ih =>
    have hq : ¬ t.contains q := by
      rw [h.contains_iff]
      intro hm
      exact (List.nodup_append.mp hnd).2.2 q hm q List.mem_cons_self rfl
    have hadd : (t.addQuad q).quadList = t.quadList ++ [q] := by
      rw [addQuad_quadList, if_neg hq]
    rw [List.foldl_cons, ih (h.addQuad q) (by rw [hadd]; simpa using hnd), hadd]
    simp

omit h

theorem rebuild_spec (t : QuadTable) {kept : List Quad} (hnd : kept.Nodup) :
    (t.rebuild kept).WellFormed ∧ (t.rebuild kept).quadList = kept := by
  have hlist : (kept.foldl QuadTable.addQuad new).quadList = kept :=
    foldl_addQuad_quadList wellFormed_new hnd
  have h := foldl_addQuad_wellFormed wellFormed_new kept
  refine ⟨⟨h.count, h.nodup, ?_, ?_⟩, hlist⟩
  · exact ⟨h.indexed.1, h.indexed.2, h.indexed.3, h.indexed.4, h.indexed.5, h.indexed.6⟩
  · intro q hq
    have hk : q ∈ kept := List.mem_toFinset.mp (Finset.mem_filter.mp hq).1
    change q ∈ (kept.foldl QuadTable.addQuad new).quadList
    rw [hlist]
    exact hk

include h

theorem WellFormed.truncateTo (len : Nat) :
    (t.truncateTo len).WellFormed := by
  unfold QuadTable.truncateTo
  split_ifs
  · exact h
  · exact (t.rebuild_spec (h.nodup.sublist (List.take_sublist len _))).1

theorem WellFormed.removeGraph (graphId : GraphElementId) :
    (t.removeGraph graphId).WellFormed := by
  unfold QuadTable.removeGraph
  split_ifs
  · exact (t.rebuild_spec (h.nodup.filter _)).1
  · exact h

omit h

end QuadTable

end RdfDatalog
