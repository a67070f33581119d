import Mathlib.Order.WellFounded
import Mathlib.Data.Set.Finite.Basic
import Mathlib.Data.List.AList

/-!
Walks along a partial function.
-/

namespace RdfDatalog.LinkedWalk

variable {α : Type} (next : α → Option α)

/-- The element after `n` steps, if the walk gets that far. -/
def walk : Nat → α → Option α
  | 0, x => some x
  | n + 1, x => (next x).bind (walk n)

/-- The walk comes back to an element. -/
def Loops (x : α) : Prop := ∃ i k y, walk next i x = some y ∧ walk next (k + 1) y = some y

variable {next}

theorem walk_add (m n : Nat) (x : α) :
    walk next (m + n) x = (walk next m x).bind (walk next n) := by
  induction m generalizing x with
  | zero => rw [Nat.zero_add, walk, Option.bind_some]
  | succ m ih =>
    rw [Nat.succ_add, walk, walk]
    cases next x with
    | none => rfl
    | some y => exact ih y

theorem walk_eq_none_of_le {m n : Nat} {x : α} (h : walk next m x = none) (hle : m ≤ n) :
    walk next n x = none := by
  obtain ⟨k, rfl⟩ := Nat.exists_eq_add_of_le hle
  rw [walk_add, h, Option.bind_none]

theorem Loops.of_next {x y : α} (hxy : next x = some y) (h : Loops next x) : Loops next y := by
  obtain ⟨i, k, z, hi, hk⟩ := h
  cases i with
  | zero =>
    cases hi
    rw [walk, hxy, Option.bind_some] at hk
    refine ⟨k, k, x, hk, ?_⟩
    rw [walk, hxy, Option.bind_some, hk]
  | succ i =>
    rw [walk, hxy, Option.bind_some] at hi
    exact ⟨i, k, z, hi, hk⟩

theorem Loops.walk_ne_none {x : α} (h : Loops next x) (n : Nat) : walk next n x ≠ none := by
  induction n generalizing x with
  | zero => exact Option.some_ne_none x
  | succ n ih =>
    obtain ⟨i, k, z, hi, hk⟩ := id h
    have hnext : ∃ y, next x = some y := by
      cases hx : next x with
      | some y => exact ⟨y, rfl⟩
      | none =>
        cases i with
        | zero =>
          cases hi
          rw [walk, hx] at hk
          cases hk
        | succ i =>
          rw [walk, hx] at hi
          cases hi
    obtain ⟨y, hy⟩ := hnext
    rw [walk, hy, Option.bind_some]
    exact ih (h.of_next hy)

theorem walk_eq_none_of_not_loops {scope : Finset α} (hscope : ∀ x y, next x = some y → y ∈ scope)
    {x : α} (h : ¬ Loops next x) : walk next (scope.card + 1) x = none := by
  by_contra hsome
  have hstep (i : Nat) (hi : i ≤ scope.card) : ∃ y ∈ scope, walk next (i + 1) x = some y := by
    cases hwalk : walk next i x with
    | none => exact absurd (walk_eq_none_of_le hwalk (by omega)) hsome
    | some y =>
      have hadd : walk next (i + 1) x = next y := by
        rw [walk_add, hwalk, Option.bind_some, walk]
        cases next y <;> rfl
      cases hnext : next y with
      | none => exact absurd (walk_eq_none_of_le (hadd.trans hnext) (by omega)) hsome
      | some z => exact ⟨z, hscope y z hnext, hadd.trans hnext⟩
  have hmaps : ∀ i ∈ Finset.range (scope.card + 1), (walk next (i + 1) x).getD x ∈ scope := by
    intro i hi
    obtain ⟨y, hy, hwalk⟩ := hstep i (by simpa [Nat.lt_succ_iff] using hi)
    rw [hwalk]
    exact hy
  obtain ⟨i, hi, j, hj, hne, heq⟩ :=
    Finset.exists_ne_map_eq_of_card_lt_of_maps_to (by simp) hmaps
  wlog hlt : i < j generalizing i j
  · exact this j hj i hi hne.symm heq.symm (by omega)
  obtain ⟨y, _, hi⟩ := hstep i (by simpa [Nat.lt_succ_iff] using hi)
  obtain ⟨z, _, hj⟩ := hstep j (by simpa [Nat.lt_succ_iff] using hj)
  rw [hi, hj] at heq
  cases heq
  refine h ⟨i + 1, j - i - 1, y, hi, ?_⟩
  have hsplit : walk next (i + 1 + (j - i - 1 + 1)) x =
      (walk next (i + 1) x).bind (walk next (j - i - 1 + 1)) := walk_add _ _ x
  rw [hi, Option.bind_some] at hsplit
  rw [← hsplit, ← hj]
  congr 1
  omega

end RdfDatalog.LinkedWalk

namespace RdfDatalog.FinishingOrder

open Relation

variable {α : Type} {E : α → α → Prop}

/-- A finishing order of a depth-first search, latest first: every successor of an element was
finished before it. -/
inductive Finished (E : α → α → Prop) : List α → Prop
  | nil : Finished E []
  | cons {x : α} {D : List α} (hx : ∀ y, E x y → y ∈ D) (h : Finished E D) : Finished E (x :: D)

theorem Finished.closed {D : List α} (h : Finished E D) {x y : α} (hx : x ∈ D) (hxy : E x y) :
    y ∈ D := by
  induction h with
  | nil => cases hx
  | cons hsucc _ ih =>
    rcases List.mem_cons.mp hx with rfl | hx
    · exact .tail _ (hsucc y hxy)
    · exact .tail _ (ih hx)

theorem Finished.closed_trans {D : List α} (h : Finished E D) {x y : α} (hx : x ∈ D)
    (hxy : TransGen E x y) : y ∈ D := by
  induction hxy with
  | single hxy => exact h.closed hx hxy
  | tail _ hyz ih => exact h.closed ih hyz

theorem Finished.acyclic {D : List α} (h : Finished E D) {c : α} (hc : c ∈ D) :
    ¬ TransGen E c c := by
  induction h with
  | nil => cases hc
  | @cons x D hsucc hD ih =>
    intro hcycle
    rcases List.mem_cons.mp hc with rfl | hc
    · obtain ⟨y, hcy, hyc⟩ := TransGen.head'_iff.mp hcycle
      have hy : y ∈ D := hsucc y hcy
      have hcD : c ∈ D := by
        rcases reflTransGen_iff_eq_or_transGen.mp hyc with rfl | hyc
        · exact hy
        · exact hD.closed_trans hy hyc
      exact ih hcD hcycle
    · exact ih hc hcycle

theorem exists_cycle {C : Finset α} (hC : C.Nonempty) (hpred : ∀ j ∈ C, ∃ i ∈ C, E i j) :
    ∃ c ∈ C, TransGen E c c := by
  by_contra hno
  let R : {x // x ∈ C} → {x // x ∈ C} → Prop := fun a b => TransGen E a.1 b.1
  have htrans : IsTrans {x // x ∈ C} R := ⟨fun _ _ _ hab hbc => TransGen.trans hab hbc⟩
  have hirrefl : Std.Irrefl R := ⟨fun a ha => hno ⟨a.1, a.2, ha⟩⟩
  have hwf : WellFounded R := Finite.wellFounded_of_trans_of_irrefl R
  obtain ⟨x, hx⟩ := hC
  obtain ⟨m, -, hmin⟩ := hwf.has_min Set.univ ⟨⟨x, hx⟩, trivial⟩
  obtain ⟨i, hi, him⟩ := hpred m.1 m.2
  exact hmin ⟨i, hi⟩ trivial (.single him)

/-- Where each element has a predecessor, a cycle leads to each. -/
theorem exists_cycle_to {C : Finset α} (hpred : ∀ j ∈ C, ∃ i ∈ C, E i j) {j : α} (hj : j ∈ C) :
    ∃ c, TransGen E c c ∧ ReflTransGen E c j := by
  classical
  have hback : ∀ k ∈ C.filter (ReflTransGen E · j), ∃ i ∈ C.filter (ReflTransGen E · j), E i k := by
    intro k hk
    obtain ⟨hkC, hkj⟩ := Finset.mem_filter.mp hk
    obtain ⟨i, hi, hik⟩ := hpred k hkC
    exact ⟨i, Finset.mem_filter.mpr ⟨hi, .head hik hkj⟩, hik⟩
  obtain ⟨c, hc, hcycle⟩ := exists_cycle ⟨j, Finset.mem_filter.mpr ⟨hj, .refl⟩⟩ hback
  exact ⟨c, hcycle, (Finset.mem_filter.mp hc).2⟩

/-- A path that comes back to one of its elements leads to a cycle from each. -/
theorem transGen_of_isChain {l : List α} {y : α} (h : (l ++ [y]).IsChain E) :
    ∀ x ∈ l, TransGen E x y := by
  have hchain : (l ++ [y]).IsChain (TransGen E) := h.imp fun _ _ => .single
  have hpair := (List.isChain_iff_pairwise.mp hchain)
  exact fun x hx => (List.pairwise_append.mp hpair).2.2 x hx y (List.mem_singleton_self y)

end RdfDatalog.FinishingOrder

/-!
Depth-first search for a cycle, in a graph whose successors are computed by a program that may not
return.
-/

namespace RdfDatalog.CycleSearch

open FinishingOrder Relation

inductive VisitState where
  | inProgress
  | done
  deriving DecidableEq

variable {α : Type} [DecidableEq α]

abbrev Marks (α : Type) := AList (fun _ : α => VisitState)

section Search

/-- Visit elements until a cycle is found. -/
def visitAll (visit : α → Marks α → Option (Option (List α) × Marks α)) :
    List α → Marks α → Option (Option (List α) × Marks α)
  | [], marks => some (none, marks)
  | x :: xs, marks =>
    match visit x marks with
    | none => none
    | some (some cycle, marks) => some (some cycle, marks)
    | some (none, marks) => visitAll visit xs marks

/-- Search on from `x`, where `path` has led. -/
def visit (next : Nat → α → Option (List α)) :
    Nat → List α → α → Marks α → Option (Option (List α) × Marks α)
  | 0, _, _, _ => none
  | fuel + 1, path, x, marks =>
    match marks.lookup x with
    | some .done => some (none, marks)
    | some .inProgress => some (some (path.drop ((path.idxOf? x).getD 0) ++ [x]), marks)
    | none =>
      match next fuel x with
      | none => none
      | some found =>
        match visitAll (visit next fuel (path ++ [x])) found (marks.insert x .inProgress) with
        | none => none
        | some (some cycle, marks) => some (some cycle, marks)
        | some (none, marks) => some (none, marks.insert x .done)

def findCycle (next : Nat → α → Option (List α)) (fuel : Nat) (roots : List α) :
    Option (Option (List α)) :=
  (visitAll (visit next fuel []) roots ∅).map Prod.fst

end Search

variable (refs : α → List α)

/-- One element leads to the other. -/
def Edge (x y : α) : Prop := y ∈ refs x

def ReachesCycle (x : α) : Prop := ∃ c, ReflTransGen (Edge refs) x c ∧ TransGen (Edge refs) c c

/-- What the search comes to: it leaves out what stands behind an element with a cycle. -/
inductive Searched (roots : List α) : α → Prop
  | root {pre post : List α} {x : α} : roots = pre ++ x :: post →
    (∀ p ∈ pre, ¬ ReachesCycle refs p) → Searched roots x
  | step {pre post : List α} {x y : α} : Searched roots x → refs x = pre ++ y :: post →
    (∀ p ∈ pre, ¬ ReachesCycle refs p) → Searched roots y

variable {refs} {good : α → Prop}

omit [DecidableEq α] in
theorem ReachesCycle.head {x y : α} (hxy : Edge refs x y) (h : ReachesCycle refs y) :
    ReachesCycle refs x := by
  obtain ⟨c, hyc, hc⟩ := h
  exact ⟨c, .head hxy hyc, hc⟩

omit [DecidableEq α] in
theorem not_reachesCycle_of_finished {D : List α} (h : Finished (Edge refs) D) {x : α}
    (hx : x ∈ D) : ¬ ReachesCycle refs x := by
  intro ⟨c, hxc, hc⟩
  rcases reflTransGen_iff_eq_or_transGen.mp hxc with rfl | hxc
  · exact h.acyclic hx hc
  · exact h.acyclic (h.closed_trans hx hxc) hc

/-- The marks of a search in which no cycle was found yet. -/
structure Searching (refs : α → List α) (good : α → Prop) (path : List α) (marks : Marks α) :
    Prop where
  inProgress : ∀ x, marks.lookup x = some .inProgress ↔ x ∈ path
  good : ∀ x, marks.lookup x ≠ none → good x
  finished : ∃ D, Finished (Edge refs) D ∧ ∀ x, marks.lookup x = some .done ↔ x ∈ D

/-- The marks of a search that has found a cycle. -/
structure Found (refs : α → List α) (good : α → Prop) (path : List α) (marks : Marks α) :
    Prop where
  good : ∀ x, marks.lookup x ≠ none → good x
  explored : ∀ x, marks.lookup x ≠ none → x ∉ path → ∀ pre y post, refs x = pre ++ y :: post →
    (∀ p ∈ pre, ¬ ReachesCycle refs p) → marks.lookup y ≠ none

/-- Marks are added, and `done` stays. -/
structure Grows (marks marks' : Marks α) : Prop where
  marked : ∀ x, marks.lookup x ≠ none → marks'.lookup x ≠ none
  done : ∀ x, marks.lookup x = some .done → marks'.lookup x = some .done

theorem Grows.refl (marks : Marks α) : Grows marks marks := ⟨fun _ h => h, fun _ h => h⟩

variable {marks : Marks α} {path : List α}

theorem Grows.insert {x : α} {state : VisitState} (h : marks.lookup x = some .done →
    state = .done) :
    Grows marks (marks.insert x state) := by
  constructor
  all_goals
    intro y hy
    by_cases hyx : y = x
    · subst hyx
      simp_all
    · rwa [AList.lookup_insert_ne hyx]

theorem Grows.trans {marks' marks'' : Marks α} (h : Grows marks marks') (h' : Grows marks' marks'')
    : Grows marks marks'' :=
  ⟨fun x hx => h'.marked x (h.marked x hx), fun x hx => h'.done x (h.done x hx)⟩

/-- What a visit of one element does. -/
structure Visited (refs : α → List α) (good : α → Prop) (path : List α) (x : α)
    (marks : Marks α) (cycle : Option (List α)) (marks' : Marks α) : Prop where
  grows : Grows marks marks'
  quiet : cycle = none → Searching refs good path marks' ∧ marks'.lookup x = some .done
  found : cycle ≠ none → Found refs good path marks' ∧ marks'.lookup x ≠ none ∧ ReachesCycle refs x

theorem Searching.not_reachesCycle (h : Searching refs good path marks) {x : α}
    (hx : marks.lookup x = some .done) :
    ¬ ReachesCycle refs x := by
  obtain ⟨D, hD, hmem⟩ := h.finished
  exact not_reachesCycle_of_finished hD ((hmem x).mp hx)

structure VisitedAll (refs : α → List α) (good : α → Prop) (path xs : List α) (marks : Marks α)
    (cycle : Option (List α)) (marks' : Marks α) : Prop where
  grows : Grows marks marks'
  quiet : cycle = none → Searching refs good path marks' ∧ ∀ x ∈ xs, marks'.lookup x = some .done
  found : cycle ≠ none → Found refs good path marks' ∧ ∃ pre x post, xs = pre ++ x :: post ∧
    (∀ p ∈ pre, marks'.lookup p ≠ none) ∧ marks'.lookup x ≠ none ∧ ReachesCycle refs x

theorem visitAll_spec {visit : α → Marks α → Option (Option (List α) × Marks α)} {xs : List α}
    (hvisit : ∀ x ∈ xs, ∀ marks cycle marks', Searching refs good path marks → visit x marks = some
      (cycle, marks') → Visited refs good path x marks cycle marks') {marks' : Marks α}
    {cycle : Option (List α)} (h : Searching refs good path marks)
    (hrun : visitAll visit xs marks = some (cycle, marks')) :
    VisitedAll refs good path xs marks cycle marks' := by
  induction xs generalizing marks with
  | nil =>
    cases hrun
    exact ⟨.refl _, fun _ => ⟨h, nofun⟩, fun hne => absurd rfl hne⟩
  | cons x xs ih =>
    rw [List.forall_mem_cons] at hvisit
    rw [visitAll] at hrun
    cases hx : visit x marks with
    | none =>
      rw [hx] at hrun
      cases hrun
    | some result =>
      obtain ⟨found, marks₁⟩ := result
      have hfirst := hvisit.1 marks found marks₁ h hx
      rw [hx] at hrun
      cases found with
      | some c =>
        cases hrun
        obtain ⟨hfound, hmark, hcycle⟩ := hfirst.found (Option.some_ne_none c)
        refine ⟨hfirst.grows, nofun, fun _ => ⟨hfound, ?_⟩⟩
        exact ⟨[], x, xs, rfl, fun _ hp => (by cases hp), hmark, hcycle⟩
      | none =>
        obtain ⟨hsearching, hdone⟩ := hfirst.quiet rfl
        have hrest := ih hvisit.2 hsearching hrun
        refine ⟨hfirst.grows.trans hrest.grows, fun hnone => ?_, fun hsome => ?_⟩
        · obtain ⟨hlast, hall⟩ := hrest.quiet hnone
          exact ⟨hlast, List.forall_mem_cons.mpr ⟨hrest.grows.done x hdone, hall⟩⟩
        · obtain ⟨hfound, pre, y, post, rfl, hpre, hy, hcycle⟩ := hrest.found hsome
          refine ⟨hfound, x :: pre, y, post, rfl, ?_, hy, hcycle⟩
          have hmark : marks'.lookup x ≠ none := by
            rw [hrest.grows.done x hdone]
            exact Option.some_ne_none _
          exact List.forall_mem_cons.mpr ⟨hmark, hpre⟩

theorem Searching.enter (h : Searching refs good path marks) {x : α} (hx : marks.lookup x = none)
    (hgood : good x) :
    Searching refs good (path ++ [x]) (marks.insert x .inProgress) := by
  refine ⟨fun y => ?_, fun y hy => ?_, ?_⟩
  · by_cases hyx : y = x
    · subst hyx
      simp
    · rw [AList.lookup_insert_ne hyx, h.inProgress, List.mem_append, List.mem_singleton]
      exact (or_iff_left hyx).symm
  · by_cases hyx : y = x
    · subst hyx
      exact hgood
    · rw [AList.lookup_insert_ne hyx] at hy
      exact h.good y hy
  · obtain ⟨D, hD, hmem⟩ := h.finished
    refine ⟨D, hD, fun y => ?_⟩
    by_cases hyx : y = x
    · subst hyx
      rw [AList.lookup_insert, ← hmem, hx]
      simp
    · rw [AList.lookup_insert_ne hyx, hmem]

theorem Searching.leave {x : α} (h : Searching refs good (path ++ [x]) marks) (hx : x ∉ path)
    (hrefs : ∀ y ∈ refs x, marks.lookup y = some .done) :
    Searching refs good path (marks.insert x .done) := by
  refine ⟨fun y => ?_, fun y hy => ?_, ?_⟩
  · by_cases hyx : y = x
    · subst hyx
      rw [AList.lookup_insert]
      exact iff_of_false (by simp) hx
    · rw [AList.lookup_insert_ne hyx, h.inProgress, List.mem_append, List.mem_singleton]
      exact or_iff_left hyx
  · by_cases hyx : y = x
    · subst hyx
      exact h.good y (by rw [(h.inProgress y).mpr (by simp)]; simp)
    · rw [AList.lookup_insert_ne hyx] at hy
      exact h.good y hy
  · obtain ⟨D, hD, hmem⟩ := h.finished
    refine ⟨x :: D, .cons (fun y hy => (hmem y).mp (hrefs y hy)) hD, fun y => ?_⟩
    by_cases hyx : y = x
    · subst hyx
      simp
    · rw [AList.lookup_insert_ne hyx, hmem, List.mem_cons]
      exact (or_iff_right hyx).symm

theorem marked_of_split {xs pre pre' post post' : List α} {x y : α} (hxs : xs = pre ++ x :: post)
    (hpre : ∀ p ∈ pre, marks.lookup p ≠ none) (hx : marks.lookup x ≠ none)
    (hcycle : ReachesCycle refs x) (hxs' : xs = pre' ++ y :: post')
    (hpre' : ∀ p ∈ pre', ¬ ReachesCycle refs p) : marks.lookup y ≠ none := by
  rw [hxs] at hxs'
  rcases List.append_eq_append_iff.mp hxs' with ⟨tail, heq, htail⟩ | ⟨tail, heq, htail⟩
  · cases tail with
    | nil =>
      cases htail
      exact hx
    | cons t tail =>
      cases htail
      exact absurd hcycle (hpre' x (by simp [heq]))
  · cases tail with
    | nil =>
      cases htail
      exact hx
    | cons t tail =>
      cases htail
      exact hpre y (by simp [heq])

section Correct

variable {next : Nat → α → Option (List α)}

variable {fuel : Nat} {cycle : Option (List α)}

variable (hnext : ∀ fuel x found, next fuel x = some found → good x ∧ found = refs x)

theorem searching_nil : Searching refs good [] (∅ : Marks α) := by
  refine ⟨fun x => ?_, fun x hx => absurd (AList.lookup_empty x) hx, [], .nil, fun x => ?_⟩
  · rw [AList.lookup_empty]
    simp
  · rw [AList.lookup_empty]
    simp

include hnext

theorem visit_spec {path : List α} {x : α} (hpath : ∀ y ∈ path, TransGen (Edge refs) y x)
    {marks marks' : Marks α}
    (h : Searching refs good path marks)
    (hrun : visit next fuel path x marks = some (cycle, marks')) :
    Visited refs good path x marks cycle marks' := by
  induction fuel generalizing path x marks marks' cycle with
  | zero => cases hrun
  | succ fuel ih =>
    rw [visit] at hrun
    cases hmark : marks.lookup x with
    | some state =>
      rw [hmark] at hrun
      cases state with
      | done =>
        cases hrun
        exact ⟨.refl _, fun _ => ⟨h, hmark⟩, fun hne => absurd rfl hne⟩
      | inProgress =>
        cases hrun
        refine ⟨.refl _, nofun, fun _ => ⟨⟨h.good, ?_⟩, ?_, ?_⟩⟩
        · intro y hy hypath pre z post hrefs _
          obtain ⟨D, hD, hmem⟩ := h.finished
          have hdone : marks.lookup y = some .done := by
            cases hstate : marks.lookup y with
            | none => exact absurd hstate hy
            | some state =>
              cases state with
              | done => rfl
              | inProgress => exact absurd ((h.inProgress y).mp hstate) hypath
          have hz : z ∈ refs y := by
            rw [hrefs]
            simp
          rw [(hmem z).mpr (hD.closed ((hmem y).mp hdone) hz)]
          exact Option.some_ne_none _
        · rw [hmark]
          exact Option.some_ne_none _
        · exact ⟨x, .refl, hpath x ((h.inProgress x).mp hmark)⟩
    | none =>
      rw [hmark] at hrun
      have hxpath : x ∉ path := by
        intro hx
        rw [(h.inProgress x).mpr hx] at hmark
        cases hmark
      cases hfound : next fuel x with
      | none =>
        rw [hfound] at hrun
        cases hrun
      | some found =>
        obtain ⟨hgood, rfl⟩ := hnext fuel x found hfound
        rw [hfound] at hrun
        dsimp only at hrun
        have henter := h.enter hmark hgood
        have hgrows : Grows marks (marks.insert x .inProgress) := .insert (by simp [hmark])
        cases hall : visitAll (visit next fuel (path ++ [x])) (refs x)
            (marks.insert x .inProgress) with
        | none =>
          rw [hall] at hrun
          cases hrun
        | some result =>
          obtain ⟨inner, marks₁⟩ := result
          have hspec : VisitedAll refs good (path ++ [x]) (refs x) (marks.insert x .inProgress)
              inner marks₁ := by
            refine visitAll_spec (fun y hy marks cycle marks' hs hv => ih ?_ hs hv) henter hall
            intro z hz
            rcases List.mem_append.mp hz with hz | hz
            · exact (hpath z hz).tail hy
            · cases List.mem_singleton.mp hz
              exact .single hy
          rw [hall] at hrun
          cases inner with
          | none =>
            cases hrun
            obtain ⟨hsearching, hdone⟩ := hspec.quiet rfl
            have hleave := hsearching.leave hxpath hdone
            exact ⟨(hgrows.trans hspec.grows).trans (.insert fun _ => rfl),
              fun _ => ⟨hleave, AList.lookup_insert _⟩, fun hne => absurd rfl hne⟩
          | some c =>
            cases hrun
            obtain ⟨hfound, pre, y, post, hrefs, hpre, hy, hcycle⟩ :=
              hspec.found (Option.some_ne_none c)
            refine ⟨hgrows.trans hspec.grows, nofun,
              fun _ => ⟨⟨hfound.good, ?_⟩, ?_, hcycle.head (by simp [Edge, hrefs])⟩⟩
            · intro z hz hzpath pre' w post' hsplit hnone
              by_cases hzx : z = x
              · subst hzx
                exact marked_of_split hrefs hpre hy hcycle hsplit hnone
              · exact hfound.explored z hz (by simp [hzpath, hzx]) pre' w post' hsplit hnone
            · exact hspec.grows.marked x (by simp)

theorem findCycle_spec {roots : List α} (hrun : findCycle next fuel roots = some cycle) :
    ∃ marks, VisitedAll refs good [] roots ∅ cycle marks := by
  rw [findCycle, Option.map_eq_some_iff] at hrun
  obtain ⟨⟨_, marks⟩, hrun, rfl⟩ := hrun
  refine ⟨marks, visitAll_spec (fun x _ _ _ _ h hv => ?_) searching_nil hrun⟩
  exact visit_spec hnext (fun y hy => by cases hy) h hv

theorem finished_of_findCycle {roots : List α}
    (hrun : findCycle next fuel roots = some none) :
    ∃ D, Finished (Edge refs) D ∧ (∀ x ∈ roots, x ∈ D) ∧ ∀ x ∈ D, good x := by
  obtain ⟨marks, hspec⟩ := findCycle_spec hnext hrun
  obtain ⟨hsearching, hdone⟩ := hspec.quiet rfl
  obtain ⟨D, hD, hmem⟩ := hsearching.finished
  refine ⟨D, hD, fun x hx => (hmem x).mp (hdone x hx), fun x hx => hsearching.good x ?_⟩
  rw [(hmem x).mpr hx]
  exact Option.some_ne_none _

theorem good_of_findCycle {roots : List α}
    (hrun : findCycle next fuel roots = some cycle) {x : α} (hx : Searched refs roots x) :
    good x := by
  obtain ⟨marks, hspec⟩ := findCycle_spec hnext hrun
  cases cycle with
  | none =>
    obtain ⟨hsearching, hdone⟩ := hspec.quiet rfl
    obtain ⟨D, hD, hmem⟩ := hsearching.finished
    have hmark (y : α) (hy : Searched refs roots y) : y ∈ D := by
      induction hy with
      | root hroots _ => exact (hmem _).mp (hdone _ (by simp [hroots]))
      | step _ hrefs _ ih => exact hD.closed ih (by simp [Edge, hrefs])
    refine hsearching.good x ?_
    rw [(hmem x).mpr (hmark x hx)]
    exact Option.some_ne_none _
  | some c =>
    obtain ⟨hfound, pre, y, post, hroots, hpre, hy, hcycle⟩ := hspec.found (Option.some_ne_none c)
    have hmark (z : α) (hz : Searched refs roots z) : marks.lookup z ≠ none := by
      induction hz with
      | root hroots' hpre' => exact marked_of_split hroots hpre hy hcycle hroots' hpre'
      | step _ hrefs hpre' ih => exact hfound.explored _ ih List.not_mem_nil _ _ _ hrefs hpre'
    exact hfound.good x (hmark x hx)

section Halting

variable {scope : Finset α} {bound : Nat} {below : α → Prop}

omit hnext in
theorem visitAll_isSome {visit : α → Marks α → Option (Option (List α) × Marks α)}
    {path xs : List α} (hvisit : ∀ x ∈ xs, ∀ marks cycle marks', Searching refs good path marks →
      visit x marks = some (cycle, marks') → Visited refs good path x marks cycle marks')
    (hsome : ∀ pre x post, xs = pre ++ x :: post → (∀ p ∈ pre, ¬ ReachesCycle refs p) →
      ∀ marks, Searching refs good path marks → (visit x marks).isSome)
    {marks : Marks α} (h : Searching refs good path marks) : (visitAll visit xs marks).isSome := by
  induction xs generalizing marks with
  | nil => rfl
  | cons x xs ih =>
    rw [visitAll]
    obtain ⟨⟨cycle, marks₁⟩, hx⟩ := Option.isSome_iff_exists.mp
      (hsome [] x xs rfl nofun marks h)
    rw [hx]
    cases cycle with
    | some c => rfl
    | none =>
      obtain ⟨hsearching, hdone⟩ := (hvisit x List.mem_cons_self marks none marks₁ h hx).quiet rfl
      refine ih (fun y hy => hvisit y (List.mem_cons_of_mem x hy)) ?_ hsearching
      intro pre y post hxs hpre
      refine hsome (x :: pre) y post (by rw [hxs, List.cons_append]) ?_
      exact List.forall_mem_cons.mpr ⟨hsearching.not_reachesCycle hdone, hpre⟩

omit hnext in
theorem card_scope_sdiff {path : List α} {x : α} (hscope : x ∈ scope) (hx : x ∉ path) :
    (scope \ (path ++ [x]).toFinset).card < (scope \ path.toFinset).card := by
  have hset : scope \ (path ++ [x]).toFinset = (scope \ path.toFinset).erase x := by
    ext y
    simp only [Finset.mem_sdiff, List.mem_toFinset, List.mem_append, List.mem_singleton,
      Finset.mem_erase, not_or]
    exact ⟨fun h => ⟨h.2.2, h.1, h.2.1⟩, fun h => ⟨h.2.1, h.2.2, h.1⟩⟩
  rw [hset]
  exact Finset.card_erase_lt_of_mem (by simp [hscope, hx])

variable (hbound : ∀ x, good x → ∀ fuel ≥ bound, (next fuel x).isSome)

include hbound

theorem visit_isSome
    (hgood : ∀ x, below x → good x) (hscope : ∀ x, below x → x ∈ scope)
    (hbelow : ∀ x, below x → ∀ pre y post, refs x = pre ++ y :: post →
      (∀ p ∈ pre, ¬ ReachesCycle refs p) → below y)
    {fuel : Nat} {path : List α} {x : α} (hx : below x)
    (hfuel : bound + (scope \ path.toFinset).card < fuel)
    (hpath : ∀ y ∈ path, TransGen (Edge refs) y x) {marks : Marks α}
    (h : Searching refs good path marks) : (visit next fuel path x marks).isSome := by
  induction fuel generalizing path x marks with
  | zero => omega
  | succ fuel ih =>
    rw [visit]
    cases hmark : marks.lookup x with
    | some state => cases state <;> rfl
    | none =>
      have hxpath : x ∉ path := by
        intro hmem
        rw [(h.inProgress x).mpr hmem] at hmark
        cases hmark
      obtain ⟨found, hfound⟩ := Option.isSome_iff_exists.mp
        (hbound x (hgood x hx) fuel (by omega))
      obtain ⟨-, rfl⟩ := hnext fuel x found hfound
      have hcard := card_scope_sdiff (hscope x hx) hxpath
      have hlink (y : α) (hy : y ∈ refs x) : ∀ z ∈ path ++ [x], TransGen (Edge refs) z y := by
        intro z hz
        rcases List.mem_append.mp hz with hz | hz
        · exact (hpath z hz).tail hy
        · cases List.mem_singleton.mp hz
          exact .single hy
      have hall : (visitAll (visit next fuel (path ++ [x])) (refs x)
          (marks.insert x .inProgress)).isSome := by
        refine visitAll_isSome (fun y hy _ _ _ hs hv => visit_spec hnext (hlink y hy) hs hv) ?_
          (h.enter hmark (hgood x hx))
        intro pre y post hrefs hpre marks' hs
        exact ih (hbelow x hx pre y post hrefs hpre) (by omega) (hlink y (by simp [hrefs])) hs
      obtain ⟨⟨cycle, marks₁⟩, hall⟩ := Option.isSome_iff_exists.mp hall
      rw [hfound]
      dsimp only
      rw [hall]
      cases cycle <;> rfl

theorem findCycle_isSome {roots : List α}
    (hgood : ∀ x, Searched refs roots x → good x) (hscope : ∀ x, Searched refs roots x → x ∈ scope)
    {fuel : Nat} (hfuel : bound + scope.card < fuel) : (findCycle next fuel roots).isSome := by
  rw [findCycle, Option.isSome_map]
  have hstart : Searching refs good [] (∅ : Marks α) := searching_nil
  refine visitAll_isSome (fun x _ _ _ _ h hv => visit_spec hnext (fun y hy => by cases hy) h hv)
    ?_ hstart
  intro pre x post hroots hpre marks h
  refine visit_isSome hnext hbound hgood hscope
    (fun y hy pre' z post' hrefs hpre' => .step hy hrefs hpre') (.root hroots hpre) ?_
    (fun y hy => by cases hy) h
  simpa using hfuel

omit hbound

end Halting

end Correct

end RdfDatalog.CycleSearch
