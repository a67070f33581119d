import Mathlib.Data.Finset.Card

namespace RdfDatalog.GraphSearch

variable {α : Type} [DecidableEq α] {seen l : List α}

/-- The elements of a list that were not seen before, each once. -/
def fresh (seen : List α) : List α → List α
  | [] => []
  | x :: l => if x ∈ seen then fresh seen l else x :: fresh (seen ++ [x]) l

theorem mem_fresh {y : α} : y ∈ fresh seen l ↔ y ∈ l ∧ y ∉ seen := by
  induction l generalizing seen with
  | nil => simp [fresh]
  | cons x l ih =>
    rw [fresh]
    split_ifs with hx
    · rw [ih, List.mem_cons]
      exact and_congr_left fun hy => (or_iff_right fun he : y = x => hy (he ▸ hx)).symm
    · rw [List.mem_cons, ih, List.mem_cons, List.mem_append, List.mem_singleton]
      by_cases hy : y = x
      · simp [hy, hx]
      · simp [hy]

theorem nodup_append_fresh (h : seen.Nodup) : (seen ++ fresh seen l).Nodup := by
  induction l generalizing seen with
  | nil => simpa [fresh] using h
  | cons x l ih =>
    rw [fresh]
    split_ifs with hx
    · exact ih h
    · rw [← List.singleton_append, ← List.append_assoc]
      exact ih (List.nodup_append.mpr ⟨h, List.nodup_singleton x, fun a ha b hb he =>
        hx (List.mem_singleton.mp hb ▸ he ▸ ha)⟩)

theorem length_fresh {scope : Finset α} (h : ∀ y ∈ l, y ∈ scope) :
    (fresh seen l).length + (scope \ (seen ++ fresh seen l).toFinset).card =
      (scope \ seen.toFinset).card := by
  induction l generalizing seen with
  | nil => simp [fresh]
  | cons x l ih =>
    obtain ⟨hx, hl⟩ := List.forall_mem_cons.mp h
    rw [fresh]
    split_ifs with hseen
    · exact ih hl
    · have hmem : x ∈ scope \ seen.toFinset :=
        Finset.mem_sdiff.mpr ⟨hx, fun hf => hseen (List.mem_toFinset.mp hf)⟩
      have heq : scope \ (seen ++ [x]).toFinset = (scope \ seen.toFinset).erase x := by
        ext y
        simp only [Finset.mem_sdiff, List.mem_toFinset, List.mem_append, List.mem_singleton,
          Finset.mem_erase]
        tauto
      have hpos : 0 < (scope \ seen.toFinset).card := Finset.card_pos.mpr ⟨x, hmem⟩
      have hcard := @ih (seen ++ [x]) hl
      rw [heq, Finset.card_erase_of_mem hmem, List.append_assoc, List.singleton_append] at hcard
      rw [List.length_cons]
      omega

end RdfDatalog.GraphSearch

namespace RdfDatalog.StackSearch

open GraphSearch

variable {α σ : Type} [DecidableEq α]

/-- The elements still to be followed, the next one first, and those that were found. -/
structure Search (α : Type) where
  stack : List α
  visited : List α

/-- Find `x`, unless it was found before. -/
def discover (s : Search α) (x : α) : Search α :=
  if x ∈ s.visited then s else ⟨x :: s.stack, s.visited ++ [x]⟩

/-- Follow the elements of the stack for at most `fuel` steps; a step may change the state. -/
def search (step : α → StateM σ (List α)) : Nat → Search α → StateM σ (List α)
  | 0, s => pure s.visited
  | fuel + 1, s =>
    match s.stack with
    | [] => pure s.visited
    | x :: rest => do
      let found ← step x
      search step fuel (found.foldl discover ⟨rest, s.visited⟩)

section Correct

open Relation

/-- What holds each time around: the elements on the stack were found or are the start, what was
found is reachable, and whatever is not on the stack has been followed. -/
structure Searching (next : α → α → Prop) (start : α) (s : Search α) : Prop where
  stack : ∀ x ∈ s.stack, x = start ∨ x ∈ s.visited
  reached : ∀ x ∈ s.visited, TransGen next start x
  followed : ∀ x, x = start ∨ x ∈ s.visited → x ∉ s.stack → ∀ y, next x y → y ∈ s.visited
  nodup : s.visited.Nodup

/-- The steps that are left when only elements of `scope` can be found. -/
def work (scope : Finset α) (s : Search α) : Nat :=
  s.stack.length + (scope \ s.visited.toFinset).card

variable {next : α → α → Prop} {start : α}

omit [DecidableEq α] in
theorem searching_start : Searching next start ⟨[start], []⟩ where
  stack x hx := .inl (List.mem_singleton.mp hx)
  reached x hx := by cases hx
  followed x hx hstack := by
    rcases hx with rfl | hx
    · exact absurd (List.mem_singleton_self x) hstack
    · cases hx
  nodup := .nil

theorem foldl_discover_eq (found : List α) (s : Search α) : found.foldl discover s =
    ⟨(fresh s.visited found).reverse ++ s.stack, s.visited ++ fresh s.visited found⟩ := by
  induction found generalizing s with
  | nil => simp [fresh]
  | cons x found ih =>
    rw [List.foldl_cons, ih, discover, fresh]
    split_ifs <;> simp

theorem foldl_discover (found : List α) (s : Search α) :
    (∀ y, y ∈ (found.foldl discover s).visited ↔ y ∈ s.visited ∨ y ∈ found) ∧
      (∀ y ∈ s.stack, y ∈ (found.foldl discover s).stack) ∧
      (∀ y ∈ (found.foldl discover s).stack, y ∈ s.stack ∨ y ∈ found) ∧
      (∀ y ∈ (found.foldl discover s).visited, y ∈ s.visited ∨
        y ∈ (found.foldl discover s).stack) ∧
      (s.visited.Nodup → (found.foldl discover s).visited.Nodup) := by
  rw [foldl_discover_eq]
  simp only [List.mem_append, List.mem_reverse, mem_fresh]
  refine ⟨?_, ?_, ?_, ?_, nodup_append_fresh⟩ <;> intro y <;> tauto

theorem work_foldl_discover {scope : Finset α} {found : List α} (s : Search α)
    (h : ∀ y ∈ found, y ∈ scope) : work scope (found.foldl discover s) = work scope s := by
  have hcard := @length_fresh α _ s.visited found scope h
  rw [foldl_discover_eq, work, work, List.length_append, List.length_reverse]
  dsimp only
  omega

theorem Searching.follow {x : α} {rest found visited : List α}
    (h : Searching next start ⟨x :: rest, visited⟩) (hfound : ∀ y, y ∈ found ↔ next x y) :
    Searching next start (found.foldl discover ⟨rest, visited⟩) := by
  obtain ⟨hvisited, hkeep, hstack, hnew, hnodup⟩ := foldl_discover found ⟨rest, visited⟩
  have hx : TransGen next start x ∨ x = start :=
    (h.stack x (.head rest)).elim .inr fun hx => .inl (h.reached x hx)
  constructor
  · intro y hy
    rcases hstack y hy with hy | hy
    · exact (h.stack y (.tail x hy)).imp_right fun hy => (hvisited y).mpr (.inl hy)
    · exact .inr ((hvisited y).mpr (.inr hy))
  · intro y hy
    rcases (hvisited y).mp hy with hy | hy
    · exact h.reached y hy
    · have hxy := (hfound y).mp hy
      rcases hx with hx | rfl
      · exact hx.tail hxy
      · exact .single hxy
  · intro z hz hzstack y hzy
    by_cases hzx : z = x
    · subst hzx
      exact (hvisited y).mpr (.inr ((hfound y).mpr hzy))
    · have hz' : z = start ∨ z ∈ visited := by
        rcases hz with hz | hz
        · exact .inl hz
        · exact (hnew z hz).elim .inr fun hmem => absurd hmem hzstack
      have hnot : z ∉ x :: rest := by
        intro hmem
        rcases List.mem_cons.mp hmem with hmem | hmem
        · exact hzx hmem
        · exact hzstack (hkeep z hmem)
      exact (hvisited y).mpr (.inl (h.followed z hz' hnot y hzy))
  · exact hnodup h.nodup

omit [DecidableEq α] in
theorem Searching.finished {visited : List α} (h : Searching next start ⟨[], visited⟩) (y : α) :
    y ∈ visited ↔ TransGen next start y := by
  constructor
  · exact h.reached y
  · intro hy
    induction hy with
    | single hxy => exact h.followed start (.inl rfl) List.not_mem_nil _ hxy
    | tail _ hyz ihy => exact h.followed _ (.inr ihy) List.not_mem_nil _ hyz

/-- The search finds what is reachable in one or more steps, each element once. The states it
goes through satisfy `inv`, under which a step finds exactly the next elements. -/
theorem search_correct {step : α → StateM σ (List α)} {inv : σ → Prop} {scope : Finset α}
    (hstep : ∀ x st, inv st → inv (step x st).2 ∧ ∀ y, y ∈ (step x st).1 ↔ next x y)
    (hscope : ∀ x y, x = start ∨ TransGen next start x → next x y → y ∈ scope) {fuel : Nat}
    {s : Search α} (h : Searching next start s) (hfuel : work scope s < fuel) {st : σ}
    (hst : inv st) : inv (search step fuel s st).2 ∧ (search step fuel s st).1.Nodup ∧
      ∀ y, y ∈ (search step fuel s st).1 ↔ TransGen next start y := by
  induction fuel generalizing s st with
  | zero => omega
  | succ fuel ih =>
    obtain ⟨stack, visited⟩ := s
    cases stack with
    | nil => exact ⟨hst, h.nodup, h.finished⟩
    | cons x rest =>
      obtain ⟨hinv, hfound⟩ := hstep x st hst
      have hx : x = start ∨ TransGen next start x :=
        (h.stack x (.head rest)).imp_right (h.reached x)
      have hwork : work scope ((step x st).1.foldl discover ⟨rest, visited⟩) < fuel := by
        rw [work_foldl_discover _ fun y hy => hscope x y hx ((hfound y).mp hy)]
        have hlt : (rest.length + 1) + (scope \ visited.toFinset).card < fuel + 1 := hfuel
        change rest.length + (scope \ visited.toFinset).card < fuel
        omega
      exact ih (h.follow hfound) hwork hinv

end Correct

end RdfDatalog.StackSearch

namespace RdfDatalog.WorklistSearch

open GraphSearch

variable {α : Type} [DecidableEq α]

/-- What a search still has to follow, and what it has found. -/
structure State (α : Type) where
  pending : List α
  found : List α

/-- Find `x`, unless it is refused or found already. -/
def discover (allowed : α → Bool) (s : State α) (x : α) : State α :=
  if allowed x ∧ x ∉ s.found then ⟨s.pending ++ [x], s.found ++ [x]⟩ else s

/-- Follow the pending elements, first in first out, for at most `fuel` steps. -/
def run (succ : α → List α) (allowed : α → Bool) : Nat → State α → List α
  | 0, s => s.found
  | fuel + 1, s =>
    match s.pending with
    | [] => s.found
    | x :: rest => run succ allowed fuel ((succ x).foldl (discover allowed) ⟨rest, s.found⟩)

/-- `y` is found when `x` is followed. -/
def Next (succ : α → List α) (allowed : α → Bool) (x y : α) : Prop :=
  y ∈ succ x ∧ allowed y = true

/-- The steps that are left when every element still to be found is in `scope`. -/
def work (scope : Finset α) (s : State α) : Nat :=
  s.pending.length + (scope \ s.found.toFinset).card

section Discover

variable {allowed : α → Bool} {s : State α} {l : List α}

theorem foldl_discover_eq (allowed : α → Bool) (s : State α) (l : List α) :
    l.foldl (discover allowed) s = ⟨s.pending ++ fresh s.found (l.filter allowed),
      s.found ++ fresh s.found (l.filter allowed)⟩ := by
  induction l generalizing s with
  | nil => simp [fresh]
  | cons x l ih =>
    rw [List.foldl_cons, ih, discover, List.filter_cons]
    by_cases ha : allowed x = true
    · rw [if_pos ha, fresh]
      by_cases hx : x ∈ s.found <;> simp [ha, hx]
    · simp [ha]

theorem foldl_discover (allowed : α → Bool) (s : State α) (l : List α) :
    (∀ y, y ∈ (l.foldl (discover allowed) s).found ↔ y ∈ s.found ∨ (y ∈ l ∧ allowed y = true)) ∧
    (∀ y, y ∈ (l.foldl (discover allowed) s).pending → y ∈ s.pending ∨
      (y ∈ l ∧ allowed y = true)) ∧
    (∀ y ∈ s.pending, y ∈ (l.foldl (discover allowed) s).pending) ∧
    ∀ y ∈ (l.foldl (discover allowed) s).found, y ∈ s.found ∨
      y ∈ (l.foldl (discover allowed) s).pending := by
  rw [foldl_discover_eq]
  simp only [List.mem_append, mem_fresh, List.mem_filter]
  refine ⟨?_, ?_, ?_, ?_⟩ <;> intro y <;> tauto

theorem work_foldl_discover (allowed : α → Bool) (s : State α) {scope : Finset α}
    (h : ∀ y ∈ l, y ∈ scope) : work scope (l.foldl (discover allowed) s) = work scope s := by
  have hcard := @length_fresh α _ s.found (l.filter allowed) scope fun y hy =>
    h y (List.mem_of_mem_filter hy)
  rw [foldl_discover_eq, work, work, List.length_append]
  dsimp only
  omega

end Discover

def Followed (succ : α → List α) (allowed : α → Bool) (s : State α) : Prop :=
  ∀ x ∈ s.found, x ∉ s.pending → ∀ y, Next succ allowed x y → y ∈ s.found

section Run

variable {succ : α → List α} {allowed : α → Bool} {s : State α}

theorem Followed.reach (h : Followed succ allowed s) {x y : α} (hx : x ∈ s.found)
    (hxy : Relation.TransGen (Next succ allowed) x y) :
    y ∈ s.found ∨ ∃ z ∈ s.pending, Relation.TransGen (Next succ allowed) z y := by
  induction hxy using Relation.TransGen.head_induction_on with
  | @single x hxy =>
    by_cases hp : x ∈ s.pending
    · exact .inr ⟨x, hp, .single hxy⟩
    · exact .inl (h x hx hp _ hxy)
  | @head x z hxz hzy ih =>
    by_cases hp : x ∈ s.pending
    · exact .inr ⟨x, hp, .head hxz hzy⟩
    · exact ih (h x hx hp z hxz)

theorem mem_run {scope : Finset α} {fuel : Nat} (hsucc : ∀ x, ∀ y ∈ succ x, y ∈ scope)
    (h : Followed succ allowed s) (hfuel : work scope s < fuel) (y : α) :
    y ∈ run succ allowed fuel s ↔
      y ∈ s.found ∨ ∃ x ∈ s.pending, Relation.TransGen (Next succ allowed) x y := by
  induction fuel generalizing s with
  | zero => omega
  | succ fuel ih =>
    cases hp : s.pending with
    | nil => simp [run, hp]
    | cons x rest =>
      obtain ⟨hfound, hpending, hkeep, hnew⟩ :=
        foldl_discover allowed ⟨rest, s.found⟩ (succ x)
      have hwork := work_foldl_discover allowed ⟨rest, s.found⟩ (hsucc x)
      have hlt : work scope ((succ x).foldl (discover allowed) ⟨rest, s.found⟩) < fuel := by
        rw [hwork]
        simp only [work, hp, List.length_cons] at hfuel ⊢
        omega
      have hfollowed :
          Followed succ allowed ((succ x).foldl (discover allowed) ⟨rest, s.found⟩) := by
        intro z hz hzp w hzw
        rw [hfound]
        by_cases hzx : z = x
        · subst hzx
          exact .inr hzw
        · have hzs : z ∈ s.found := (hnew z hz).resolve_right hzp
          refine .inl (h z hzs ?_ w hzw)
          rw [hp]
          intro hzm
          rcases List.mem_cons.mp hzm with rfl | hzm
          · exact hzx rfl
          · exact hzp (hkeep z hzm)
      rw [run, hp]
      dsimp only
      rw [ih hfollowed hlt]
      constructor
      · rintro (hy | ⟨z, hz, hzy⟩)
        · rcases (hfound y).mp hy with hy | hy
          · exact .inl hy
          · exact .inr ⟨x, .head rest, .single hy⟩
        · rcases hpending z hz with hz | hz
          · exact .inr ⟨z, .tail x hz, hzy⟩
          · exact .inr ⟨x, .head rest, .head hz hzy⟩
      · rintro (hy | ⟨z, hz, hzy⟩)
        · exact .inl ((hfound y).mpr (.inl hy))
        · rcases List.mem_cons.mp hz with rfl | hz
          · rcases (Relation.TransGen.head'_iff).mp hzy with ⟨w, hzw, hwy⟩
            have hw := (hfound w).mpr (.inr hzw)
            rcases Relation.reflTransGen_iff_eq_or_transGen.mp hwy with rfl | hwy
            · exact .inl hw
            · exact hfollowed.reach hw hwy
          · exact .inr ⟨z, hkeep z hz, hzy⟩

end Run

end RdfDatalog.WorklistSearch
