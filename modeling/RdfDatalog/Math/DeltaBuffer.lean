import Mathlib.Data.Finset.Basic

namespace RdfDatalog.DeltaBuffer

variable {α ε : Type} [DecidableEq α]

/-- What one operation does to a set. -/
inductive Effect (α : Type) where
  | skip
  | insert (q : Finset α)
  | delete (q : Finset α)
  | clear (p : α → Bool)
  | replace (d i : Finset α)

/-- The effect when operations take place one after another. -/
def Effect.run (s : Finset α) : Effect α → Finset α
  | .skip => s
  | .insert q => s ∪ q
  | .delete q => s \ q
  | .clear p => s.filter (fun x => p x = false)
  | .replace d i => (s \ d) ∪ i

/-- A stored set with buffered insertions and deletions on top of it. -/
@[ext] structure Buffer (α : Type) where
  live : Finset α
  ins : Finset α
  del : Finset α

namespace Buffer

/-- The set a commit leaves: every buffered deletion wins over every buffered insertion. -/
def view (b : Buffer α) : Finset α := (b.live ∪ b.ins) \ b.del

theorem mem_view {b : Buffer α} {x : α} :
    x ∈ b.view ↔ (x ∈ b.live ∨ x ∈ b.ins) ∧ x ∉ b.del := by
  simp [view]

/-- The effect on the buffers. A clear removes from the stored set at once, past the buffers; a
deletion is buffered for what is stored or about to be. -/
def apply (b : Buffer α) : Effect α → Buffer α
  | .skip => b
  | .insert q => { b with ins := b.ins ∪ q }
  | .delete q => { b with del := b.del ∪ q.filter (fun x => x ∈ b.live ∨ x ∈ b.ins) }
  | .clear p => { b with live := b.live.filter (fun x => p x = false) }
  | .replace d i => { b with ins := b.ins ∪ i, del := b.del ∪ d }

/-- No buffered operation stands in the way of the effect. -/
def Steady (b : Buffer α) : Effect α → Prop
  | .skip => True
  | .insert q => Disjoint q b.del
  | .delete _ => True
  | .clear p => ∀ x ∈ b.ins, p x = true → x ∈ b.del
  | .replace d i => Disjoint i (b.del ∪ d)

variable (b : Buffer α)

theorem view_insert_eq_iff (q : Finset α) :
    (b.apply (.insert q)).view = b.view ∪ q ↔ Disjoint q b.del := by
  rw [Finset.disjoint_left]
  constructor
  · intro h x hq hd
    have hx : x ∈ (b.apply (.insert q)).view := by
      rw [h]
      exact Finset.mem_union_right _ hq
    exact (mem_view.mp hx).2 hd
  · intro h
    ext x
    simp only [mem_view, apply, Finset.mem_union]
    have hx := h (a := x)
    tauto

theorem view_clear_eq_iff (p : α → Bool) :
    (b.apply (.clear p)).view = b.view.filter (fun x => p x = false) ↔
      ∀ x ∈ b.ins, p x = true → x ∈ b.del := by
  constructor
  · intro h x hi hpx
    by_contra hd
    have hx : x ∈ (b.apply (.clear p)).view := mem_view.mpr ⟨Or.inr hi, hd⟩
    rw [h, Finset.mem_filter, hpx] at hx
    cases hx.2
  · intro h
    ext x
    simp only [mem_view, apply, Finset.mem_filter]
    have hx := h x
    cases hpx : p x <;> simp only [hpx] at hx ⊢ <;> tauto

/-- The buffered effect agrees with the effect on the view exactly when nothing stands in its
way. -/
theorem view_apply_eq_iff (e : Effect α) :
    (b.apply e).view = e.run b.view ↔ b.Steady e := by
  cases e with
  | skip => exact iff_of_true rfl trivial
  | insert q => exact view_insert_eq_iff b q
  | delete q =>
    refine iff_of_true ?_ trivial
    ext x
    simp only [mem_view, apply, Effect.run, Finset.mem_union, Finset.mem_filter, Finset.mem_sdiff]
    tauto
  | clear p => exact view_clear_eq_iff b p
  | replace d i =>
    have hd : (b.live ∪ b.ins) \ (b.del ∪ d) = b.view \ d := by
      ext x
      simp only [mem_view, Finset.mem_union, Finset.mem_sdiff]
      tauto
    have h := view_insert_eq_iff { b with del := b.del ∪ d } i
    have hview : ({ b with del := b.del ∪ d } : Buffer α).view = b.view \ d := hd
    rw [hview] at h
    exact h

theorem Steady.view_within {b : Buffer α} {e : Effect α} (h : b.Steady e) {part : Finset α}
    (hpart : part ⊆ b.live) :
    ((part ∩ (b.apply e).live) ∪ (b.apply e).ins) \ (b.apply e).del =
      e.run ((part ∪ b.ins) \ b.del) := by
  have hlive := Finset.inter_eq_left.mpr hpart
  cases e with
  | skip =>
    rw [apply, hlive]
    rfl
  | insert q =>
    have hview := (view_insert_eq_iff { b with live := part } q).mpr h
    rw [apply, hlive]
    exact hview
  | delete q =>
    ext x
    have hx := @hpart x
    simp only [apply, hlive, Effect.run, Finset.mem_sdiff, Finset.mem_union, Finset.mem_filter]
    tauto
  | clear p =>
    have hfilter : part ∩ b.live.filter (fun x => p x = false) =
        part.filter (fun x => p x = false) := by
      ext x
      have hx := @hpart x
      simp only [Finset.mem_inter, Finset.mem_filter]
      tauto
    have hview := (view_clear_eq_iff { b with live := part } p).mpr h
    rw [apply, hfilter]
    exact hview
  | replace d i =>
    have hview := (view_apply_eq_iff { b with live := part } (.replace d i)).mpr h
    rw [apply, hlive]
    exact hview

theorem apply_clear_congr {p p' : α → Bool} (h : ∀ x ∈ b.live, p x = p' x) :
    b.apply (.clear p) = b.apply (.clear p') := by
  have hlive : b.live.filter (fun x => p x = false) = b.live.filter (fun x => p' x = false) :=
    Finset.filter_congr fun x hx => by rw [h x hx]
  simp only [apply, hlive]

end Buffer

/-- An operation decides on its effect from the set it sees, or fails. -/
abbrev Plan (ε α : Type) := Finset α → Except ε (Effect α)

/-- The operations one after another on the set itself. -/
def sequential (s : Finset α) : List (Plan ε α) → Except ε (Finset α)
  | [] => .ok s
  | p :: ps =>
    match p s with
    | .error e => .error e
    | .ok e => sequential (e.run s) ps

namespace Buffer

/-- The operations one after another on the buffers. -/
def run (b : Buffer α) : List (Plan ε α) → Except ε (Buffer α)
  | [] => .ok b
  | p :: ps =>
    match p b.view with
    | .error e => .error e
    | .ok e => run (b.apply e) ps

/-- Every operation of the run finds nothing in its way. -/
def SteadyRun (b : Buffer α) : List (Plan ε α) → Prop
  | [] => True
  | p :: ps => ∀ e, p b.view = .ok e → b.Steady e ∧ SteadyRun (b.apply e) ps

theorem sequential_of_steady {b : Buffer α} {ps : List (Plan ε α)} (h : b.SteadyRun ps)
    {b' : Buffer α} (hb : b.run ps = .ok b') : sequential b.view ps = .ok b'.view := by
  induction ps generalizing b with
  | nil =>
    obtain rfl := Except.ok.inj hb
    rfl
  | cons p ps ih =>
    unfold run at hb
    unfold sequential
    cases hp : p b.view with
    | error e => simp [hp] at hb
    | ok e =>
      rw [hp] at hb
      obtain ⟨hsteady, hrest⟩ := h e hp
      simp only
      rw [← (view_apply_eq_iff b e).mpr hsteady]
      exact ih hrest hb

theorem SteadyRun.of_prefix {b : Buffer α} {pre ps : List (Plan ε α)} (h : b.SteadyRun ps)
    (hpre : pre <+: ps) : b.SteadyRun pre := by
  induction pre generalizing b ps with
  | nil => trivial
  | cons p pre ih =>
    cases ps with
    | nil => simp at hpre
    | cons p' ps =>
      obtain ⟨rfl, htail⟩ := List.cons_prefix_cons.mp hpre
      intro e he
      exact ⟨(h e he).1, ih (h e he).2 htail⟩

/-- A run is steady exactly when it, and each run it starts with, commits to what the operations
do one after another. -/
theorem steadyRun_iff (b : Buffer α) (ps : List (Plan ε α)) :
    b.SteadyRun ps ↔
      ∀ pre, pre <+: ps → ∀ b', b.run pre = .ok b' → sequential b.view pre = .ok b'.view := by
  constructor
  · intro h pre hpre b' hb
    exact sequential_of_steady (h.of_prefix hpre) hb
  · intro h
    induction ps generalizing b with
    | nil => trivial
    | cons p ps ih =>
      intro e he
      have hone := h [p] (List.cons_prefix_cons.mpr ⟨rfl, List.nil_prefix⟩) (b.apply e)
        (by simp [run, he])
      have hview : (b.apply e).view = e.run b.view := by
        have hseq : sequential b.view [p] = .ok (e.run b.view) := by simp [sequential, he]
        exact (Except.ok.inj (hseq.symm.trans hone)).symm
      refine ⟨(view_apply_eq_iff b e).mp hview, ih (b.apply e) ?_⟩
      intro pre hpre b' hb
      have hrun : b.run (p :: pre) = .ok b' := by simpa [run, he] using hb
      have hseq := h (p :: pre) (List.cons_prefix_cons.mpr ⟨rfl, hpre⟩) b' hrun
      rw [hview]
      simpa [sequential, he] using hseq

theorem steadyRun_iff_forall (b : Buffer α) (ps : List (Plan ε α)) :
    b.SteadyRun ps ↔
      ∀ pre p suf, ps = pre ++ p :: suf → ∀ b', b.run pre = .ok b' →
        ∀ e, p b'.view = .ok e → b'.Steady e := by
  induction ps generalizing b with
  | nil => simp [SteadyRun]
  | cons p ps ih =>
    constructor
    · intro h pre p' suf hsplit b' hb
      cases pre with
      | nil =>
        obtain ⟨rfl, -⟩ := List.cons.inj hsplit
        obtain rfl := Except.ok.inj hb
        exact fun e he => (h e he).1
      | cons p₀ pre =>
        obtain ⟨rfl, htail⟩ := List.cons.inj hsplit
        unfold run at hb
        cases hp : p b.view with
        | error e => simp [hp] at hb
        | ok e =>
          rw [hp] at hb
          exact (ih (b.apply e)).mp (h e hp).2 pre p' suf htail b' hb
    · intro h e he
      refine ⟨h [] p ps rfl b rfl e he, (ih (b.apply e)).mpr ?_⟩
      intro pre p' suf hsplit b' hb
      exact h (p :: pre) p' suf (by rw [hsplit]; rfl) b' (by simpa [run, he] using hb)

theorem live_apply_subset (b : Buffer α) (e : Effect α) : (b.apply e).live ⊆ b.live := by
  cases e with
  | clear p => exact Finset.filter_subset _ _
  | _ => exact Finset.Subset.refl _

theorem run_congr {stored : Finset α} {b : Buffer α} (hb : b.live ⊆ stored)
    {ps qs : List (Plan ε α)}
    (h : List.Forall₂ (fun p q => ∀ b : Buffer α, b.live ⊆ stored →
      (p b.view).map b.apply = (q b.view).map b.apply) ps qs) : b.run ps = b.run qs := by
  induction h generalizing b with
  | nil => rfl
  | @cons p q ps qs hpq _ ih =>
    have heq := hpq b hb
    simp only [run]
    cases hp : p b.view with
    | error e =>
      cases hq : q b.view with
      | error e' => simpa [hp, hq, Except.map] using heq
      | ok f => simp [hp, hq, Except.map] at heq
    | ok f =>
      cases hq : q b.view with
      | error e => simp [hp, hq, Except.map] at heq
      | ok g =>
        have hfg : b.apply f = b.apply g := by simpa [hp, hq, Except.map] using heq
        simp only [← hfg]
        exact ih ((live_apply_subset b f).trans hb)

end Buffer

end RdfDatalog.DeltaBuffer
