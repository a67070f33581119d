import Mathlib.Data.Set.Lattice
import Mathlib.Data.List.Pairwise

namespace RdfDatalog.GroundProgram

variable {α : Type}

/-- A ground rule: the atoms its body asks for, and the atoms that block it. -/
@[ext] structure Clause (α : Type) where
  head : α
  pos : Set α
  neg : Set α

/-- The body holds in `M`. -/
def Clause.Active (c : Clause α) (M : Set α) : Prop := c.pos ⊆ M ∧ ∀ a ∈ c.neg, a ∉ M

/-- Derivability from the facts `E`, with negation decided by `N`. -/
inductive Derives (P : Set (Clause α)) (N E : Set α) : α → Prop
  | base {a : α} (ha : a ∈ E) : Derives P N E a
  | fire {c : Clause α} (hc : c ∈ P) (hpos : ∀ a ∈ c.pos, Derives P N E a)
      (hneg : ∀ a ∈ c.neg, a ∉ N) : Derives P N E c.head

def closure (P : Set (Clause α)) (N E : Set α) : Set α := {a | Derives P N E a}

/-- `M` is a stable model of `P` over `E`: it is what `P` derives when negation is read in `M`. -/
def IsStable (P : Set (Clause α)) (E M : Set α) : Prop := M = closure P M E

theorem subset_closure (P : Set (Clause α)) (N E : Set α) : E ⊆ closure P N E :=
  fun _ ha => .base ha

variable {P Q : Set (Clause α)} {N E : Set α} {Ps : List (Set (Clause α))}

theorem head_mem_closure {c : Clause α} (hc : c ∈ P) (hpos : c.pos ⊆ closure P N E)
    (hneg : ∀ a ∈ c.neg, a ∉ N) : c.head ∈ closure P N E :=
  .fire hc (fun _ ha => hpos ha) hneg

variable {X S M : Set α}

theorem closure_subset (hE : E ⊆ X) (hX : ∀ c ∈ P, c.pos ⊆ X → (∀ a ∈ c.neg, a ∉ N) → c.head ∈ X) :
    closure P N E ⊆ X := by
  intro a ha
  induction ha with
  | base ha => exact hE ha
  | fire hc _ hneg ih => exact hX _ hc (fun a ha => ih a ha) hneg

/-- A set that the positive bodies of a program do not lead out of. -/
def ClosedUnder (P : Set (Clause α)) (X : Set α) : Prop := ∀ c ∈ P, c.pos ⊆ X → c.head ∈ X

theorem ClosedUnder.mono {P' : Set (Clause α)} (h : ClosedUnder P' X) (hP : P ⊆ P') :
    ClosedUnder P X := fun c hc => h c (hP hc)

theorem ClosedUnder.closure (h : ClosedUnder P X) (hE : E ⊆ X) :
    GroundProgram.closure P N E ⊆ X :=
  closure_subset hE fun c hc hpos _ => h c hc hpos

theorem closure_mono {P' : Set (Clause α)} {N' E' : Set α} (hP : P ⊆ P') (hN : N' ⊆ N) (hE : E ⊆ E')
    : closure P N E ⊆ closure P' N' E' := by
  refine closure_subset (hE.trans (subset_closure P' N' E')) ?_
  intro c hc hpos hneg
  exact head_mem_closure (hP hc) hpos fun a ha hN' => hneg a ha (hN hN')

theorem closure_closure_subset (P : Set (Clause α)) (N E : Set α) :
    closure P N (closure P N E) ⊆ closure P N E :=
  closure_subset Set.Subset.rfl fun _ hc hpos hneg => head_mem_closure hc hpos hneg

theorem closure_union_of_subset {F : Set α} (hF : F ⊆ closure P N E) :
    closure P N (E ∪ F) = closure P N E := by
  apply Set.Subset.antisymm
  · refine closure_subset (Set.union_subset (subset_closure P N E) hF) ?_
    intro c hc hpos hneg
    exact head_mem_closure hc hpos hneg
  · exact closure_mono Set.Subset.rfl Set.Subset.rfl Set.subset_union_left

theorem mem_closure_cases {a : α} (ha : a ∈ closure P N E) :
    a ∈ E ∨ ∃ c ∈ P, c.head = a := by
  cases ha with
  | base ha => exact .inl ha
  | fire hc _ _ => exact .inr ⟨_, hc, rfl⟩

namespace IsStable

variable {P : Set (Clause α)} {E F M : Set α}

variable (h : IsStable P E M)

include h

theorem facts_subset : E ⊆ M := by
  have hE := subset_closure P M E
  exact h ▸ hE

theorem head_mem {c : Clause α} (hc : c ∈ P) (hact : c.Active M) :
    c.head ∈ M := by
  have hpos : c.pos ⊆ closure P M E := by
    rw [← h]
    exact hact.1
  have hm := head_mem_closure hc hpos hact.2
  rw [← h] at hm
  exact hm

theorem mem_cases {a : α} (ha : a ∈ M) : a ∈ E ∨ ∃ c ∈ P, c.head = a := by
  rw [h] at ha
  exact mem_closure_cases ha

theorem union (hF : F ⊆ M) : IsStable P (E ∪ F) M := by
  have hF' : F ⊆ closure P M E := by
    rw [← h]
    exact hF
  rw [IsStable, closure_union_of_subset hF']
  exact h

omit h

theorem of_closed (hE : E ⊆ M) (hclosed : ∀ c ∈ P, c.Active M → c.head ∈ M)
    (hsub : M ⊆ closure P M E) : IsStable P E M := by
  apply Set.Subset.antisymm hsub
  exact closure_subset hE fun c hc hpos hneg => hclosed c hc ⟨hpos, hneg⟩

theorem iff_closed (hE : E ⊆ M) : IsStable P E M ↔
    (∀ c ∈ P, c.Active M → c.head ∈ M) ∧ M ⊆ closure P M E :=
  ⟨fun h => ⟨fun _ hc hact => h.head_mem hc hact, h.subset⟩, fun h => of_closed hE h.1 h.2⟩

end IsStable

/-- No clause of `P` mentions a head of `Q`. -/
def Precedes (P Q : Set (Clause α)) : Prop :=
  ∀ c ∈ P, ∀ d ∈ Q, d.head ∉ c.pos ∧ d.head ∉ c.neg

/-- No clause of `P` is blocked by a head of `P`. -/
def NegationFree (P : Set (Clause α)) : Prop := ∀ c ∈ P, ∀ d ∈ P, d.head ∉ c.neg

theorem IsStable.extend (hS : IsStable P E S) (hM : IsStable Q S M) (hPQ : Precedes P Q) :
    IsStable (P ∪ Q) E M := by
  have hSM : S ⊆ M := hM.facts_subset
  have hback : ∀ a ∈ M, (∀ d ∈ Q, d.head ≠ a) → a ∈ S := by
    intro a ha hno
    rcases hM.mem_cases ha with h | ⟨d, hd, rfl⟩
    · exact h
    · exact absurd rfl (hno d hd)
  have hneg : ∀ c ∈ P, (∀ a ∈ c.neg, a ∉ S) → ∀ a ∈ c.neg, a ∉ M := by
    intro c hc hno a ha haM
    have haS : a ∈ S := hback a haM fun d hd he => (hPQ c hc d hd).2 (he ▸ ha)
    exact hno a ha haS
  have hSsub : S ⊆ closure (P ∪ Q) M E := by
    have hcl : closure P S E ⊆ closure (P ∪ Q) M E := by
      refine closure_subset (subset_closure _ _ _) ?_
      intro c hc hpos hno
      exact head_mem_closure (.inl hc) hpos (hneg c hc hno)
    rwa [← hS] at hcl
  refine IsStable.of_closed (hS.facts_subset.trans hSM) ?_ ?_
  · intro c hc hact
    rcases hc with hc | hc
    · have hpos : c.pos ⊆ S := by
        intro a ha
        exact hback a (hact.1 ha) fun d hd he => (hPQ c hc d hd).1 (he ▸ ha)
      exact hSM (hS.head_mem hc ⟨hpos, fun a ha haS => hact.2 a ha (hSM haS)⟩)
    · exact hM.head_mem hc hact
  · have hcl : closure Q M S ⊆ closure (P ∪ Q) M E := by
      refine closure_subset hSsub ?_
      intro c hc hpos hno
      exact head_mem_closure (.inr hc) hpos hno
    rwa [← hM] at hcl

theorem closure_union_of_closed (hS : ∀ c ∈ P, c.Active S → c.head ∈ S) (hPQ : Precedes P Q) :
    closure (P ∪ Q) S S = closure Q S S := by
  apply Set.Subset.antisymm
  · refine closure_subset (subset_closure Q S S) ?_
    intro c hc hpos hno
    rcases hc with hc | hc
    · have hposS : c.pos ⊆ S := by
        intro a ha
        rcases mem_closure_cases (hpos ha) with haS | ⟨d, hd, rfl⟩
        · exact haS
        · exact absurd ha (hPQ c hc d hd).1
      exact subset_closure Q S S (hS c hc ⟨hposS, hno⟩)
    · exact head_mem_closure hc hpos hno
  · exact closure_mono Set.subset_union_right Set.Subset.rfl Set.Subset.rfl

theorem closure_eq_of_closed (hS : ∀ c ∈ P, c.Active S → c.head ∈ S) :
    closure P S S = S :=
  (closure_subset Set.Subset.rfl fun c hc hpos hno => hS c hc ⟨hpos, hno⟩).antisymm
    (subset_closure P S S)

theorem NegationFree.closure_isStable (h : NegationFree P) (E : Set α) :
    IsStable P E (closure P E E) := by
  have hneg : ∀ c ∈ P, (∀ a ∈ c.neg, a ∉ E) → ∀ a ∈ c.neg, a ∉ closure P E E := by
    intro c hc hno a ha hcl
    rcases mem_closure_cases hcl with hE | ⟨d, hd, rfl⟩
    · exact hno a ha hE
    · exact h c hc d hd ha
  have hE := subset_closure P E E
  refine IsStable.of_closed hE ?_ ?_
  · intro c hc hact
    exact head_mem_closure hc hact.1 fun a ha haE => hact.2 a ha (hE haE)
  · refine closure_subset (subset_closure _ _ _) ?_
    intro c hc hpos hno
    exact head_mem_closure hc hpos (hneg c hc hno)

theorem IsStable.of_union (hP : NegationFree P) (hPQ : Precedes P Q) (hM : IsStable (P ∪ Q) E M) :
    IsStable Q (closure P E E) M := by
  have hEM := hM.facts_subset
  have hfact : ∀ a ∈ M, (∀ d ∈ P, d.head ≠ a) → (∀ d ∈ Q, d.head ≠ a) → a ∈ E := by
    intro a ha hp hq
    rcases hM.mem_cases ha with h | ⟨d, hd | hd, rfl⟩
    · exact h
    · exact absurd rfl (hp d hd)
    · exact absurd rfl (hq d hd)
  have hneg : ∀ c ∈ P, (∀ a ∈ c.neg, a ∉ E) → ∀ a ∈ c.neg, a ∉ M := by
    intro c hc hno a ha haM
    exact hno a ha (hfact a haM (fun d hd he => hP c hc d hd (he ▸ ha))
      fun d hd he => (hPQ c hc d hd).2 (he ▸ ha))
  have hSM : closure P E E ⊆ M := by
    refine closure_subset hEM ?_
    intro c hc hpos hno
    exact hM.head_mem (.inl hc) ⟨hpos, hneg c hc hno⟩
  refine IsStable.of_closed hSM (fun c hc hact => hM.head_mem (.inr hc) hact) ?_
  -- an atom that no clause of `Q` has as its head is already decided by `P`
  have hsplit : ∀ a, Derives (P ∪ Q) M E a →
      a ∈ closure Q M (closure P E E) ∧ ((∀ d ∈ Q, d.head ≠ a) → a ∈ closure P E E) := by
    intro a ha
    induction ha with
    | base ha =>
      have hE := subset_closure P E E ha
      exact ⟨subset_closure _ _ _ hE, fun _ => hE⟩
    | @fire c hc _ hno ih =>
      rcases hc with hc | hc
      · have hpos : c.pos ⊆ closure P E E := by
          intro a ha
          exact (ih a ha).2 fun d hd he => (hPQ c hc d hd).1 (he ▸ ha)
        have hhead := head_mem_closure hc hpos fun a ha haE => hno a ha (hEM haE)
        exact ⟨subset_closure _ _ _ hhead, fun _ => hhead⟩
      · exact ⟨head_mem_closure hc (fun a ha => (ih a ha).1) hno, fun h => absurd rfl (h c hc)⟩
  intro a ha
  rw [hM] at ha
  exact (hsplit a ha).1

/-- The clauses of all strata. -/
def union (Ps : List (Set (Clause α))) : Set (Clause α) := {c | ∃ P ∈ Ps, c ∈ P}

@[simp] theorem union_nil : union ([] : List (Set (Clause α))) = ∅ := by
  ext c
  simp [union]

@[simp] theorem union_cons (P : Set (Clause α)) (Ps : List (Set (Clause α))) :
    union (P :: Ps) = P ∪ union Ps := by
  ext c
  simp [union]

/-- The strata are ordered: what a stratum mentions is decided when it is reached. -/
structure Stratified (Ps : List (Set (Clause α))) : Prop where
  negation : ∀ P ∈ Ps, NegationFree P
  order : Ps.Pairwise Precedes

theorem Stratified.tail (h : Stratified (P :: Ps)) : Stratified Ps :=
  ⟨fun Q hQ => h.negation Q (.tail P hQ), (List.pairwise_cons.mp h.order).2⟩

theorem Stratified.head_precedes (h : Stratified (P :: Ps)) : Precedes P (union Ps) := by
  intro c hc d ⟨Q, hQ, hd⟩
  exact (List.pairwise_cons.mp h.order).1 Q hQ c hc d hd

/-- The strata evaluated in order, each to its fixpoint. -/
def perfect : List (Set (Clause α)) → Set α → Set α
  | [], E => E
  | P :: Ps, E => perfect Ps (closure P E E)

theorem Stratified.isStable_iff (h : Stratified Ps) :
    IsStable (union Ps) E M ↔ M = perfect Ps E := by
  induction Ps generalizing E with
  | nil =>
    have hnil : closure ∅ M E = E :=
      (closure_subset (P := ∅) Set.Subset.rfl fun c hc => hc.elim).antisymm (subset_closure _ _ _)
    rw [IsStable, union_nil, hnil, perfect]
  | cons P Ps ih =>
    have hP := h.negation P (.head Ps)
    rw [union_cons, perfect, ← ih h.tail]
    constructor
    · exact IsStable.of_union hP h.head_precedes
    · exact fun hM => (hP.closure_isStable E).extend hM h.head_precedes

theorem Stratified.perfect_isStable (h : Stratified Ps) (E : Set α) :
    IsStable (union Ps) E (perfect Ps E) :=
  h.isStable_iff.mpr rfl

theorem Stratified.unique (h : Stratified Ps) {M' : Set α} (hM : IsStable (union Ps) E M)
    (hM' : IsStable (union Ps) E M') : M = M' := by
  rw [h.isStable_iff.mp hM, h.isStable_iff.mp hM']

theorem subset_perfect (Ps : List (Set (Clause α))) (E : Set α) : E ⊆ perfect Ps E := by
  induction Ps generalizing E with
  | nil => exact Set.Subset.rfl
  | cons P Ps ih => exact (subset_closure P E E).trans (ih _)

theorem ClosedUnder.perfect (h : ClosedUnder (union Ps) X) (hE : E ⊆ X) :
    GroundProgram.perfect Ps E ⊆ X := by
  induction Ps generalizing E with
  | nil => exact hE
  | cons P Ps ih =>
    rw [union_cons] at h
    exact ih (h.mono Set.subset_union_right) ((h.mono Set.subset_union_left).closure hE)

theorem mem_perfect_cases {a : α} (ha : a ∈ perfect Ps E) : a ∈ E ∨ ∃ c ∈ union Ps, c.head = a := by
  induction Ps generalizing E with
  | nil => exact .inl ha
  | cons P Ps ih =>
    rw [union_cons]
    rcases ih ha with hcl | ⟨c, hc, hh⟩
    · rcases mem_closure_cases hcl with hE | ⟨c, hc, hh⟩
      · exact .inl hE
      · exact .inr ⟨c, .inl hc, hh⟩
    · exact .inr ⟨c, .inr hc, hh⟩

theorem Stratified.perfect_eq_iff (h : Stratified Ps) {T : Set α} :
    perfect Ps T = perfect Ps E ↔ T ⊆ perfect Ps E ∧ E ⊆ perfect Ps T := by
  constructor
  · intro he
    exact ⟨he ▸ subset_perfect Ps T, he ▸ subset_perfect Ps E⟩
  · intro ⟨hT, hE⟩
    have h₁ := (h.perfect_isStable T).union hE
    have h₂ := (h.perfect_isStable E).union hT
    rw [Set.union_comm] at h₂
    exact h.unique h₁ h₂

theorem NegationFree.eq_closure (h : NegationFree P) (hE : E ⊆ S) (hsound : S ⊆ closure P E E)
    (hclosed : ∀ c ∈ P, c.Active S → c.head ∈ S) :
    S = closure P E E := by
  apply hsound.antisymm
  refine closure_subset hE ?_
  intro c hc hpos hno
  refine hclosed c hc ⟨hpos, ?_⟩
  intro a ha haS
  rcases mem_closure_cases (hsound haS) with haE | ⟨d, hd, rfl⟩
  · exact hno a ha haE
  · exact h c hc d hd ha

end RdfDatalog.GroundProgram

namespace RdfDatalog.GroundProgram

variable {α : Type} {P Q : Set (Clause α)} {N E : Set α} {a : α}

/-- `a` has a proof tree from the facts `E`, in which `U` is what stands below the root. -/
inductive ProofTree (P : Set (Clause α)) (N E : Set α) : α → Set α → Prop
  | leaf {a : α} (ha : a ∈ E) : ProofTree P N E a ∅
  | node {c : Clause α} (hc : c ∈ P) (U : α → Set α)
      (hpos : ∀ a ∈ c.pos, ProofTree P N E a (U a)) (hneg : ∀ a ∈ c.neg, a ∉ N) :
      ProofTree P N E c.head {u | ∃ a ∈ c.pos, u = a ∨ u ∈ U a}

/-- A clause of `P` needs `b` for its head `a`. -/
def Uses (P : Set (Clause α)) (b a : α) : Prop := ∃ c ∈ P, c.head = a ∧ b ∈ c.pos

theorem ProofTree.mono {N' U : Set α} (h : ProofTree P N E a U) (hP : P ⊆ Q) (hN : N' ⊆ N) :
    ProofTree Q N' E a U := by
  induction h with
  | leaf ha => exact .leaf ha
  | node hc U _ hneg ih => exact .node (hP hc) U ih fun a ha haN => hneg a ha (hN haN)

theorem exists_proofTree (h : a ∈ closure P N E) :
    ∃ U, ProofTree P N E a U ∧ ∀ u ∈ U, Relation.TransGen (Uses P) u a := by
  induction h with
  | base ha => exact ⟨∅, .leaf ha, fun u hu => hu.elim⟩
  | @fire c hc _ hneg ih =>
    have hbelow : ∀ b, ∃ U, b ∈ c.pos →
        ProofTree P N E b U ∧ ∀ u ∈ U, Relation.TransGen (Uses P) u b := by
      intro b
      by_cases hb : b ∈ c.pos
      · obtain ⟨U, hU⟩ := ih b hb
        exact ⟨U, fun _ => hU⟩
      · exact ⟨∅, fun hb' => absurd hb' hb⟩
    choose U hU using hbelow
    refine ⟨_, .node hc U (fun b hb => (hU b hb).1) hneg, ?_⟩
    intro u ⟨b, hb, hu⟩
    have hstep : Uses P b c.head := ⟨c, hc, rfl, hb⟩
    rcases hu with rfl | hu
    · exact .single hstep
    · exact ((hU b hb).2 u hu).tail hstep

end RdfDatalog.GroundProgram
