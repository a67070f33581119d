import Mathlib.Data.Set.Basic
import Mathlib.Tactic.Tauto

namespace RdfDatalog.LoopRelation

open Relation

variable {α : Type} {V : Set α} {R R' : α → α → Prop} {F F' : α → Prop}

/-- The relation together with loops at the elements that satisfy `F`. -/
def withLoops (R : α → α → Prop) (F : α → Prop) (a b : α) : Prop := R a b ∨ (a = b ∧ F a)

/-- `R` relates elements of `V` only, and has the loops at the elements of `V` already. -/
structure OnNodes (V : Set α) (R : α → α → Prop) (F : α → Prop) : Prop where
  left : ∀ a b, R a b → a ∈ V
  right : ∀ a b, R a b → b ∈ V
  loop : ∀ a ∈ V, F a → R a a

theorem withLoops_flip (R : α → α → Prop) (F : α → Prop) (a b : α) :
    withLoops R F b a ↔ withLoops (fun a b => R b a) F a b := by
  unfold withLoops
  apply or_congr Iff.rfl
  constructor
  · intro ⟨h, hF⟩
    exact ⟨h.symm, h ▸ hF⟩
  · intro ⟨h, hF⟩
    exact ⟨h.symm, h ▸ hF⟩

theorem withLoops_or (a b : α) : (withLoops R F a b ∨ withLoops R' F' a b) ↔
    withLoops (fun a b => R a b ∨ R' a b) (fun a => F a ∨ F' a) a b := by
  unfold withLoops
  tauto

variable (h : OnNodes V R F)

include h

theorem OnNodes.flip : OnNodes V (fun a b => R b a) F :=
  ⟨fun a b hr => h.right b a hr, fun a b hr => h.left b a hr, h.loop⟩

theorem OnNodes.or (h' : OnNodes V R' F') :
    OnNodes V (fun a b => R a b ∨ R' a b) (fun a => F a ∨ F' a) :=
  ⟨fun a b hr => hr.elim (h.left a b) (h'.left a b),
    fun a b hr => hr.elim (h.right a b) (h'.right a b),
    fun a ha hF => hF.imp (h.loop a ha) (h'.loop a ha)⟩

theorem OnNodes.comp (h' : OnNodes V R' F') :
    OnNodes V (Comp R R') (fun a => F a ∧ F' a) := by
  constructor
  · intro a b ⟨c, hac, _⟩
    exact h.left a c hac
  · intro a b ⟨c, _, hcb⟩
    exact h'.right c b hcb
  · intro a ha ⟨hF, hF'⟩
    exact ⟨a, h.loop a ha hF, h'.loop a ha hF'⟩

theorem OnNodes.comp_withLoops (h' : OnNodes V R' F') (a b : α) :
    Comp (withLoops R F) (withLoops R' F') a b ↔
      withLoops (Comp R R') (fun a => F a ∧ F' a) a b := by
  constructor
  · intro ⟨c, hac, hcb⟩
    rcases hac with hac | ⟨rfl, hF⟩
    · rcases hcb with hcb | ⟨rfl, hF'⟩
      · exact .inl ⟨c, hac, hcb⟩
      · exact .inl ⟨c, hac, h'.loop c (h.right a c hac) hF'⟩
    · rcases hcb with hcb | ⟨rfl, hF'⟩
      · exact .inl ⟨a, h.loop a (h'.left a b hcb) hF, hcb⟩
      · exact .inr ⟨rfl, hF, hF'⟩
  · rintro (⟨c, hac, hcb⟩ | ⟨rfl, hF, hF'⟩)
    · exact ⟨c, .inl hac, .inl hcb⟩
    · exact ⟨a, .inr ⟨rfl, hF⟩, .inr ⟨rfl, hF'⟩⟩

theorem OnNodes.transGen : OnNodes V (TransGen R) F := by
  constructor
  · intro a b hab
    obtain ⟨c, hac, _⟩ := TransGen.head'_iff.mp hab
    exact h.left a c hac
  · intro a b hab
    obtain ⟨c, _, hcb⟩ := TransGen.tail'_iff.mp hab
    exact h.right c b hcb
  · intro a ha hF
    exact .single (h.loop a ha hF)

omit h

theorem transGen_withLoops (a b : α) :
    TransGen (withLoops R F) a b ↔ withLoops (TransGen R) F a b := by
  constructor
  · intro hab
    induction hab with
    | single hab => exact hab.imp .single id
    | @tail b c _ hbc ih =>
      rcases ih with hab | ⟨rfl, hF⟩
      · rcases hbc with hbc | ⟨rfl, _⟩
        · exact .inl (hab.tail hbc)
        · exact .inl hab
      · exact hbc.imp .single id
  · rintro (hab | ⟨rfl, hF⟩)
    · have hle : R ≤ withLoops R F := fun _ _ => Or.inl
      exact TransGen.mono hle a b hab
    · exact .single (.inr ⟨rfl, hF⟩)

include h in
theorem OnNodes.mono (hF : ∀ a, F' a → F a) : OnNodes V R F' :=
  ⟨h.left, h.right, fun a ha ha' => h.loop a ha (hF a ha')⟩

section Chain

/-- The identity on `V`. -/
def idOn (V : Set α) (a b : α) : Prop := a = b ∧ a ∈ V

theorem onNodes_idOn (V : Set α) (F : α → Prop) : OnNodes V (idOn V) F :=
  ⟨fun _ _ h => h.2, fun _ _ h => h.1 ▸ h.2, fun _ ha _ => ⟨rfl, ha⟩⟩

/-- The composition of relations one after another, the identity on `V` when there are none. -/
def chain (V : Set α) : List (α → α → Prop) → α → α → Prop
  | [] => idOn V
  | R :: Rs => Comp R (chain V Rs)

theorem chain_singleton (h : ∀ a b, R a b → b ∈ V) (a b : α) : chain V [R] a b ↔ R a b := by
  constructor
  · intro ⟨c, hac, hcb, _⟩
    exact hcb ▸ hac
  · intro hab
    exact ⟨b, hab, rfl, h a b hab⟩

theorem onNodes_chain {Rs : List (α → α → Prop)} (h : ∀ R ∈ Rs, OnNodes V R F) :
    OnNodes V (chain V Rs) F := by
  induction Rs with
  | nil => exact onNodes_idOn V F
  | cons R Rs ih =>
    have hR := h R (.head Rs)
    have hRs := ih fun R' hR' => h R' (.tail R hR')
    exact (hR.comp hRs).mono fun _ ha => ⟨ha, ha⟩

theorem chain_withLoops {ι : Type} {U : Set α} (hVU : V ⊆ U) {l : List ι}
    {R : ι → α → α → Prop} {F : ι → α → Prop} (h : ∀ i ∈ l, OnNodes V (R i) (F i)) (a b : α) :
    chain U (l.map fun i => withLoops (R i) (F i)) a b ↔
      withLoops (chain V (l.map R)) (fun a => a ∈ U ∧ ∀ i ∈ l, F i a) a b := by
  induction l generalizing a with
  | nil =>
    simp only [List.map_nil, chain, withLoops, idOn, List.not_mem_nil, false_implies,
      implies_true, and_true]
    constructor
    · exact .inr
    · exact fun hab => hab.elim (fun hab => ⟨hab.1, hVU hab.2⟩) id
  | cons i l ih =>
    have hi := h i (.head l)
    have hl := fun j hj => h j (.tail i hj)
    have hrest : OnNodes V (chain V (l.map R)) fun a => a ∈ U ∧ ∀ j ∈ l, F j a := by
      apply onNodes_chain
      intro R' hR'
      obtain ⟨j, hj, rfl⟩ := List.mem_map.mp hR'
      exact (hl j hj).mono fun a ha => ha.2 j hj
    have hcomp := hi.comp_withLoops hrest a b
    simp only [List.map_cons, chain, List.forall_mem_cons]
    constructor
    · intro ⟨c, hac, hcb⟩
      have hab := hcomp.mp ⟨c, hac, (ih hl c).mp hcb⟩
      exact hab.imp_right fun ⟨heq, hF, hU, hall⟩ => ⟨heq, hU, hF, hall⟩
    · intro hab
      obtain ⟨c, hac, hcb⟩ := hcomp.mpr <| Or.imp_right
        (fun ⟨heq, hU, hF, hall⟩ => ⟨heq, hF, hU, hall⟩) hab
      exact ⟨c, hac, (ih hl c).mpr hcb⟩

theorem transGen_or_idOn_iff (hright : ∀ a b, R a b → b ∈ V)
    (a b : α) : (idOn V a b ∨ TransGen R a b) ↔ ∃ k, chain V (List.replicate k R) a b := by
  constructor
  · rintro (hab | hab)
    · exact ⟨0, hab⟩
    · induction hab using TransGen.head_induction_on with
      | single hab => exact ⟨1, (chain_singleton hright _ _).mpr hab⟩
      | head hac _ ih =>
        obtain ⟨k, hk⟩ := ih
        exact ⟨k + 1, _, hac, hk⟩
  · intro ⟨k, hk⟩
    induction k generalizing a with
    | zero => exact .inl hk
    | succ k ih =>
      obtain ⟨c, hac, hcb⟩ := hk
      rcases ih c hcb with ⟨rfl, _⟩ | hcb
      · exact .inr (.single hac)
      · exact .inr (.head hac hcb)

theorem chain_replicate_star (hright : ∀ a b, R a b → b ∈ V)
    (n : Nat) (a b : α) :
    chain V (List.replicate n R ++ [fun a b => idOn V a b ∨ TransGen R a b]) a b ↔
      ∃ k, n ≤ k ∧ chain V (List.replicate k R) a b := by
  have hstar : ∀ a b, idOn V a b ∨ TransGen R a b → b ∈ V := by
    rintro a b (⟨rfl, ha⟩ | hab)
    · exact ha
    · obtain ⟨c, _, hcb⟩ := TransGen.tail'_iff.mp hab
      exact hright c b hcb
  induction n generalizing a with
  | zero =>
    rw [List.replicate_zero, List.nil_append, chain_singleton hstar,
      transGen_or_idOn_iff hright]
    simp
  | succ n ih =>
    constructor
    · intro ⟨c, hac, hcb⟩
      obtain ⟨k, hk, hcb⟩ := (ih c).mp hcb
      exact ⟨k + 1, Nat.succ_le_succ hk, c, hac, hcb⟩
    · intro ⟨k, hk, hab⟩
      cases k with
      | zero => omega
      | succ k =>
        obtain ⟨c, hac, hcb⟩ := hab
        exact ⟨c, hac, (ih c).mpr ⟨k, Nat.le_of_succ_le_succ hk, hcb⟩⟩

end Chain

end RdfDatalog.LoopRelation
