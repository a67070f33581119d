import Mathlib.Order.WellFounded

namespace RdfDatalog

section Throughout

variable {α : Type} {child : α → α → Prop} {Agrees Sound : α → Prop}

/-- What holds of a node and of all nodes under it. -/
def Throughout (child : α → α → Prop) (P : α → Prop) (root : α) : Prop :=
  ∀ a, Relation.ReflTransGen child root a → P a

theorem Throughout.self {P : α → Prop} {a : α} (h : Throughout child P a) : P a := h a .refl

theorem Throughout.below {P : α → Prop} {a b : α} (h : Throughout child P a) (hab : child a b) :
    Throughout child P b :=
  fun c hbc => h c (.head hab hbc)

theorem Throughout.of_children {P : α → Prop} {a : α} (h : P a)
    (hchildren : ∀ b, child a b → Throughout child P b) : Throughout child P a := by
  intro c hac
  rcases hac.cases_head with rfl | ⟨b, hab, hbc⟩
  · exact h
  · exact hchildren b hab c hbc

/-- Where a node with agreeing children agrees exactly if it is sound, a tree agrees throughout
exactly if it is sound throughout. -/
theorem agrees_throughout_iff (wf : WellFounded fun b a => child a b)
    (hlocal : ∀ a, (∀ b, child a b → Agrees b) → (Agrees a ↔ Sound a)) (root : α) :
    Throughout child Agrees root ↔ Throughout child Sound root := by
  constructor
  · intro hagrees a ha
    have hchildren (b : α) (hab : child a b) : Agrees b := hagrees b (ha.tail hab)
    exact (hlocal a hchildren).mp (hagrees a ha)
  · intro hsound a ha
    have hall : Throughout child Sound a := fun b hab => hsound b (ha.trans hab)
    clear ha
    -- the children first: they are sound throughout as well
    induction a using wf.induction with
    | h a ih =>
      exact (hlocal a fun b hab => ih b hab (hall.below hab)).mpr hall.self

end Throughout

section Parts

variable {α β : Type} {P : α → Prop} {parts : List α}

theorem holds_parts {f : β → α} {list : List β} (hparts : parts = list.map f)
    (h : ∀ part ∈ parts, P part) : ∀ x ∈ list, P (f x) := by
  intro x hx
  apply h
  rw [hparts]
  exact List.mem_map_of_mem hx

/-- The second operand may be left out. -/
theorem holds_operands {p : Prop} [Decidable p] {Q : β → Prop} {a b : β}
    (h : ∀ x ∈ a :: if p then [b] else [], Q x) : Q a ∧ (p → Q b) := by
  refine ⟨h a (.head _), fun hp => h b ?_⟩
  rw [if_pos hp]
  exact .tail _ (.head _)

/-- The items that a search for one with `p` looks at. -/
def upTo {α : Type} (p : α → Bool) : List α → List α
  | [] => []
  | a :: as => a :: if p a then [] else upTo p as

theorem upTo_subset (p : α → Bool) (list : List α) : upTo p list ⊆ list := by
  induction list with
  | nil => exact List.Subset.refl _
  | cons a as ih =>
    rw [upTo]
    split_ifs
    · simp
    · exact List.cons_subset_cons a ih

theorem any_upTo {p q : α → Bool} {list : List α} (h : ∀ a ∈ upTo p list, q a = p a) :
    list.any q = list.any p := by
  induction list with
  | nil => rfl
  | cons a as ih =>
    rw [List.any_cons, List.any_cons, h a (.head _)]
    cases hp : p a with
    | true => rfl
    | false =>
      refine ih fun b hb => h b (.tail _ ?_)
      rwa [hp]

/-- The right operand only matters where the left one is there. -/
theorem bind_agrees {γ δ : Type} {a a' : Option α} {b b' : Option γ} (ha : a = a')
    (hb : a'.isSome → b = b') (f : α → γ → Option δ) :
    (a.bind fun x => b.bind (f x)) = a'.bind fun x => b'.bind (f x) := by
  subst ha
  cases a with
  | none => rfl
  | some x => rw [hb rfl]

end Parts

section Kleene

/-- Conjunction of truth values, with `none` for an error. -/
def kleeneAnd : Option Bool → Option Bool → Option Bool
  | some false, _ => some false
  | _, some false => some false
  | some true, some true => some true
  | _, _ => none

def kleeneOr : Option Bool → Option Bool → Option Bool
  | some true, _ => some true
  | _, some true => some true
  | some false, some false => some false
  | _, _ => none

def kleeneAny (l : List (Option Bool)) : Option Bool := l.foldr kleeneOr (some false)

/-- Reading errors as false keeps a conjunction that is no error, also when the operands are
replaced by others that keep what is no error. -/
theorem kleeneAnd_getD {a b c d : Option Bool} {r : Bool} (ha : ∀ x, a = some x → c = some x)
    (hb : ∀ x, b = some x → d = some x) (h : kleeneAnd a b = some r) :
    (c.getD false && d.getD false) = r := by
  rcases a with _ | _ | _ <;> rcases b with _ | _ | _ <;>
    simp_all [kleeneAnd]

theorem kleeneOr_getD {a b c d : Option Bool} {r : Bool} (ha : ∀ x, a = some x → c = some x)
    (hb : ∀ x, b = some x → d = some x) (h : kleeneOr a b = some r) :
    (c.getD false || d.getD false) = r := by
  rcases a with _ | _ | _ <;> rcases b with _ | _ | _ <;>
    simp_all [kleeneOr]

theorem kleeneAny_getD {l : List (Option Bool)} {r : Bool} (h : kleeneAny l = some r) :
    l.any (·.getD false) = r := by
  induction l generalizing r with
  | nil => exact Option.some.inj h
  | cons a l ih =>
    rw [kleeneAny, List.foldr_cons] at h
    have htail (x : Bool) (hx : l.foldr kleeneOr (some false) = some x) :
        some (l.any (·.getD false)) = some x := congrArg some (ih hx)
    have hor := kleeneOr_getD (fun _ hx => hx) htail h
    rwa [List.any_cons]

end Kleene

end RdfDatalog
