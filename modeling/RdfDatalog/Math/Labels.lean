import Mathlib.Data.List.Nodup
import Mathlib.Data.Set.Function

/-!
Labels numbered in the order in which they are first read.
-/

namespace RdfDatalog.LabelNumbering

variable {L : Type} [DecidableEq L]

/-- The labels read so far, with one more. -/
def addSeen (seen : List L) (l : L) : List L := if l ∈ seen then seen else seen ++ [l]

/-- The number of a label: those of `seen` are numbered on from `base`. -/
def number (base : Nat) (seen : List L) (l : L) : Nat := base + 1 + seen.idxOf l

variable {seen : List L} {l : L}

theorem addSeen_of_mem (h : l ∈ seen) : addSeen seen l = seen := if_pos h

theorem addSeen_of_notMem (h : l ∉ seen) :
    addSeen seen l = seen ++ [l] := if_neg h

theorem nodup_addSeen (h : seen.Nodup) (l : L) : (addSeen seen l).Nodup := by
  rw [addSeen]
  split_ifs with hl
  · exact h
  · exact h.append (List.nodup_singleton l) (List.disjoint_singleton.mpr hl)

theorem isPrefix_addSeen (seen : List L) (l : L) : seen <+: addSeen seen l := by
  rw [addSeen]
  split_ifs
  · exact List.prefix_rfl
  · exact List.prefix_append seen [l]

@[simp] theorem mem_addSeen {k : L} : k ∈ addSeen seen l ↔ k ∈ seen ∨ k = l := by
  rw [addSeen]
  split_ifs with h
  · exact (or_iff_left_of_imp fun heq => heq ▸ h).symm
  · simp

theorem isPrefix_foldl_addSeen (labels seen : List L) : seen <+: labels.foldl addSeen seen := by
  induction labels generalizing seen with
  | nil => exact List.prefix_rfl
  | cons l labels ih => exact (isPrefix_addSeen seen l).trans (ih (addSeen seen l))

theorem mem_foldl_addSeen {labels : List L} :
    l ∈ labels.foldl addSeen seen ↔ l ∈ seen ∨ l ∈ labels := by
  induction labels generalizing seen with
  | nil => simp
  | cons k labels ih => rw [List.foldl_cons, ih, mem_addSeen, List.mem_cons, or_assoc]

theorem number_of_isPrefix (base : Nat) {seen' : List L} (hl : l ∈ seen) (h : seen <+: seen') :
    number base seen' l = number base seen l := by
  obtain ⟨tail, rfl⟩ := h
  rw [number, number, List.idxOf_append, if_pos hl]

theorem number_addSeen {base : Nat} (h : l ∉ seen) :
    number base (addSeen seen l) l = base + seen.length + 1 := by
  rw [number, addSeen_of_notMem h, List.idxOf_append, if_neg h]
  simp
  omega

theorem number_inj {base : Nat} {k : L} (hl : l ∈ seen)
    (h : number base seen l = number base seen k) : l = k := by
  rw [number, number, Nat.add_left_cancel_iff] at h
  exact (List.idxOf_inj hl).mp h

theorem number_le {base : Nat} (hl : l ∈ seen) :
    number base seen l ≤ base + seen.length := by
  have hlt := List.idxOf_lt_length_of_mem hl
  rw [number]
  omega

theorem lt_number (base : Nat) (seen : List L) (l : L) : base < number base seen l := by
  rw [number]
  omega

end RdfDatalog.LabelNumbering

namespace RdfDatalog

/-- Data with labels at some of its positions. -/
class Labelled (F : Type → Type) where
  map {α β : Type} : (α → β) → F α → F β
  labels {α : Type} : F α → Set α
  map_congr {α β : Type} {f g : α → β} {x : F α} : (∀ a ∈ labels x, f a = g a) → map f x = map g x
  map_id {α : Type} (x : F α) : map id x = x
  map_map {α β γ : Type} (g : β → γ) (f : α → β) (x : F α) : map g (map f x) = map (g ∘ f) x
  labels_map {α β : Type} (f : α → β) (x : F α) : labels (map f x) = f '' labels x

namespace LabelledSets

open Labelled

variable {F : Type → Type} [Labelled F] {α β γ : Type}

def labelsOf (D : Set (F α)) : Set α := {a | ∃ x ∈ D, a ∈ labels x}

theorem labelsOf_image (f : α → β) (D : Set (F α)) : labelsOf (map f '' D) = f '' labelsOf D := by
  ext b
  constructor
  · intro ⟨y, ⟨x, hx, hxy⟩, hb⟩
    rw [← hxy, labels_map] at hb
    obtain ⟨a, ha, hab⟩ := hb
    exact ⟨a, ⟨x, hx, ha⟩, hab⟩
  · intro ⟨a, ⟨x, hx, ha⟩, hab⟩
    refine ⟨map f x, ⟨x, hx, rfl⟩, ?_⟩
    rw [labels_map]
    exact ⟨a, ha, hab⟩

variable {D : Set (F α)}

theorem image_congr {f g : α → β} (h : ∀ a ∈ labelsOf D, f a = g a) :
    map f '' D = map g '' D :=
  Set.image_congr fun x hx => map_congr fun a ha => h a ⟨x, hx, ha⟩

theorem image_image (g : β → γ) (f : α → β) (D : Set (F α)) :
    map g '' (map f '' D) = map (g ∘ f) '' D := by
  rw [Set.image_image]
  exact Set.image_congr fun x _ => map_map g f x

theorem image_id (D : Set (F α)) : map id '' D = D := by
  have hid : (map id : F α → F α) = id := funext map_id
  rw [hid, Set.image_id]

/-- The same set up to a renaming of labels that keeps distinct ones apart. -/
def Isomorphic (D : Set (F α)) (D' : Set (F β)) : Prop :=
  ∃ f : α → β, Set.InjOn f (labelsOf D) ∧ map f '' D = D'

theorem Isomorphic.refl (D : Set (F α)) : Isomorphic D D :=
  ⟨id, Function.injective_id.injOn, image_id D⟩

theorem Isomorphic.trans {D' : Set (F β)} {D'' : Set (F γ)} (h : Isomorphic D D')
    (h' : Isomorphic D' D'') : Isomorphic D D'' := by
  obtain ⟨f, hf, rfl⟩ := h
  obtain ⟨g, hg, rfl⟩ := h'
  refine ⟨g ∘ f, ?_, (image_image g f D).symm⟩
  rw [labelsOf_image] at hg
  exact hg.comp hf (Set.mapsTo_image f _)

theorem Isomorphic.symm [Nonempty α] {D' : Set (F β)} (h : Isomorphic D D') :
    Isomorphic D' D := by
  obtain ⟨f, hf, rfl⟩ := h
  refine ⟨Function.invFunOn f (labelsOf D), ?_, ?_⟩
  · rw [labelsOf_image]
    exact Function.invFunOn_injOn_image f (labelsOf D)
  · have hback : ∀ a ∈ labelsOf D, (Function.invFunOn f (labelsOf D) ∘ f) a = id a :=
      fun a ha => hf.leftInvOn_invFunOn ha
    rw [image_image, image_congr hback, image_id]

theorem isomorphic_image_iff [Nonempty α] [Nonempty β] {δ : Type} {f : α → γ} {g : β → δ}
    (hf : f.Injective) (hg : g.Injective) (D : Set (F α)) (D' : Set (F β)) :
    Isomorphic (map f '' D) (map g '' D') ↔ Isomorphic D D' := by
  have hD : Isomorphic D (map f '' D) := ⟨f, hf.injOn, rfl⟩
  have hD' : Isomorphic D' (map g '' D') := ⟨g, hg.injOn, rfl⟩
  have : Nonempty δ := ⟨g (Classical.arbitrary β)⟩
  constructor
  · exact fun h => (hD.trans h).trans hD'.symm
  · exact fun h => (hD.symm.trans h).trans hD'

theorem Isomorphic.nonempty_iff {D' : Set (F β)} (h : Isomorphic D D') :
    D'.Nonempty ↔ D.Nonempty := by
  obtain ⟨f, _, rfl⟩ := h
  exact Set.image_nonempty

end LabelledSets

end RdfDatalog
