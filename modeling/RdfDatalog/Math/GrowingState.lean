import Mathlib.Order.Basic
import Mathlib.Data.List.Forall2

namespace RdfDatalog.GrowingState

variable {σ α β : Type} [Preorder σ]

/-- A run only grows the state; a run from any later state repeats the result and leaves that state
as it is. -/
structure Settles (f : StateM σ α) : Prop where
  grows : ∀ s, s ≤ (f s).2
  again : ∀ s t, (f s).2 ≤ t → f t = ((f s).1, t)

/-- A run only grows the state, and `Q` holds of its result in every later state. -/
def Yields (f : StateM σ α) (Q : σ → α → Prop) : Prop :=
  ∀ s, s ≤ (f s).2 ∧ ∀ t, (f s).2 ≤ t → Q t (f s).1

namespace Settles

theorem pure (a : α) : Settles (Pure.pure a : StateM σ α) :=
  ⟨fun _ => le_rfl, fun _ _ _ => rfl⟩

theorem bind {f : StateM σ α} {g : α → StateM σ β} (hf : Settles f) (hg : ∀ a, Settles (g a)) :
    Settles (f >>= g) := by
  constructor
  · intro s
    exact (hf.grows s).trans ((hg _).grows _)
  · intro s t h
    have hmid : (f s).2 ≤ t := ((hg _).grows _).trans h
    have hrun : (f >>= g) t = g (f t).1 (f t).2 := rfl
    rw [hrun, hf.again s t hmid]
    exact (hg _).again _ t h

theorem mapM {f : α → StateM σ β} {l : List α} (hf : ∀ a ∈ l, Settles (f a)) :
    Settles (l.mapM f) := by
  induction l with
  | nil => exact pure []
  | cons a l ih =>
    rw [List.mapM_cons]
    have htail := ih fun b hb => hf b (.tail a hb)
    exact (hf a (.head l)).bind fun b => htail.bind fun bs => pure (b :: bs)

section Optional

theorem optionBind {f : OptionT (StateM σ) α} {g : α → OptionT (StateM σ) β}
    (hf : Settles f.run) (hg : ∀ a, Settles (g a).run) : Settles (f >>= g).run := by
  rw [OptionT.run_bind, Option.elimM]
  refine hf.bind fun o => ?_
  cases o with
  | none => exact pure none
  | some a => exact hg a

theorem optionMapM {f : α → OptionT (StateM σ) β} {l : List α}
    (hf : ∀ a ∈ l, Settles (f a).run) : Settles (l.mapM f).run := by
  induction l with
  | nil => exact pure (some [])
  | cons a l ih =>
    rw [List.mapM_cons]
    have htail := ih fun b hb => hf b (.tail a hb)
    exact (hf a (.head l)).optionBind fun b => htail.optionBind fun bs => pure (some (b :: bs))

end Optional

end Settles

namespace Yields

variable {Q Q' : σ → α → Prop} {R : σ → β → Prop}

theorem pure {a : α} (h : ∀ s, Q s a) : Yields (Pure.pure a) Q :=
  fun _ => ⟨le_rfl, fun t _ => h t⟩

theorem bind {f : StateM σ α} {g : α → StateM σ β} (hf : Yields f Q)
    (hg : ∀ a, Yields (g a) fun s b => Q s a → R s b) : Yields (f >>= g) R := by
  intro s
  have hlater := hg (f s).1 (f s).2
  refine ⟨(hf s).1.trans hlater.1, fun t ht => ?_⟩
  exact hlater.2 t ht ((hf s).2 t (hlater.1.trans ht))

theorem weaken {f : StateM σ α} (hf : Yields f Q) (h : ∀ s a, Q s a → Q' s a) : Yields f Q' :=
  fun s => ⟨(hf s).1, fun t ht => h t _ ((hf s).2 t ht)⟩

theorem mapM {f : α → StateM σ β} {P : α → σ → β → Prop} {l : List α}
    (hf : ∀ a ∈ l, Yields (f a) (P a)) :
    Yields (l.mapM f) fun s bs => List.Forall₂ (fun a b => P a s b) l bs := by
  induction l with
  | nil => exact pure fun _ => .nil
  | cons a l ih =>
    rw [List.mapM_cons]
    have htail := ih fun b hb => hf b (.tail a hb)
    refine (hf a (.head l)).bind fun b => htail.bind fun bs => ?_
    exact pure fun _ hrest hb => .cons hb hrest

end Yields

/-- A run only grows the state; it has a result just when `ok` says so, and `Q` holds of the result
in every later state. -/
def Succeeds (f : OptionT (StateM σ) α) (ok : Bool) (Q : σ → α → Prop) : Prop :=
  Yields f.run fun s o => o.isSome = ok ∧ ∀ a, o = some a → Q s a

namespace Succeeds

variable {Q Q' : σ → α → Prop} {R : σ → β → Prop} {b c : Bool}

theorem pure {a : α} (h : ∀ s, Q s a) : Succeeds (Pure.pure a) true Q :=
  Yields.pure fun s => ⟨rfl, fun _ ha => Option.some.inj ha ▸ h s⟩

theorem failure : Succeeds (failure : OptionT (StateM σ) α) false Q :=
  Yields.pure fun _ => ⟨rfl, nofun⟩

theorem lift {f : StateM σ α} (hf : Yields f Q) : Succeeds (OptionT.lift f) true Q :=
  hf.bind fun _ => Yields.pure fun _ h => ⟨rfl, fun _ ha => Option.some.inj ha ▸ h⟩

variable {f : OptionT (StateM σ) α} {g : α → OptionT (StateM σ) β}

variable (hf : Succeeds f b Q)

include hf

theorem weaken (h : ∀ s a, Q s a → Q' s a) :
    Succeeds f b Q' :=
  Yields.weaken hf fun s _ ho => ⟨ho.1, fun a ha => h s a (ho.2 a ha)⟩

theorem bind (hg : ∀ a, Succeeds (g a) c fun s x => Q s a → R s x) :
    Succeeds (f >>= g) (b && c) R := by
  unfold Succeeds
  rw [OptionT.run_bind, Option.elimM]
  refine Yields.bind hf fun o => ?_
  cases o with
  | none =>
    refine Yields.pure fun _ h => ⟨?_, nofun⟩
    rw [← h.1]
    rfl
  | some a =>
    refine Yields.weaken (hg a) fun s _ hx h => ⟨?_, fun x hr => hx.2 x hr (h.2 a rfl)⟩
    rw [hx.1, ← h.1]
    rfl

theorem andThen (hg : ∀ a, Succeeds (g a) true fun s x => Q s a → R s x) :
    Succeeds (f >>= g) b R := by
  have h := hf.bind hg
  rwa [Bool.and_true] at h

theorem andThenOf
    (hg : ∀ a, Yields (g a).run fun s o => Q s a → o.isSome = true ∧ ∀ x, o = some x → R s x) :
    Succeeds (f >>= g) b R := by
  unfold Succeeds
  rw [OptionT.run_bind, Option.elimM]
  refine Yields.bind hf fun o => ?_
  cases o with
  | none => exact Yields.pure fun _ h => ⟨h.1, nofun⟩
  | some a =>
    refine Yields.weaken (hg a) fun s _ hx h => ?_
    obtain ⟨hsome, hr⟩ := hx (h.2 a rfl)
    exact ⟨hsome.trans h.1, hr⟩

omit hf

theorem mapM {f : α → OptionT (StateM σ) β} {ok : α → Bool} {P : α → σ → β → Prop} {l : List α}
    (hf : ∀ a ∈ l, Succeeds (f a) (ok a) (P a)) :
    Succeeds (l.mapM f) (l.all ok) fun s bs => List.Forall₂ (fun a b => P a s b) l bs := by
  induction l with
  | nil => exact pure fun _ => .nil
  | cons a l ih =>
    rw [List.mapM_cons, List.all_cons]
    have htail := ih fun b hb => hf b (.tail a hb)
    refine (hf a (.head l)).bind fun b => htail.andThen fun bs => ?_
    exact pure fun _ hrest hb => .cons hb hrest

end Succeeds

/-- A run only grows the state, and a run from any later state repeats the result. -/
structure Repeats (f : StateM σ α) : Prop where
  grows : ∀ s, s ≤ (f s).2
  again : ∀ s t, (f s).2 ≤ t → (f t).1 = (f s).1

theorem Settles.repeats {f : StateM σ α} (hf : Settles f) : Repeats f :=
  ⟨hf.grows, fun s t h => by rw [hf.again s t h]⟩

theorem Yields.grows {f : StateM σ α} {Q : σ → α → Prop} (hf : Yields f Q) (s : σ) :
    s ≤ (f s).2 :=
  (hf s).1

section Runs

variable {f : α → StateM σ β} {l : List α}

theorem grows_mapM (hf : ∀ a ∈ l, ∀ s, s ≤ (f a s).2) (s : σ) : s ≤ (l.mapM f s).2 := by
  induction l generalizing s with
  | nil => exact le_rfl
  | cons a l ih =>
    rw [List.mapM_cons]
    exact (hf a (.head l) s).trans (ih (fun b hb => hf b (.tail a hb)) _)

theorem forall₂_mapM (hf : ∀ a ∈ l, ∀ s, s ≤ (f a s).2) (s : σ) :
    List.Forall₂ (fun a b => ∃ t, s ≤ t ∧ (f a t).2 ≤ (l.mapM f s).2 ∧ (f a t).1 = b) l
      (l.mapM f s).1 := by
  induction l generalizing s with
  | nil => exact .nil
  | cons a l ih =>
    rw [List.mapM_cons]
    have htail := fun b hb => hf b (.tail a hb)
    have hhead := hf a (.head l) s
    refine .cons ⟨s, le_rfl, grows_mapM htail _, rfl⟩ ?_
    refine (ih htail (f a s).2).imp fun b x h => ?_
    obtain ⟨t, ht, hle, hx⟩ := h
    exact ⟨t, hhead.trans ht, hle, hx⟩

theorem optionBind_run {σ α β : Type} (f : OptionT (StateM σ) α) (g : α → OptionT (StateM σ) β)
    (s : σ) : (f >>= g).run s = match f.run s with
      | (none, t) => (none, t)
      | (some a, t) => (g a).run t := by
  rw [OptionT.run_bind, Option.elimM]
  change (f.run s).1.elim (pure none) (fun a => (g a).run) (f.run s).2 = _
  cases f.run s with
  | mk o t => cases o <;> rfl

theorem forall₂_optionMapM {f : α → OptionT (StateM σ) β} {l : List α}
    (hf : ∀ a ∈ l, ∀ s, s ≤ ((f a).run s).2) {s t : σ} {bs : List β}
    (hrun : (l.mapM f).run s = (some bs, t)) :
    List.Forall₂ (fun a b => ∃ u, s ≤ u ∧ ((f a).run u).2 ≤ t ∧ ((f a).run u).1 = some b) l bs ∧
      s ≤ t := by
  induction l generalizing s bs with
  | nil =>
    cases hrun
    exact ⟨.nil, le_rfl⟩
  | cons a l ih =>
    have hhead := hf a (.head l) s
    rw [List.mapM_cons, optionBind_run] at hrun
    cases ha : (f a).run s with
    | mk o u =>
      rw [ha] at hrun hhead
      cases o with
      | none => cases hrun
      | some b =>
        dsimp only at hrun
        rw [optionBind_run] at hrun
        cases hl : (l.mapM f).run u with
        | mk o v =>
          rw [hl] at hrun
          cases o with
          | none => cases hrun
          | some rest =>
            cases hrun
            obtain ⟨hall, hle⟩ := ih (fun b hb => hf b (.tail a hb)) hl
            refine ⟨.cons ⟨s, le_rfl, ?_, ?_⟩ ?_, hhead.trans hle⟩
            · rw [ha]
              exact hle
            · rw [ha]
            · refine hall.imp fun b x h => ?_
              obtain ⟨w, hw, hrest⟩ := h
              exact ⟨w, hhead.trans hw, hrest⟩

end Runs

end RdfDatalog.GrowingState
