import Mathlib.Data.Multiset.Bind

namespace RdfDatalog

/-- A partial assignment of values to variables. -/
abbrev Mapping (V T : Type) := V → Option T

namespace Mapping

variable {V T : Type}

def empty : Mapping V T := fun _ => none

section Update

variable [DecidableEq V]

def set (m : Mapping V T) (v : V) (t : T) : Mapping V T := Function.update m v (some t)

/-- Forget the value of a variable. -/
def unset (m : Mapping V T) (v : V) : Mapping V T := Function.update m v none

@[simp] theorem set_same (m : Mapping V T) (v : V) (t : T) : m.set v t v = some t :=
  Function.update_self ..

variable {m : Mapping V T} {v : V}

theorem set_of_ne {w : V} {t : T} (h : w ≠ v) : m.set v t w = m w :=
  Function.update_of_ne h ..

theorem set_eq_self {t : T} (h : m v = some t) : m.set v t = m := by
  rw [set, ← h]
  exact Function.update_eq_self v m

theorem set_set_same (m : Mapping V T) (v : V) (t t' : T) : (m.set v t).set v t' = m.set v t' :=
  Function.update_idem ..

theorem set_comm {w : V} {t t' : T} (h : v ≠ w) :
    (m.set v t).set w t' = (m.set w t').set v t :=
  Function.update_comm h ..

theorem unset_set (h : m v = none) (t : T) : (m.set v t).unset v = m := by
  change Function.update (Function.update m v (some t)) v none = m
  rw [Function.update_idem, ← h]
  exact Function.update_eq_self v m

theorem set_inj {t t' : T} (h : m.set v t = m.set v t') : t = t' := by
  have hv : m.set v t v = m.set v t' v := congrArg (· v) h
  rw [set_same, set_same] at hv
  exact Option.some.inj hv

variable [DecidableEq T]

/-- Give `v` the value `t`, unless it has another one. -/
def bindVar (m : Mapping V T) (v : V) (t : T) : Option (Mapping V T) :=
  match m v with
  | none => some (m.set v t)
  | some t' => if t' = t then some m else none

theorem bindVar_of_none (h : m v = none) (t : T) :
    m.bindVar v t = some (m.set v t) := by
  rw [bindVar, h]

theorem bindVar_of_some {t' : T} (h : m v = some t') (t : T) :
    m.bindVar v t = if t' = t then some m else none := by
  rw [bindVar, h]

theorem bindVar_eq_some {m' : Mapping V T} {t : T} :
    m.bindVar v t = some m' ↔ (m v = none ∨ m v = some t) ∧ m' = m.set v t := by
  cases h : m v with
  | none => simp [bindVar_of_none h, eq_comm]
  | some t' =>
    rw [bindVar_of_some h]
    split_ifs with ht
    · subst ht
      rw [set_eq_self h]
      simp [eq_comm]
    · simp [ht]

end Update

end Mapping

end RdfDatalog

namespace RdfDatalog

namespace Mapping

variable {V T : Type} {m m' d e r : Mapping V T}

section Merge

/-- The two have no variable with different values. -/
def Compatible (m d : Mapping V T) : Prop := ∀ v, m v = none ∨ d v = none ∨ m v = d v

/-- The values of both. -/
def union (m d : Mapping V T) : Mapping V T := fun v => (m v).or (d v)

open Classical in
/-- The values of both, if they are compatible. -/
noncomputable def merge (m d : Mapping V T) : Option (Mapping V T) :=
  if m.Compatible d then some (m.union d) else none

theorem merge_eq_some : m.merge d = some r ↔ m.Compatible d ∧ m.union d = r := by
  rw [merge]
  split_ifs with h <;> simp [h]

theorem Compatible.symm (h : m.Compatible d) : d.Compatible m := by
  intro v
  rcases h v with hm | hd | heq
  · exact .inr (.inl hm)
  · exact .inl hd
  · exact .inr (.inr heq.symm)

theorem Compatible.union_comm (h : m.Compatible d) : m.union d = d.union m := by
  funext v
  rw [union, union]
  rcases h v with hm | hd | heq
  · rw [hm, Option.none_or, Option.or_none]
  · rw [hd, Option.none_or, Option.or_none]
  · rw [heq]

theorem merge_comm (m d : Mapping V T) : m.merge d = d.merge m := by
  by_cases h : m.Compatible d
  · rw [merge, merge, if_pos h, if_pos h.symm, h.union_comm]
  · rw [merge, merge, if_neg h, if_neg fun h' => h h'.symm]

@[simp] theorem merge_empty (m : Mapping V T) : m.merge empty = some m := by
  rw [merge_eq_some]
  exact ⟨fun _ => .inr (.inl rfl), funext fun v => Option.or_none⟩

@[simp] theorem empty_merge (m : Mapping V T) : empty.merge m = some m := by
  rw [merge_comm, merge_empty]

theorem compatible_assoc : m.Compatible d ∧ (m.union d).Compatible e ↔
    d.Compatible e ∧ m.Compatible (d.union e) := by
  have hpoint (v : V) : (m v = none ∨ d v = none ∨ m v = d v) ∧
      (m.union d v = none ∨ e v = none ∨ m.union d v = e v) ↔
        (d v = none ∨ e v = none ∨ d v = e v) ∧
          (m v = none ∨ d.union e v = none ∨ m v = d.union e v) := by
    rw [union, union]
    cases m v <;> cases d v <;> cases e v <;> grind
  constructor
  · intro h
    exact ⟨fun v => ((hpoint v).mp ⟨h.1 v, h.2 v⟩).1, fun v => ((hpoint v).mp ⟨h.1 v, h.2 v⟩).2⟩
  · intro h
    exact ⟨fun v => ((hpoint v).mpr ⟨h.1 v, h.2 v⟩).1, fun v => ((hpoint v).mpr ⟨h.1 v, h.2 v⟩).2⟩

theorem merge_assoc (m d e : Mapping V T) :
    (m.merge d).bind (·.merge e) = (d.merge e).bind m.merge := by
  ext r
  simp only [Option.bind_eq_some_iff, merge_eq_some]
  constructor
  · intro ⟨x, ⟨hmd, hx⟩, hxe, hr⟩
    subst hx
    obtain ⟨hde, hm⟩ := compatible_assoc.mp ⟨hmd, hxe⟩
    refine ⟨d.union e, ⟨hde, rfl⟩, hm, ?_⟩
    rw [← hr]
    funext v
    exact (Option.or_assoc ..).symm
  · intro ⟨x, ⟨hde, hx⟩, hmx, hr⟩
    subst hx
    obtain ⟨hmd, he⟩ := compatible_assoc.mpr ⟨hde, hmx⟩
    refine ⟨m.union d, ⟨hmd, rfl⟩, he, ?_⟩
    rw [← hr]
    funext v
    exact Option.or_assoc ..

/-- Binding that adds the same to every mapping. -/
def Merges (f : Mapping V T → Option (Mapping V T)) : Prop := ∀ m, f m = (f empty).bind m.merge

theorem merges_some : Merges (some : Mapping V T → Option (Mapping V T)) := by
  intro m
  rw [Option.bind_some, merge_empty]

theorem merges_none : Merges fun _ : Mapping V T => none := fun _ => rfl

theorem Merges.bind {f g : Mapping V T → Option (Mapping V T)} (hf : Merges f) (hg : Merges g) :
    Merges fun m => (f m).bind g := by
  intro m
  have hstep (x : Mapping V T) : (m.merge x).bind g = (g x).bind m.merge := by
    have hassoc (e : Mapping V T) : (x.merge e).bind m.merge = (m.merge x).bind (·.merge e) :=
      (merge_assoc m x e).symm
    rw [hg x, Option.bind_assoc]
    simp only [hassoc]
    cases m.merge x with
    | none => cases g empty <;> rfl
    | some y => exact hg y
  change (f m).bind g = ((f empty).bind g).bind m.merge
  rw [hf m]
  cases f empty with
  | none => rfl
  | some x => exact hstep x

variable [DecidableEq V]

/-- The mapping of one variable. -/
def single (v : V) (t : T) : Mapping V T := empty.set v t

theorem bindVar_eq_merge [DecidableEq T] (m : Mapping V T) (v : V) (t : T) :
    m.bindVar v t = m.merge (single v t) := by
  have hset : m.union (single v t) = if m v = none then m.set v t else m := by
    funext w
    by_cases hw : w = v
    · subst hw
      cases h : m w <;> simp [union, single, h]
    · have hnone : single v t w = none := set_of_ne hw
      rw [union, hnone, Option.or_none]
      split_ifs with h
      · exact (set_of_ne hw).symm
      · rfl
  have hcompat : m.Compatible (single v t) ↔ m v = none ∨ m v = some t := by
    constructor
    · intro h
      simpa [single] using h v
    · intro h w
      by_cases hw : w = v
      · subst hw
        simpa [single] using h
      · exact .inr (.inl (set_of_ne hw))
  cases h : m v with
  | none => rw [bindVar_of_none h, merge, if_pos (hcompat.mpr (.inl h)), hset, if_pos h]
  | some t' =>
    rw [bindVar_of_some h, merge, hset]
    simp only [hcompat, h, reduceCtorEq, false_or, Option.some.injEq, if_false]

theorem merges_bindVar [DecidableEq T] (v : V) (t : T) :
    Merges fun m : Mapping V T => m.bindVar v t := by
  intro m
  change m.bindVar v t = (empty.bindVar v t).bind m.merge
  rw [bindVar_eq_merge, bindVar_of_none rfl]
  rfl

end Merge

section Join

/-- The solutions that extend `m` by one of `D`. -/
noncomputable def join (D : Multiset (Mapping V T)) (m : Mapping V T) : Multiset (Mapping V T) :=
  D.filterMap m.merge

@[simp] theorem join_zero (m : Mapping V T) : join 0 m = 0 := rfl

theorem filterMap_eq_join {Q : Type} {f : Q → Mapping V T → Option (Mapping V T)}
    (hf : ∀ q, Merges (f q)) (s : Multiset Q) (m : Mapping V T) :
    s.filterMap (fun q => f q m) = join (s.filterMap fun q => f q empty) m := by
  rw [join, Multiset.filterMap_filterMap]
  exact congrArg (Multiset.filterMap · s) (funext fun q => hf q m)

theorem bind_filterMap_merge (D : Multiset (Mapping V T)) (o : Option (Mapping V T))
    (m : Mapping V T) : ((o.bind m.merge).map (join D)).getD 0 =
      join ((o.map (join D)).getD 0) m := by
  cases o with
  | none => rfl
  | some d =>
    have hassoc (e : Mapping V T) : (d.merge e).bind m.merge = (m.merge d).bind (·.merge e) :=
      (merge_assoc m d e).symm
    simp only [Option.bind_some, Option.map_some, Option.getD_some, join,
      Multiset.filterMap_filterMap,
      hassoc]
    cases m.merge d with
    | none => simp [Multiset.filterMap_eq_bind]
    | some x => rfl

theorem join_bind (D E : Multiset (Mapping V T)) (m : Mapping V T) :
    (join D m).bind (join E) = join (D.bind (join E)) m := by
  rw [join, Multiset.bind_filterMap, join, Multiset.filterMap_bind]
  apply Multiset.bind_congr
  intro d _
  exact bind_filterMap_merge E (some d) m

theorem bind_join_comm (D E : Multiset (Mapping V T)) : D.bind (join E) = E.bind (join D) := by
  have hjoin (D : Multiset (Mapping V T)) (m : Mapping V T) :
      join D m = D.bind fun d => ((m.merge d).map singleton).getD 0 :=
    Multiset.filterMap_eq_bind D m.merge
  simp only [hjoin]
  rw [Multiset.bind_bind]
  simp only [merge_comm]

end Join

end Mapping

open Mapping

section Local

variable {V T : Type} {Dom : Set (Mapping V T)} {S S' : Set V}
  {F G : Mapping V T → Multiset (Mapping V T)}

/-- The two have the same value at every variable of the set. -/
def AgreeOn (S : Set V) (m m' : Mapping V T) : Prop := ∀ v ∈ S, m v = m' v

open Classical in
/-- The values of `d` inside the set, those of `m` outside. -/
noncomputable def overlay (S : Set V) (d m : Mapping V T) : Mapping V T :=
  fun v => if v ∈ S then d v else m v

variable {m m' : Mapping V T} {f : Mapping V T → Option (Mapping V T)}

theorem overlay_of_mem {d : Mapping V T} {v : V} (h : v ∈ S) : overlay S d m v = d v := if_pos h

theorem overlay_of_notMem {d : Mapping V T} {v : V} (h : v ∉ S) : overlay S d m v = m v :=
  if_neg h

theorem agreeOn_overlay (S : Set V) (d m : Mapping V T) : AgreeOn S d (overlay S d m) :=
  fun _ hv => (overlay_of_mem hv).symm

theorem AgreeOn.mono (h : AgreeOn S m m') (hS : S' ⊆ S) : AgreeOn S' m m' :=
  fun v hv => h v (hS hv)

/-- `m'` extends `m` by values for all variables of the set. -/
structure Binds (S : Set V) (m m' : Mapping V T) : Prop where
  keeps : AgreeOn Sᶜ m' m
  grows : ∀ v t, m v = some t → m' v = some t
  bound : ∀ v ∈ S, m' v ≠ none

theorem Binds.refl (m : Mapping V T) : Binds ∅ m m :=
  ⟨fun _ _ => rfl, fun _ _ h => h, fun _ h => h.elim⟩

theorem Binds.trans {m'' : Mapping V T} (h : Binds S m m') (h' : Binds S' m' m'') :
    Binds (S ∪ S') m m'' := by
  refine ⟨fun v hv => ?_, fun v t hv => h'.grows v t (h.grows v t hv), fun v hv => ?_⟩
  · rw [h'.keeps v fun hvS => hv (.inr hvS), h.keeps v fun hvS => hv (.inl hvS)]
  · rcases hv with hv | hv
    · obtain ⟨t, ht⟩ := Option.ne_none_iff_exists'.mp (h.bound v hv)
      rw [h'.grows v t ht]
      exact Option.some_ne_none t
    · exact h'.bound v hv

theorem binds_of_mem_join {D : Multiset (Mapping V T)} (h : ∀ d ∈ D, Binds S Mapping.empty d)
    {x : Mapping V T} (hx : x ∈ join D m) : Binds S m x := by
  obtain ⟨d, hd, hx⟩ := (Multiset.mem_filterMap _ _).mp hx
  obtain ⟨hcompat, rfl⟩ := merge_eq_some.mp hx
  have hbinds := h d hd
  refine ⟨fun v hv => ?_, fun v t hv => ?_, fun v hv => ?_⟩
  · have hnone : d v = none := hbinds.keeps v hv
    rw [union, hnone, Option.or_none]
  · rw [union, hv, Option.some_or]
  · rw [hcompat.union_comm, union]
    obtain ⟨t, ht⟩ := Option.ne_none_iff_exists'.mp (hbinds.bound v hv)
    rw [ht, Option.some_or]
    exact Option.some_ne_none t

theorem Binds.split (h : Binds (S ∪ S') m m') :
    Binds S m (overlay S m' m) ∧ Binds S' (overlay S m' m) m' := by
  constructor
  · refine ⟨fun v hv => overlay_of_notMem hv, fun v t hv => ?_, fun v hv => ?_⟩
    · by_cases hS : v ∈ S
      · rw [overlay_of_mem hS]
        exact h.grows v t hv
      · rw [overlay_of_notMem hS, hv]
    · rw [overlay_of_mem hv]
      exact h.bound v (.inl hv)
  · refine ⟨fun v hv => ?_, fun v t hv => ?_, fun v hv => h.bound v (.inr hv)⟩
    · by_cases hS : v ∈ S
      · rw [overlay_of_mem hS]
      · rw [overlay_of_notMem hS]
        exact h.keeps v fun hor => hor.elim hS hv
    · by_cases hS : v ∈ S
      · rw [← hv, overlay_of_mem hS]
      · rw [overlay_of_notMem hS] at hv
        exact h.grows v t hv

theorem Binds.agreeOn {m'' : Mapping V T} (h : Binds S m m') (h' : Binds S' m' m'') :
    AgreeOn S m' m'' := by
  intro v hv
  obtain ⟨t, ht⟩ := Option.ne_none_iff_exists'.mp (h.bound v hv)
  rw [ht, h'.grows v t ht]

/-- A property of mappings that depends on the variables of the set only. -/
def Reads (S : Set V) (P : Mapping V T → Prop) : Prop :=
  ∀ m m', AgreeOn S m m' → P m → P m'

theorem Reads.and {P Q : Mapping V T → Prop} (hP : Reads S P) (hQ : Reads S' Q) :
    Reads (S ∪ S') fun m => P m ∧ Q m :=
  fun m m' h hm => ⟨hP m m' (h.mono Set.subset_union_left) hm.1,
    hQ m m' (h.mono Set.subset_union_right) hm.2⟩

/-- `f` gives the one way to bind the variables of the set such that `P` holds, if there is one. -/
def BindsBy (S : Set V) (P : Mapping V T → Prop) (f : Mapping V T → Option (Mapping V T)) : Prop :=
  ∀ m m', f m = some m' ↔ Binds S m m' ∧ P m'

theorem bindsBy_some : BindsBy ∅ (fun _ : Mapping V T => True) some := by
  intro m m'
  constructor
  · intro h
    obtain rfl := Option.some.inj h
    exact ⟨Binds.refl m, trivial⟩
  · intro h
    exact congrArg some (funext fun v => (h.1.keeps v (Set.notMem_empty v)).symm)

theorem BindsBy.bind {P Q : Mapping V T → Prop} {g : Mapping V T → Option (Mapping V T)}
    (hf : BindsBy S P f) (hg : BindsBy S' Q g) (hP : Reads S P) :
    BindsBy (S ∪ S') (fun m => P m ∧ Q m) fun m => (f m).bind g := by
  intro m m'
  rw [Option.bind_eq_some_iff]
  constructor
  · intro ⟨x, hx, hm'⟩
    obtain ⟨hbx, hPx⟩ := (hf m x).mp hx
    obtain ⟨hbm, hQm⟩ := (hg x m').mp hm'
    exact ⟨hbx.trans hbm, hP x m' (hbx.agreeOn hbm) hPx, hQm⟩
  · intro ⟨hb, hPm, hQm⟩
    obtain ⟨hbx, hbm⟩ := hb.split
    exact ⟨overlay S m' m, (hf m _).mpr ⟨hbx, hP m' _ (agreeOn_overlay S m' m) hPm⟩,
      (hg _ m').mpr ⟨hbm, hQm⟩⟩

/-- The bag holds, once each, the mappings of just the variables of the set that satisfy `P`. -/
structure ListsOnce (S : Set V) (P : Mapping V T → Prop) (D : Multiset (Mapping V T)) : Prop where
  nodup : D.Nodup
  mem : ∀ d, d ∈ D ↔ Binds S Mapping.empty d ∧ P d

theorem nodup_bind_of_disjoint {α β : Type} {s : Multiset α} {f : α → Multiset β} (hs : s.Nodup)
    (hf : ∀ a ∈ s, (f a).Nodup) (h : ∀ a ∈ s, ∀ a' ∈ s, ∀ b ∈ f a, b ∈ f a' → a = a') :
    (s.bind f).Nodup := by
  refine Multiset.nodup_bind.mpr ⟨hf, Multiset.Nodup.pairwise (fun a ha a' ha' hne => ?_) hs⟩
  refine Multiset.disjoint_left.mpr ?_
  intro b hb hb'
  exact hne (h a ha a' ha' b hb hb')

theorem nodup_filterMap_of_inj {α β : Type} {s : Multiset α} {f : α → Option β} (hs : s.Nodup)
    (h : ∀ a ∈ s, ∀ a' ∈ s, ∀ b, f a = some b → f a' = some b → a = a') :
    (s.filterMap f).Nodup := by
  have hmem (a : α) (b : β) : b ∈ ((f a).map singleton).getD (0 : Multiset β) ↔ f a = some b := by
    cases f a with
    | none => simp
    | some x => simp [eq_comm]
  rw [Multiset.filterMap_eq_bind]
  apply nodup_bind_of_disjoint hs
  · intro a _
    cases f a with
    | none => exact Multiset.nodup_zero
    | some x => exact Multiset.nodup_singleton x
  · intro a ha a' ha' b hb hb'
    exact h a ha a' ha' b ((hmem a b).mp hb) ((hmem a' b).mp hb')

variable {P Q : Mapping V T → Prop} {D E : Multiset (Mapping V T)}

theorem ListsOnce.join (h : ListsOnce S P D) (hP : Reads S P) (m : Mapping V T) :
    (Mapping.join D m).Nodup ∧ ∀ x, x ∈ Mapping.join D m ↔ Binds S m x ∧ P x := by
  have hagree {d x : Mapping V T} (hd : d ∈ D) (hx : m.merge d = some x) : AgreeOn S d x := by
    obtain ⟨hcompat, rfl⟩ := merge_eq_some.mp hx
    intro v hv
    obtain ⟨t, ht⟩ := Option.ne_none_iff_exists'.mp (((h.mem d).mp hd).1.bound v hv)
    rw [hcompat.union_comm, union, ht, Option.some_or]
  constructor
  · apply nodup_filterMap_of_inj h.nodup
    intro d hd d' hd' x hx hx'
    funext v
    by_cases hv : v ∈ S
    · rw [hagree hd hx v hv, hagree hd' hx' v hv]
    · rw [((h.mem d).mp hd).1.keeps v hv, ((h.mem d').mp hd').1.keeps v hv]
  · intro x
    constructor
    · intro hx
      refine ⟨binds_of_mem_join (fun d hd => ((h.mem d).mp hd).1) hx, ?_⟩
      obtain ⟨d, hd, hx⟩ := (Multiset.mem_filterMap _ _).mp hx
      exact hP d x (hagree hd hx) ((h.mem d).mp hd).2
    · intro ⟨hb, hPx⟩
      have hd : overlay S x Mapping.empty ∈ D := by
        refine (h.mem _).mpr ⟨⟨fun v hv => overlay_of_notMem hv, fun v t hv => ?_, fun v hv => ?_⟩,
          hP x _ (agreeOn_overlay S x _) hPx⟩
        · cases hv
        · rw [overlay_of_mem hv]
          exact hb.bound v hv
      refine (Multiset.mem_filterMap _ _).mpr ⟨_, hd, merge_eq_some.mpr ⟨fun v => ?_, ?_⟩⟩
      · by_cases hv : v ∈ S
        · rw [overlay_of_mem hv]
          cases hm : m v with
          | none => exact .inl rfl
          | some t => exact .inr (.inr (hb.grows v t hm).symm)
        · exact .inr (.inl (overlay_of_notMem hv))
      · funext v
        rw [union]
        by_cases hv : v ∈ S
        · rw [overlay_of_mem hv]
          cases hm : m v with
          | none => exact Option.none_or
          | some t => exact (hb.grows v t hm).symm
        · have hnone : overlay S x Mapping.empty v = none := overlay_of_notMem hv
          rw [hnone, Option.or_none]
          exact (hb.keeps v hv).symm

theorem ListsOnce.bind_join (h : ListsOnce S P D) (h' : ListsOnce S' Q E) (hP : Reads S P)
    (hQ : Reads S' Q) :
    ListsOnce (S ∪ S') (fun m => P m ∧ Q m) (D.bind (Mapping.join E)) where
  nodup := by
    apply nodup_bind_of_disjoint h.nodup fun d _ => (h'.join hQ d).1
    intro d hd d' hd' x hx hx'
    have hread {d : Mapping V T} (hd : d ∈ D) (hx : x ∈ Mapping.join E d) : AgreeOn S d x :=
      ((h.mem d).mp hd).1.agreeOn (((h'.join hQ d).2 x).mp hx).1
    funext v
    by_cases hv : v ∈ S
    · rw [hread hd hx v hv, hread hd' hx' v hv]
    · rw [((h.mem d).mp hd).1.keeps v hv, ((h.mem d').mp hd').1.keeps v hv]
  mem x := by
    rw [Multiset.mem_bind]
    constructor
    · intro ⟨d, hd, hx⟩
      obtain ⟨hbd, hPd⟩ := (h.mem d).mp hd
      obtain ⟨hbx, hQx⟩ := ((h'.join hQ d).2 x).mp hx
      exact ⟨hbd.trans hbx, hP d x (hbd.agreeOn hbx) hPd, hQx⟩
    · intro ⟨hb, hPx, hQx⟩
      obtain ⟨hbd, hbx⟩ := hb.split
      exact ⟨_, (h.mem _).mpr ⟨hbd, hP x _ (agreeOn_overlay S x _) hPx⟩,
        ((h'.join hQ _).2 x).mpr ⟨hbx, hQx⟩⟩

theorem ListsOnce.congr {P' : Mapping V T → Prop} (h : ListsOnce S P D) (hS : S = S')
    (hP : ∀ m, P m ↔ P' m) : ListsOnce S' P' D :=
  ⟨h.nodup, fun d => (h.mem d).trans (by rw [hS, hP d])⟩

theorem BindsBy.listsOnce (h : BindsBy S P f) :
    ListsOnce S P (((f Mapping.empty).map singleton).getD 0) where
  nodup := by
    cases f Mapping.empty with
    | none => exact Multiset.nodup_zero
    | some x => exact Multiset.nodup_singleton x
  mem d := by
    rw [← h Mapping.empty d]
    cases f Mapping.empty with
    | none => simp
    | some x => simp [eq_comm]

theorem ListsOnce.bind {α : Type} {s : Multiset α} {R : α → Mapping V T → Prop}
    {F : α → Multiset (Mapping V T)} (hs : s.Nodup) (h : ∀ a ∈ s, ListsOnce S (R a) (F a))
    (hR : ∀ a ∈ s, ∀ a' ∈ s, ∀ m, R a m → R a' m → a = a') :
    ListsOnce S (fun m => ∃ a ∈ s, R a m) (s.bind F) where
  nodup := by
    apply nodup_bind_of_disjoint hs fun a ha => (h a ha).nodup
    intro a ha a' ha' d hd hd'
    exact hR a ha a' ha' d (((h a ha).mem d).mp hd).2 (((h a' ha').mem d).mp hd').2
  mem d := by
    rw [Multiset.mem_bind]
    constructor
    · intro ⟨a, ha, hd⟩
      obtain ⟨hb, hm⟩ := ((h a ha).mem d).mp hd
      exact ⟨hb, a, ha, hm⟩
    · intro ⟨hb, a, ha, hm⟩
      exact ⟨a, ha, ((h a ha).mem d).mpr ⟨hb, hm⟩⟩

theorem listsOnce_empty : ListsOnce ∅ (fun _ : Mapping V T => True) {Mapping.empty} where
  nodup := Multiset.nodup_singleton _
  mem d := by
    rw [Multiset.mem_singleton]
    constructor
    · intro h
      exact h ▸ ⟨Binds.refl _, trivial⟩
    · intro h
      exact funext fun v => h.1.keeps v (Set.notMem_empty v)

end Local

section Rows

variable {V T R : Type} {sol : R → Mapping V T} {Good : R → Prop}
  {F G : Mapping V T → Multiset (Mapping V T)}

/-- The solutions that rows stand for. -/
def bag (sol : R → Mapping V T) (rows : List R) : Multiset (Mapping V T) := rows.map sol

/-- A function on rows does what `F` does on solutions. -/
structure Denotes (sol : R → Mapping V T) (Good : R → Prop) (f : List R → List R)
    (F : Mapping V T → Multiset (Mapping V T)) : Prop where
  good : ∀ rows, (∀ r ∈ rows, Good r) → ∀ r ∈ f rows, Good r
  bag_eq : ∀ rows, (∀ r ∈ rows, Good r) → bag sol (f rows) = (bag sol rows).bind F

variable (sol)

@[simp] theorem bag_nil : bag sol [] = 0 := rfl

@[simp] theorem bag_singleton (r : R) : bag sol [r] = {sol r} := rfl

@[simp] theorem bag_append (rows rows' : List R) :
    bag sol (rows ++ rows') = bag sol rows + bag sol rows' := by
  rw [bag, bag, bag, List.map_append, Multiset.coe_add]

theorem bag_flatMap {Q : Type} (t : Q → List R) (l : List Q) :
    bag sol (l.flatMap t) = (l : Multiset Q).bind fun q => bag sol (t q) := by
  induction l with
  | nil => rfl
  | cons q l ih =>
    rw [List.flatMap_cons, bag_append, ih, ← Multiset.cons_coe, Multiset.cons_bind]

theorem bag_bind (rows : List R) :
    (bag sol rows).bind F = (rows : Multiset R).bind fun r => F (sol r) := by
  rw [bag, ← Multiset.map_coe, Multiset.bind_map]

variable {sol}

theorem Denotes.one {f : List R → List R} (h : Denotes sol Good f F) {r : R} (hr : Good r) :
    (∀ x ∈ f [r], Good x) ∧ bag sol (f [r]) = F (sol r) := by
  have hrows : ∀ x ∈ [r], Good x := by simpa using hr
  refine ⟨h.good [r] hrows, ?_⟩
  rw [h.bag_eq [r] hrows, bag_singleton, Multiset.singleton_bind]

theorem Denotes.comp {f g : List R → List R} (hf : Denotes sol Good f F)
    (hg : Denotes sol Good g G) :
    Denotes sol Good (fun rows => g (f rows)) fun m => (F m).bind G := by
  constructor
  · intro rows hrows
    exact hg.good _ (hf.good rows hrows)
  · intro rows hrows
    rw [hg.bag_eq _ (hf.good rows hrows), hf.bag_eq rows hrows, Multiset.bind_assoc]

theorem denotes_flatMap {t : R → List R} (hgood : ∀ r, Good r → ∀ x ∈ t r, Good x)
    (hbag : ∀ r, Good r → bag sol (t r) = F (sol r)) :
    Denotes sol Good (fun rows => rows.flatMap t) F := by
  constructor
  · intro rows hrows x hx
    obtain ⟨r, hr, hx⟩ := List.mem_flatMap.mp hx
    exact hgood r (hrows r hr) x hx
  · intro rows hrows
    rw [bag_flatMap, bag_bind]
    exact Multiset.bind_congr fun r hr => hbag r (hrows r hr)

end Rows

end RdfDatalog
