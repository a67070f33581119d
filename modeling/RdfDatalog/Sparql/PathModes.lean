import RdfDatalog.Math.LoopRelation
import RdfDatalog.Sparql.Paths
import RdfDatalog.Sparql.PatternMeaning

namespace RdfDatalog.Sparql

open LoopRelation Relation Mapping

variable {N : NativeTypes}

abbrev Triples (N : NativeTypes) := GraphElement N → GraphElement N → GraphElement N → Prop

/-- The subjects and objects of the triples. -/
def nodes (E : Triples N) : Set (GraphElement N) := {x | ∃ p y, E x p y ∨ E y p x}

/-- The terms that a path connects. A path of no steps connects each element of `U` with itself:
the nodes of the graph, and the terms that are given as ends. -/
def pathRel (E : Triples N) (U : Set (GraphElement N)) :
    PropertyPath N → GraphElement N → GraphElement N → Prop
  | .iri p => fun a b => E a p b
  | .sequence steps => chain U (pathRels steps)
  | .alternative left right => fun a b => pathRel E U left a b ∨ pathRel E U right a b
  | .inverse inner => fun a b => pathRel E U inner b a
  | .zeroOrOne inner => fun a b => idOn U a b ∨ pathRel E U inner a b
  | .oneOrMore inner => TransGen (pathRel E U inner)
  | .zeroOrMore inner => fun a b => idOn U a b ∨ TransGen (pathRel E U inner) a b
  | .repeat inner min max => fun a b =>
    ∃ k, min ≤ k ∧ (∀ n ∈ max, k ≤ n) ∧ chain U (List.replicate k (pathRel E U inner)) a b
  | .negatedSet excluded => fun a b => ∃ p, p ∉ excluded ∧ E a p b
where
  pathRels : List (PropertyPath N) → List (GraphElement N → GraphElement N → Prop)
    | [] => []
    | path :: paths => pathRel E U path :: pathRels paths

/-- The path can be walked in no steps. -/
def nullable : PropertyPath N → Bool
  | .iri _ => false
  | .sequence steps => all steps
  | .alternative left right => nullable left || nullable right
  | .inverse inner => nullable inner
  | .zeroOrOne _ => true
  | .oneOrMore inner => nullable inner
  | .zeroOrMore _ => true
  | .repeat inner min max =>
    (match max with
      | some n => decide (min ≤ n)
      | none => true) && (min = 0 || nullable inner)
  | .negatedSet _ => false
where
  all : List (PropertyPath N) → Bool
    | [] => true
    | path :: paths => nullable path && all paths

theorem pathRels_eq_map (E : Triples N) (U : Set (GraphElement N)) (steps : List (PropertyPath N)) :
    pathRel.pathRels E U steps = steps.map (pathRel E U) := by
  induction steps with
  | nil => rfl
  | cons path steps ih => rw [pathRel.pathRels, ih, List.map_cons]

theorem nullable_all_iff {steps : List (PropertyPath N)} :
    nullable.all steps = true ↔ ∀ path ∈ steps, nullable path = true := by
  induction steps with
  | nil => simp [nullable.all]
  | cons path steps ih => simp [nullable.all, ih]

theorem onNodes_iri (E : Triples N) (P : GraphElement N → Prop) (F : GraphElement N → Prop)
    (hF : ∀ a, ¬ F a) : OnNodes (nodes E) (fun a b => ∃ p, P p ∧ E a p b) F :=
  ⟨fun _ b ⟨p, _, h⟩ => ⟨p, b, .inl h⟩, fun a _ ⟨p, _, h⟩ => ⟨p, a, .inr h⟩,
    fun a _ ha => absurd ha (hF a)⟩

/-- A path connects nodes of the graph, and a node with itself when it can be walked in no
steps. -/
theorem onNodes_pathRel (E : Triples N) (path : PropertyPath N) :
    OnNodes (nodes E) (pathRel E (nodes E) path) fun _ => nullable path = true := by
  induction path with
  | iri gel =>
    have h := onNodes_iri E (· = gel) (fun _ => nullable (.iri gel) = true) fun _ => by
      simp [nullable]
    simpa [pathRel] using h
  | sequence steps ih =>
    simp only [pathRel, pathRels_eq_map, nullable, nullable_all_iff]
    apply onNodes_chain
    intro R hR
    obtain ⟨path, hpath, rfl⟩ := List.mem_map.mp hR
    exact (ih path hpath).mono fun _ h => h path hpath
  | alternative left right ihl ihr =>
    simp only [pathRel, nullable, Bool.or_eq_true]
    exact ihl.or ihr
  | inverse inner ih => exact ih.flip
  | zeroOrMore inner ih =>
    exact ((onNodes_idOn _ _).or ih.transGen).mono fun _ _ => Or.inl trivial
  | oneOrMore inner ih => exact ih.transGen
  | zeroOrOne inner ih => exact ((onNodes_idOn _ _).or ih).mono fun _ _ => Or.inl trivial
  | repeat_ inner min max ih =>
    have hchain (k : Nat) : OnNodes (nodes E)
        (chain (nodes E) (List.replicate k (pathRel E (nodes E) inner))) fun _ =>
          k = 0 ∨ nullable inner = true := by
      cases k with
      | zero => exact onNodes_idOn _ _
      | succ k =>
        refine (onNodes_chain fun R hR => ?_).mono fun _ h => h.resolve_left k.succ_ne_zero
        rw [List.eq_of_mem_replicate hR]
        exact ih
    constructor
    · intro a b ⟨k, _, _, hab⟩
      exact (hchain k).left a b hab
    · intro a b ⟨k, _, _, hab⟩
      exact (hchain k).right a b hab
    · intro a ha h
      simp only [nullable, Bool.and_eq_true, Bool.or_eq_true, decide_eq_true_eq] at h
      refine ⟨min, le_rfl, ?_, (hchain min).loop a ha h.2⟩
      intro n hn
      rw [hn] at h
      exact of_decide_eq_true h.1
  | negatedSet excluded =>
    exact onNodes_iri E (· ∉ excluded) _ fun _ => by simp [nullable]

theorem pathRel_withLoops {E : Triples N} {U : Set (GraphElement N)} (hU : nodes E ⊆ U)
    (path : PropertyPath N) : pathRel E U path =
      withLoops (pathRel E (nodes E) path) fun a => a ∈ U ∧ nullable path = true := by
  induction path with
  | iri gel | negatedSet excluded =>
    funext a b
    simp [pathRel, withLoops, nullable]
  | sequence steps ih =>
    funext a b
    have hnodes : ∀ path ∈ steps, OnNodes (nodes E) (pathRel E (nodes E) path)
        fun a => a ∈ U ∧ nullable path = true :=
      fun path _ => (onNodes_pathRel E path).mono fun _ h => h.2
    have hchain := chain_withLoops hU hnodes a b
    have hmap : steps.map (pathRel E U) = steps.map fun path =>
        withLoops (pathRel E (nodes E) path) fun a => a ∈ U ∧ nullable path = true :=
      List.map_congr_left ih
    simp only [pathRel, pathRels_eq_map, nullable, nullable_all_iff, hmap, hchain, withLoops]
    apply propext
    apply or_congr Iff.rfl
    apply and_congr_right
    intro _
    apply and_congr_right
    intro ha
    exact ⟨fun h path hp => (h path hp).2, fun h path hp => ⟨ha, h path hp⟩⟩
  | alternative left right ihl ihr =>
    funext a b
    simp only [pathRel, ihl, ihr, withLoops_or, nullable, Bool.or_eq_true, and_or_left]
  | inverse inner ih =>
    funext a b
    rw [pathRel, ih]
    exact propext (withLoops_flip _ _ a b)
  | zeroOrMore inner ih =>
    funext a b
    simp only [pathRel, ih, transGen_withLoops, nullable, and_true]
    simp only [withLoops, idOn]
    apply propext
    constructor
    · rintro (⟨heq, ha⟩ | hab | ⟨heq, ha, _⟩)
      · exact .inr ⟨heq, ha⟩
      · exact .inl (.inr hab)
      · exact .inr ⟨heq, ha⟩
    · rintro ((⟨heq, ha⟩ | hab) | ⟨heq, ha⟩)
      · exact .inl ⟨heq, hU ha⟩
      · exact .inr (.inl hab)
      · exact .inl ⟨heq, ha⟩
  | oneOrMore inner ih =>
    funext a b
    simp only [pathRel, ih, transGen_withLoops, nullable]
  | zeroOrOne inner ih =>
    funext a b
    simp only [pathRel, ih, nullable, and_true, withLoops, idOn]
    apply propext
    constructor
    · rintro (⟨heq, ha⟩ | hab | ⟨heq, ha, _⟩)
      · exact .inr ⟨heq, ha⟩
      · exact .inl (.inr hab)
      · exact .inr ⟨heq, ha⟩
    · rintro ((⟨heq, ha⟩ | hab) | ⟨heq, ha⟩)
      · exact .inl ⟨heq, hU ha⟩
      · exact .inr (.inl hab)
      · exact .inl ⟨heq, ha⟩
  | repeat_ inner min max ih =>
    funext a b
    have hpower (k : Nat) : chain U (List.replicate k (pathRel E U inner)) a b ↔
        withLoops (chain (nodes E) (List.replicate k (pathRel E (nodes E) inner)))
          (fun a => a ∈ U ∧ (k = 0 ∨ nullable inner = true)) a b := by
      have hchain := chain_withLoops (l := List.replicate k ()) hU
        (fun _ _ => (onNodes_pathRel E inner).mono
          fun a (h : a ∈ U ∧ nullable inner = true) => h.2) a b
      rw [List.map_replicate, List.map_replicate, ← ih] at hchain
      rw [hchain]
      apply or_congr Iff.rfl
      apply and_congr_right
      intro _
      apply and_congr_right
      intro ha
      cases k with
      | zero => simp
      | succ k => simp [ha]
    simp only [pathRel, hpower, withLoops]
    apply propext
    constructor
    · rintro ⟨k, hmin, hmax, hab | ⟨heq, ha, hk⟩⟩
      · exact .inl ⟨k, hmin, hmax, hab⟩
      · refine .inr ⟨heq, ha, ?_⟩
        simp only [nullable, Bool.and_eq_true, Bool.or_eq_true, decide_eq_true_eq]
        constructor
        · cases max with
          | none => rfl
          | some n => exact decide_eq_true (hmin.trans (hmax n rfl))
        · exact hk.imp_left fun hzero => by omega
    · rintro (⟨k, hmin, hmax, hab⟩ | ⟨heq, ha, hnull⟩)
      · exact ⟨k, hmin, hmax, .inl hab⟩
      · simp only [nullable, Bool.and_eq_true, Bool.or_eq_true, decide_eq_true_eq] at hnull
        refine ⟨min, le_rfl, ?_, .inr ⟨heq, ha, hnull.2⟩⟩
        intro n hn
        rw [hn] at hnull
        exact of_decide_eq_true hnull.1

/-- What the evaluation of a path sees of one end: a value, or a variable without one. -/
inductive Port where
  | bound | next | prev | other
  deriving DecidableEq

/-- What the evaluation of a path depends on: its ends, whether they are the same free variable,
and whether the solution binds the two variables of the searches. -/
structure Mode where
  subject : Port
  object : Port
  same : Bool
  next : Bool
  prev : Bool
  deriving DecidableEq

namespace Mode

def swap (k : Mode) : Mode := { k with subject := k.object, object := k.subject }

/-- The first step of a sequence, to a bridge variable. -/
def first (k : Mode) : Mode := { k with object := .other, same := false }

/-- The steps after the first one, from the bridge variable. -/
def after (k : Mode) : Mode :=
  ⟨.bound, if k.same then .bound else k.object, false, k.next || k.subject = .next,
    k.prev || k.subject = .prev⟩

/-- A hop of a search from the subject. -/
def forward (k : Mode) : Mode := ⟨.bound, .next, false, k.next, k.prev⟩

/-- A hop of a search from the object. -/
def backward (k : Mode) : Mode := ⟨.prev, .bound, false, k.next, k.prev⟩

def isOpen (k : Mode) : Bool := k.subject ≠ .bound && k.object ≠ .bound

end Mode

section Sound

/-- A search whose variable the solution binds already would be held to that value; and a search
from every node keeps one variable for both ends of `p+`. -/
def closureSound (inner : Mode → Bool) (includeZero : Bool) (k : Mode) : Bool :=
  if k.subject = .bound then !k.next && inner k.forward
  else if k.object = .bound then !k.prev && inner k.backward
  else !k.next && inner k.forward && (includeZero || !k.same)

/-- The steps of a sequence one after another; an empty sequence keeps the row without relating its
ends. -/
def stepsSound : List (Mode → Bool) → Mode → Bool
  | [], _ => false
  | [f], k => f k
  | f :: g :: fs, k => f k.first && stepsSound (g :: fs) k.after

/-- No search of the evaluation goes wrong. -/
def pathSound : PropertyPath N → Mode → Bool
  | .iri _ => fun _ => true
  | .sequence steps => stepsSound (all steps)
  | .alternative left right => fun k => pathSound left k && pathSound right k
  | .inverse inner => fun k => pathSound inner k.swap
  | .zeroOrOne inner => pathSound inner
  | .oneOrMore inner => closureSound (pathSound inner) false
  | .zeroOrMore inner => closureSound (pathSound inner) true
  | .repeat inner min max => fun k =>
    match max with
    | some n => (List.range' min (n + 1 - min)).all fun i =>
      i = 0 || stepsSound (List.replicate i (pathSound inner)) k
    | none => stepsSound (List.replicate min (pathSound inner) ++
      [closureSound (pathSound inner) true]) k
  | .negatedSet _ => fun _ => true
where
  all : List (PropertyPath N) → List (Mode → Bool)
    | [] => []
    | path :: paths => pathSound path :: all paths

end Sound

section Loops

def zeroLoops (k : Mode) : Bool := k.subject = .bound || k.object = .bound

def closureLoops (inner : Mode → Bool) (includeZero : Bool) (k : Mode) : Bool :=
  if k.subject = .bound then includeZero || inner k.forward
  else if k.object = .bound then includeZero || inner k.backward
  else false

def stepsLoops : List (Mode → Bool) → Mode → Bool
  | [], _ => false
  | [f], k => f k
  | f :: g :: fs, k => f k.first && stepsLoops (g :: fs) k.after

/-- The evaluation connects a bound end that is no node of the graph with itself. -/
def pathLoops : PropertyPath N → Mode → Bool
  | .iri _ => fun _ => false
  | .sequence steps => stepsLoops (all steps)
  | .alternative left right => fun k => pathLoops left k || pathLoops right k
  | .inverse inner => fun k => pathLoops inner k.swap
  | .zeroOrOne inner => fun k => zeroLoops k || pathLoops inner k
  | .oneOrMore inner => closureLoops (pathLoops inner) false
  | .zeroOrMore inner => closureLoops (pathLoops inner) true
  | .repeat inner min max => fun k =>
    match max with
    | some n => (List.range' min (n + 1 - min)).any fun i =>
      if i = 0 then zeroLoops k else stepsLoops (List.replicate i (pathLoops inner)) k
    | none => stepsLoops (List.replicate min (pathLoops inner) ++
      [closureLoops (pathLoops inner) true]) k
  | .negatedSet _ => fun _ => false
where
  all : List (PropertyPath N) → List (Mode → Bool)
    | [] => []
    | path :: paths => pathLoops path :: all paths

theorem pathSound_all (steps : List (PropertyPath N)) :
    pathSound.all steps = steps.map pathSound := by
  induction steps with
  | nil => rfl
  | cons path steps ih => rw [pathSound.all, ih, List.map_cons]

theorem pathLoops_all (steps : List (PropertyPath N)) :
    pathLoops.all steps = steps.map pathLoops := by
  induction steps with
  | nil => rfl
  | cons path steps ih => rw [pathLoops.all, ih, List.map_cons]

variable {fs : List (Mode → Bool)} {k : Mode}

theorem stepsLoops_imp {P : (Mode → Bool) → Prop} (h : ∀ f ∈ fs, (∃ k, f k = true) → P f)
    (hk : stepsLoops fs k = true) :
    ∀ f ∈ fs, P f := by
  induction fs generalizing k with
  | nil => exact nofun
  | cons f fs ih =>
    cases fs with
    | nil =>
      intro f' hf'
      obtain rfl := List.mem_singleton.mp hf'
      exact h f' hf' ⟨k, hk⟩
    | cons g fs =>
      rw [stepsLoops, Bool.and_eq_true] at hk
      intro f' hf'
      rcases List.mem_cons.mp hf' with rfl | hmem
      · exact h f' hf' ⟨_, hk.1⟩
      · exact ih (fun f'' hf'' => h f'' (.tail f hf'')) hk.2 f' hmem

theorem stepsLoops_isOpen (h : ∀ f ∈ fs, ∀ k : Mode, k.isOpen = true → f k = false)
    (hk : k.isOpen = true) : stepsLoops fs k = false := by
  cases fs with
  | nil => rfl
  | cons f fs =>
    cases fs with
    | nil => exact h f (.head _) k hk
    | cons g fs =>
      have hfirst : k.first.isOpen = true := by
        simp only [Mode.isOpen, Bool.and_eq_true] at hk
        simp [Mode.isOpen, Mode.first, of_decide_eq_true hk.1]
      rw [stepsLoops, h f (.head _) _ hfirst, Bool.false_and]

theorem closureLoops_isOpen (inner : Mode → Bool) (includeZero : Bool) (hk : k.isOpen = true) :
    closureLoops inner includeZero k = false := by
  simp only [Mode.isOpen, Bool.and_eq_true, decide_eq_true_eq, ne_eq] at hk
  rw [closureLoops, if_neg hk.1, if_neg hk.2]

theorem zeroLoops_isOpen (hk : k.isOpen = true) : zeroLoops k = false := by
  simp only [Mode.isOpen, Bool.and_eq_true, decide_eq_true_eq, ne_eq] at hk
  simp [zeroLoops, hk.1, hk.2]

theorem pathLoops_isOpen (path : PropertyPath N) (hk : k.isOpen = true) :
    pathLoops path k = false := by
  induction path generalizing k with
  | iri gel => rfl
  | sequence steps ih =>
    rw [pathLoops, pathLoops_all]
    apply stepsLoops_isOpen _ hk
    intro f hf k hk
    obtain ⟨path, hpath, rfl⟩ := List.mem_map.mp hf
    exact ih path hpath hk
  | alternative left right ihl ihr =>
    simp only [pathLoops, ihl hk, ihr hk, Bool.or_self]
  | inverse inner ih =>
    rw [pathLoops]
    apply ih
    rw [Mode.isOpen, Bool.and_comm]
    exact hk
  | zeroOrMore | oneOrMore => exact closureLoops_isOpen _ _ hk
  | zeroOrOne inner ih =>
    simp only [pathLoops, zeroLoops_isOpen hk, ih hk, Bool.or_self]
  | repeat_ inner min max ih =>
    have hinner : ∀ i, ∀ f ∈ List.replicate i (pathLoops inner), ∀ k : Mode, k.isOpen = true →
        f k = false := by
      intro i f hf k hk
      rw [List.eq_of_mem_replicate hf]
      exact ih hk
    rw [pathLoops]
    cases max with
    | some n =>
      rw [List.any_eq_false]
      intro i _
      split_ifs
      · rw [zeroLoops_isOpen hk]
        exact Bool.false_ne_true
      · rw [stepsLoops_isOpen (hinner i) hk]
        exact Bool.false_ne_true
    | none =>
      apply stepsLoops_isOpen _ hk
      intro f hf k hk
      rcases List.mem_append.mp hf with hf | hf
      · exact hinner min f hf k hk
      · rw [List.mem_singleton.mp hf]
        exact closureLoops_isOpen _ _ hk
  | negatedSet excluded => rfl

theorem nullable_of_closureLoops {inner : PropertyPath N}
    (ih : ∀ k, pathLoops inner k = true → nullable inner = true)
    (h : closureLoops (pathLoops inner) false k = true) : nullable inner = true := by
  rw [closureLoops] at h
  split_ifs at h
  · exact ih _ h
  · exact ih _ h

theorem nullable_of_pathLoops (path : PropertyPath N) (h : pathLoops path k = true) :
    nullable path = true := by
  induction path generalizing k with
  | iri gel => cases h
  | sequence steps ih =>
    rw [pathLoops, pathLoops_all] at h
    rw [nullable, nullable_all_iff]
    intro path hpath
    have hall := stepsLoops_imp (P := fun f => ∀ path ∈ steps, f = pathLoops path →
      (∃ k, pathLoops path k = true)) (fun f _ ⟨k, hk⟩ path _ hf => ⟨k, hf ▸ hk⟩) h
      (pathLoops path) (List.mem_map_of_mem hpath) path hpath rfl
    obtain ⟨k', hk'⟩ := hall
    exact ih path hpath hk'
  | alternative left right ihl ihr =>
    rw [pathLoops, Bool.or_eq_true] at h
    rw [nullable, Bool.or_eq_true]
    exact h.imp ihl ihr
  | inverse inner ih => exact ih h
  | zeroOrMore inner ih => rfl
  | oneOrMore inner ih =>
    have hclosure : closureLoops (pathLoops inner) false k = true := h
    have hnull : nullable inner = true := nullable_of_closureLoops (fun _ hk => ih hk) hclosure
    exact hnull
  | zeroOrOne inner ih => rfl
  | repeat_ inner min max ih =>
    have hsteps : ∀ i, 0 < i → ∀ k, stepsLoops (List.replicate i (pathLoops inner)) k = true →
        nullable inner = true := by
      intro i hi k hk
      have hall := stepsLoops_imp (P := fun f => f = pathLoops inner →
        ∃ k, pathLoops inner k = true) (fun f _ ⟨k, hk⟩ hf => ⟨k, hf ▸ hk⟩) hk
        (pathLoops inner) (List.mem_replicate.mpr ⟨by omega, rfl⟩) rfl
      obtain ⟨k', hk'⟩ := hall
      exact ih hk'
    simp only [pathLoops] at h
    simp only [nullable, Bool.and_eq_true, Bool.or_eq_true, decide_eq_true_eq]
    cases max with
    | some n =>
      obtain ⟨i, hi, hloop⟩ := List.any_eq_true.mp h
      obtain ⟨hmin, hmax⟩ := List.mem_range'_1.mp hi
      refine ⟨decide_eq_true (by omega), ?_⟩
      split_ifs at hloop with hzero
      · exact .inl (by omega)
      · exact .inr (hsteps i (by omega) k hloop)
    | none =>
      refine ⟨rfl, ?_⟩
      by_cases hmin : min = 0
      · exact .inl hmin
      · have hall := stepsLoops_imp (P := fun f => f = pathLoops inner →
          ∃ k, pathLoops inner k = true) (fun f _ ⟨k, hk⟩ hf => ⟨k, hf ▸ hk⟩) h
          (pathLoops inner)
          (List.mem_append_left _ (List.mem_replicate.mpr ⟨hmin, rfl⟩)) rfl
        obtain ⟨k', hk'⟩ := hall
        exact .inr (ih hk')
  | negatedSet excluded => cases h

end Loops

section Names

theorem bridgeName_injective {i j : Nat} (h : bridgeName i = bridgeName j) : i = j := by
  apply toString_injective
  have hlist := congrArg String.toList h
  rw [bridgeName, bridgeName, String.toList_append, String.toList_append] at hlist
  exact String.toList_inj.mp (List.append_cancel_left hlist)

theorem bridgeName_take (i : Nat) : (bridgeName i).toList.take 3 = ['_', '_', 'p'] := by
  rw [bridgeName, String.toList_append, List.take_append_of_le_length (by decide)]
  decide

theorem bridgeName_ne_tcNext (i : Nat) : bridgeName i ≠ tcNext := by
  intro h
  have htake := bridgeName_take i
  rw [h] at htake
  exact absurd htake (by decide)

theorem bridgeName_ne_tcPrev (i : Nat) : bridgeName i ≠ tcPrev := by
  intro h
  have htake := bridgeName_take i
  rw [h] at htake
  exact absurd htake (by decide)

theorem tcPrev_ne_tcNext : tcPrev ≠ tcNext := by decide

end Names

section BindEnd

variable {m m' : Mapping String (GraphElement N)} {T : Term N} {v : String} {a b : GraphElement N}

theorem bindEnd_of_none (h : m v = none) (b : GraphElement N) :
    bindEnd m (.var v) b = some (m.set v b) :=
  bindVar_of_none h b

theorem bindEnd_set (hT : T ≠ .var v) : bindEnd (m.set v b) T a =
    (bindEnd m T a).map (·.set v b) := by
  cases T with
  | var w =>
    have hwv : w ≠ v := fun h => hT (congrArg Term.var h)
    rw [bindEnd, bindEnd]
    cases hw : m w with
    | none =>
      rw [bindVar_of_none hw, bindVar_of_none ((set_of_ne hwv).trans hw),
        Option.map_some, set_comm hwv.symm]
    | some x =>
      rw [bindVar_of_some hw, bindVar_of_some ((set_of_ne hwv).trans hw)]
      split_ifs <;> rfl
  | constant gel =>
    rw [bindEnd, bindEnd]
    split_ifs <;> rfl
  | tripleTerm s p o => rfl

theorem bindEnd_eq_none_of (h : bindEnd m T a = some m') (hT : T ≠ .var v) (hv : m v = none) :
    m' v = none := by
  cases T with
  | var w =>
    have hwv : v ≠ w := fun hc => hT (congrArg Term.var hc.symm)
    obtain ⟨-, rfl⟩ := bindVar_eq_some.mp h
    rw [set_of_ne hwv, hv]
  | constant gel =>
    rw [bindEnd] at h
    split_ifs at h
    obtain rfl := Option.some.inj h
    exact hv
  | tripleTerm s p o => cases h

end BindEnd

section ModeOf

variable {m m' : Mapping String (GraphElement N)} {S O : Term N}

def port (m : Mapping String (GraphElement N)) : Term N → Port
  | .var v =>
    if (m v).isSome then .bound
    else if v = tcNext then .next else if v = tcPrev then .prev else .other
  | _ => .bound

/-- What the evaluation sees of a solution and two ends. -/
def Mode.of (m : Mapping String (GraphElement N)) (S O : Term N) : Mode :=
  ⟨port m S, port m O, S = O && port m S ≠ .bound, (m tcNext).isSome, (m tcPrev).isSome⟩

theorem port_of_some {v : String} {a : GraphElement N} (h : m v = some a) :
    port m (.var v) = .bound := by
  rw [port, h]
  rfl

theorem Mode.of_swap : Mode.of m O S = (Mode.of m S O).swap := by
  have hsame : (O = S && port m O ≠ .bound) = (S = O && port m S ≠ .bound) := by
    by_cases h : S = O
    · subst h
      rfl
    · simp [h, Ne.symm h]
  rw [Mode.of, hsame]
  rfl

theorem Mode.of_first {v : String} (hv : m v = none) (hn : v ≠ tcNext) (hp : v ≠ tcPrev)
    (hS : S ≠ .var v) : Mode.of m S (.var v) = (Mode.of m S O).first := by
  have hport : port m (.var v) = .other := by
    rw [port, hv]
    simp [hn, hp]
  rw [Mode.of, hport]
  simp [Mode.of, Mode.first, hS]

theorem Mode.of_after {v : String} {a c : GraphElement N} (hS : bindEnd m S a = some m')
    (hSv : S ≠ .var v) (hOv : O ≠ .var v) (hn : v ≠ tcNext) (hp : v ≠ tcPrev) :
    Mode.of (m'.set v c) (.var v) O = (Mode.of m S O).after := by
  -- a variable other than the bridge is bound when it was, or when it is the subject
  have hbound : ∀ w, w ≠ v → ((m'.set v c) w).isSome = ((m w).isSome || S = .var w) := by
    intro w hwv
    rw [set_of_ne hwv]
    cases S with
    | var u =>
      obtain ⟨-, rfl⟩ := bindVar_eq_some.mp hS
      by_cases hwu : w = u
      · subst hwu
        simp
      · rw [set_of_ne hwu]
        simp [Ne.symm hwu]
    | constant gel =>
      rw [bindEnd] at hS
      split_ifs at hS
      obtain rfl := Option.some.inj hS
      simp
    | tripleTerm s p o => cases hS
  have hflag : ∀ w, w ≠ v → ∀ P : Port, (∀ m : Mapping String (GraphElement N), m w = none →
      port m (.var w) = P) → P ≠ .bound → (∀ u, u ≠ w → port m (.var u) ≠ P) →
      ((m'.set v c) w).isSome = ((m w).isSome || port m S = P) := by
    intro w hwv P hP hPb hother
    rw [hbound w hwv]
    cases hw : m w with
    | some x => rfl
    | none =>
      rw [Option.isSome_none, Bool.false_or, Bool.false_or]
      cases S with
      | var u =>
        by_cases huw : u = w
        · subst huw
          simp [hP m hw]
        · simp [huw, hother u huw]
      | constant gel =>
        have hne : ¬ Port.bound = P := fun h => hPb h.symm
        simp [port, hne]
      | tripleTerm s p o => cases hS
  have hnext : ((m'.set v c) tcNext).isSome = ((m tcNext).isSome || port m S = .next) := by
    apply hflag tcNext hn.symm .next
    · intro m hm
      rw [port, hm]
      rfl
    · decide
    · intro u hu
      rw [port]
      split_ifs <;> simp_all
  have hprev : ((m'.set v c) tcPrev).isSome = ((m tcPrev).isSome || port m S = .prev) := by
    apply hflag tcPrev hp.symm .prev
    · intro m hm
      rw [port, hm]
      simp [tcPrev_ne_tcNext]
    · decide
    · intro u hu
      rw [port]
      split_ifs <;> simp_all
  have hobject : port (m'.set v c) O = if (S = O && port m S ≠ .bound) = true then .bound
      else port m O := by
    cases O with
    | var w =>
      have hwv : w ≠ v := fun h => hOv (congrArg Term.var h)
      have hw := hbound w hwv
      by_cases hSw : S = .var w
      · subst hSw
        rw [port, hw]
        by_cases hb : (m w).isSome = true
        · simp [hb, port]
        · have hport : port m (.var w) ≠ .bound := by
            rw [port]
            split_ifs <;> simp
          simp [hport]
      · rw [port, port, hw]
        simp [hSw]
    | constant gel => simp [port]
    | tripleTerm s p o => simp [port]
  rw [Mode.of, port_of_some (set_same m' v c), hnext, hprev, hobject]
  simp [Mode.of, Mode.after]

theorem Mode.of_forward (h : m tcNext = none) (S O : Term N) (e : GraphElement N) :
    Mode.of m (.constant e) (.var tcNext) = (Mode.of m S O).forward := by
  have hport : port m (.var tcNext) = .next := by
    rw [port, h]
    rfl
  rw [Mode.of, hport]
  simp [Mode.of, Mode.forward, port]

theorem Mode.of_backward (h : m tcPrev = none) (S O : Term N) (e : GraphElement N) :
    Mode.of m (.var tcPrev) (.constant e) = (Mode.of m S O).backward := by
  have hport : port m (.var tcPrev) = .prev := by
    rw [port, h]
    simp [tcPrev_ne_tcNext]
  rw [Mode.of, hport]
  simp [Mode.of, Mode.backward, port]

end ModeOf

end RdfDatalog.Sparql
