import RdfDatalog.Sparql.PathModes

namespace RdfDatalog.Sparql

open LoopRelation Relation Mapping

variable {N : NativeTypes} {ds : Datastore N} {g : GraphElementId}

/-- The two ends and the solution use no bridge variable that is still to come. -/
structure Fresh (c : Nat) (m : Mapping String (GraphElement N)) (S O : Term N) : Prop where
  unbound : ∀ i, c ≤ i → m (bridgeName i) = none
  subject : ∀ i, c ≤ i → S ≠ .var (bridgeName i)
  object : ∀ i, c ≤ i → O ≠ .var (bridgeName i)

variable {c : Nat} {m : Mapping String (GraphElement N)} {S O : Term N}
  {X : Set (Mapping String (GraphElement N))} {C : GraphElement N → GraphElement N → Prop}

theorem Fresh.mono {c' : Nat} (h : Fresh c m S O) (hc : c ≤ c') : Fresh c' m S O :=
  ⟨fun i hi => h.unbound i (hc.trans hi), fun i hi => h.subject i (hc.trans hi),
    fun i hi => h.object i (hc.trans hi)⟩

theorem Fresh.swap (h : Fresh c m S O) : Fresh c m O S :=
  ⟨h.unbound, h.object, h.subject⟩

/-- From a counter of at least `c` on, the results are those of `X`. -/
def Computes (ds : Datastore N) (c : Nat) (X : Set (Mapping String (GraphElement N)))
    (prog : StateM Nat (List (PartialSub N))) : Prop :=
  ∀ c', c ≤ c' → Answers ds (prog c').1 X ∧ c' ≤ (prog c').2

theorem computes_pure {rows : List (PartialSub N)} (h : Answers ds rows X) :
    Computes ds c X (pure rows) :=
  fun c' _ => ⟨h, le_refl c'⟩

theorem Computes.congr {X' : Set (Mapping String (GraphElement N))}
    {prog : StateM Nat (List (PartialSub N))} (h : Computes ds c X prog) (hX : ∀ m, m ∈ X ↔ m ∈ X')
    : Computes ds c X' prog :=
  fun c' hc => ⟨(h c' hc).1.congr hX, (h c' hc).2⟩

/-- How a relation between the two ends extends a solution. -/
def extensions (m : Mapping String (GraphElement N)) (S O : Term N)
    (C : GraphElement N → GraphElement N → Prop) : Set (Mapping String (GraphElement N)) :=
  {m' | ∃ a b, C a b ∧ (bindEnd m S a).bind (fun m => bindEnd m O b) = some m'}

theorem extensions_congr {C' : GraphElement N → GraphElement N → Prop} (h : ∀ a b, C a b ↔ C' a b)
    (m' : Mapping String (GraphElement N)) :
    m' ∈ extensions m S O C ↔ m' ∈ extensions m S O C' := by
  simp only [extensions, h]

theorem bindEnd_comm (m : Mapping String (GraphElement N)) (S O : Term N) (a b : GraphElement N) :
    (bindEnd m S a).bind (fun m => bindEnd m O b) =
      (bindEnd m O b).bind fun m => bindEnd m S a := by
  cases S with
  | constant gel =>
    simp only [bindEnd]
    split_ifs
    · simp
    · simp
  | tripleTerm s p o => simp [bindEnd]
  | var v =>
    cases O with
    | constant gel =>
      simp only [bindEnd]
      split_ifs
      · simp
      · simp
    | tripleTerm s p o => simp [bindEnd]
    | var w =>
      by_cases hvw : v = w
      · subst hvw
        simp only [bindEnd]
        cases hv : m v with
        | none =>
          simp only [bindVar_of_none hv, Option.bind_some,
            bindVar_of_some (set_same m v _)]
          by_cases hab : a = b
          · subst hab
            rfl
          · simp [hab, Ne.symm hab]
        | some x =>
          rw [bindVar_of_some hv, bindVar_of_some hv]
          by_cases hxa : x = a
          · by_cases hxb : x = b
            · simp only [if_pos hxa, if_pos hxb, Option.bind_some, bindVar_of_some hv]
            · simp only [if_pos hxa, if_neg hxb, Option.bind_some, Option.bind_none,
                bindVar_of_some hv]
          · by_cases hxb : x = b
            · simp only [if_neg hxa, if_pos hxb, Option.bind_some, Option.bind_none,
                bindVar_of_some hv]
            · simp only [if_neg hxa, if_neg hxb, Option.bind_none]
      · have hne : (Term.var w : Term N) ≠ .var v := fun h => hvw (Term.var.inj h).symm
        have hne' : (Term.var v : Term N) ≠ .var w := fun h => hvw (Term.var.inj h)
        cases hbv : bindEnd m (.var v) a with
        | none =>
          cases hbw : bindEnd m (.var w) b with
          | none => rfl
          | some m₁ =>
            obtain ⟨-, rfl⟩ := bindVar_eq_some.mp hbw
            rw [Option.bind_none, Option.bind_some, bindEnd_set hne', hbv]
            rfl
        | some m₁ =>
          obtain ⟨-, rfl⟩ := bindVar_eq_some.mp hbv
          rw [Option.bind_some, bindEnd_set hne]
          cases hbw : bindEnd m (.var w) b with
          | none => rfl
          | some m₂ =>
            obtain ⟨-, rfl⟩ := bindVar_eq_some.mp hbw
            rw [Option.bind_some, bindEnd_set hne', hbv, Option.map_some, Option.map_some,
              set_comm hvw]

theorem extensions_swap (m' : Mapping String (GraphElement N)) :
    m' ∈ extensions m O S (fun a b => C b a) ↔ m' ∈ extensions m S O C := by
  constructor
  · intro ⟨a, b, hC, hm⟩
    exact ⟨b, a, hC, (bindEnd_comm m S O b a).trans hm⟩
  · intro ⟨a, b, hC, hm⟩
    exact ⟨b, a, hC, (bindEnd_comm m O S b a).trans hm⟩

theorem extensions_comp {v : String} (hv : m v = none) (hS : S ≠ .var v) (hO : O ≠ .var v)
    (C C' : GraphElement N → GraphElement N → Prop) (m' : Mapping String (GraphElement N)) :
    (∃ m₁ ∈ extensions m S (.var v) C, ∃ m₂ ∈ extensions m₁ (.var v) O C', m₂.unset v = m') ↔
      m' ∈ extensions m S O (Comp C C') := by
  constructor
  · intro ⟨m₁, ⟨a, c, hac, hm₁⟩, m₂, ⟨c', b, hcb, hm₂⟩, hm'⟩
    obtain ⟨mS, hmS, hm₁⟩ := Option.bind_eq_some_iff.mp hm₁
    have hvS := bindEnd_eq_none_of hmS hS hv
    rw [bindEnd_of_none hvS] at hm₁
    obtain rfl := Option.some.inj hm₁
    obtain ⟨m₃, hm₃, hm₄⟩ := Option.bind_eq_some_iff.mp hm₂
    obtain ⟨hcc, heq₃⟩ := bindVar_eq_some.mp hm₃
    rw [set_same] at hcc
    have hc : c = c' := Option.some.inj (hcc.resolve_left (by simp))
    rw [heq₃, set_set_same, bindEnd_set hO] at hm₄
    obtain ⟨mO, hmO, hm₅⟩ := Option.map_eq_some_iff.mp hm₄
    have hvO := bindEnd_eq_none_of hmO hO hvS
    rw [← hm₅, unset_set hvO] at hm'
    rw [← hc] at hcb
    exact ⟨a, b, ⟨c, hac, hcb⟩, by rw [hmS, Option.bind_some, hmO, hm']⟩
  · intro ⟨a, b, ⟨c, hac, hcb⟩, hm'⟩
    obtain ⟨mS, hmS, hmO⟩ := Option.bind_eq_some_iff.mp hm'
    have hvS := bindEnd_eq_none_of hmS hS hv
    have hvO := bindEnd_eq_none_of hmO hO hvS
    refine ⟨mS.set v c, ⟨a, c, hac, ?_⟩, m'.set v c, ⟨c, b, hcb, ?_⟩, unset_set hvO c⟩
    · rw [hmS, Option.bind_some, bindEnd_of_none hvS]
    · have hsame : bindEnd (mS.set v c) (.var v) c = some (mS.set v c) := by
        rw [bindEnd, bindVar_of_some (set_same mS v c), if_pos rfl]
      rw [hsame, Option.bind_some, bindEnd_set hO, hmO, Option.map_some]

/-- The evaluation of a path between plain terms follows the relation `R`, in the modes that
`sound` admits; `loops` are the modes in which it connects a bound end with itself. -/
def Evaluates (ds : Datastore N) (g : GraphElementId) (eval : PathEval N)
    (R : GraphElement N → GraphElement N → Prop) (sound loops : Mode → Bool) : Prop :=
  ∀ ⦃sub S O c⦄, Valid ds sub → S.isPlain = true → O.isPlain = true →
    Fresh c (meaning ds sub) S O → sound (Mode.of (meaning ds sub) S O) = true →
    Computes ds c (extensions (meaning ds sub) S O
      (withLoops R fun _ => loops (Mode.of (meaning ds sub) S O) = true)) (eval (.fixed g) S O sub)

theorem computes_forRows {eval : PartialSub N → StateM Nat (List (PartialSub N))}
    {rows : List (PartialSub N)} {Y : PartialSub N → Set (Mapping String (GraphElement N))}
    (h : ∀ r ∈ rows, Computes ds c (Y r) (eval r)) :
    Computes ds c {m | ∃ r ∈ rows, m ∈ Y r} (forRows eval rows) := by
  induction rows with
  | nil => exact computes_pure (answers_nil.congr fun m => by simp)
  | cons r rows ih =>
    intro c' hc
    obtain ⟨hr, hcr⟩ := h r (.head rows) c' hc
    obtain ⟨hrest, hcrest⟩ := ih (fun r' hr' => h r' (.tail r hr')) (eval r c').2 (hc.trans hcr)
    refine ⟨(hr.append hrest).congr fun m => ?_, hcr.trans hcrest⟩
    simp

theorem removeAll_erase (names : List String) (name : String) (r : PartialSub N) :
    removeAll names (r.erase name) = (removeAll names r).erase name := by
  induction names generalizing r with
  | nil => rfl
  | cons name' names ih =>
    change removeAll names ((r.erase name).erase name') =
      (removeAll names (r.erase name')).erase name
    rw [Finmap.erase_erase, ih]

theorem map_removeAll_cons (name : String) (names : List String) (rows : List (PartialSub N)) :
    rows.map (removeAll (name :: names)) =
      (rows.map (removeAll names)).map fun r => r.erase name := by
  rw [List.map_map]
  exact List.map_congr_left fun r _ => removeAll_erase names name r

/-- A step of a sequence, and what is known of it. -/
structure Step (N : NativeTypes) where
  eval : PathEval N
  rel : GraphElement N → GraphElement N → Prop
  sound : Mode → Bool
  loops : Mode → Bool

def Step.Correct (ds : Datastore N) (g : GraphElementId) (V : Set (GraphElement N))
    (s : Step N) : Prop :=
  Evaluates ds g s.eval s.rel s.sound s.loops ∧
    OnNodes V s.rel fun _ => ∃ k, s.loops k = true

theorem Step.onNodes {V : Set (GraphElement N)} {steps : List (Step N)}
    (h : ∀ s ∈ steps, s.Correct ds g V) (k : Mode) :
    OnNodes V (chain V (steps.map Step.rel)) fun _ =>
      stepsLoops (steps.map Step.loops) k = true := by
  have hmono : ∀ a : GraphElement N, stepsLoops (steps.map Step.loops) k = true →
      ∀ s ∈ steps, ∃ k, s.loops k = true := by
    intro _ hk s hs
    exact stepsLoops_imp (P := fun f => ∃ k, f k = true) (fun f _ hf => hf) hk s.loops
      (List.mem_map_of_mem hs)
  have hchain : OnNodes V (chain V (steps.map Step.rel))
      fun _ => ∀ s ∈ steps, ∃ k, s.loops k = true := by
    apply onNodes_chain
    intro R hR
    obtain ⟨s, hs, rfl⟩ := List.mem_map.mp hR
    exact (h s hs).2.mono fun _ hall => hall s hs
  exact hchain.mono hmono

section Sequence

variable {V : Set (GraphElement N)}

/-- What holds of a row when the steps of a sequence are evaluated for it. -/
structure Ready (ds : Datastore N) (c : Nat) (steps : List (Step N)) (S O : Term N)
    (r : PartialSub N) : Prop where
  valid : Valid ds r
  fresh : Fresh c (meaning ds r) S O
  sound : stepsSound (steps.map Step.sound) (Mode.of (meaning ds r) S O) = true

/-- The meanings a sequence gives a row. -/
def sequenceExtensions (ds : Datastore N) (V : Set (GraphElement N)) (steps : List (Step N))
    (S O : Term N) (r : PartialSub N) : Set (Mapping String (GraphElement N)) :=
  extensions (meaning ds r) S O (withLoops (chain V (steps.map Step.rel)) fun _ =>
    stepsLoops (steps.map Step.loops) (Mode.of (meaning ds r) S O) = true)

/-- What the first step of a sequence relates, read for a row. -/
def Step.relates (ds : Datastore N) (s : Step N) (S O : Term N) (r : PartialSub N) :
    GraphElement N → GraphElement N → Prop :=
  withLoops s.rel fun _ => s.loops (Mode.of (meaning ds r) S O).first = true

variable {c c' : Nat} {s s' : Step N} {rest : List (Step N)} {S O : Term N} {r : PartialSub N}

theorem Ready.step {r₁ : PartialSub N} (h : Ready ds c (s :: s' :: rest) S O r) (hc : c ≤ c')
    {C : GraphElement N → GraphElement N → Prop} (hr₁ : Valid ds r₁)
    (hm : meaning ds r₁ ∈ extensions (meaning ds r) S (.var (bridgeName c')) C) :
    Ready ds (c' + 1) (s' :: rest) (.var (bridgeName c')) O r₁ ∧
      Mode.of (meaning ds r₁) (.var (bridgeName c')) O = (Mode.of (meaning ds r) S O).after := by
  obtain ⟨a, b, _, hm⟩ := hm
  obtain ⟨mS, hmS, hm⟩ := Option.bind_eq_some_iff.mp hm
  have hS := h.fresh.subject c' hc
  have hO := h.fresh.object c' hc
  have hnone := bindEnd_eq_none_of hmS hS (h.fresh.unbound c' hc)
  rw [bindEnd_of_none hnone] at hm
  have heq := Option.some.inj hm
  have hmode := Mode.of_after (c := b) hmS hS hO (bridgeName_ne_tcNext c') (bridgeName_ne_tcPrev c')
  rw [heq] at hmode
  refine ⟨⟨hr₁, ⟨?_, ?_, ?_⟩, ?_⟩, hmode⟩
  · intro i hi
    have hne : bridgeName i ≠ bridgeName c' := fun hc => by
      have := bridgeName_injective hc
      omega
    rw [← heq, set_of_ne hne]
    exact bindEnd_eq_none_of hmS (h.fresh.subject i (by omega)) (h.fresh.unbound i (by omega))
  · intro i hi hc
    have := bridgeName_injective (Term.var.inj hc)
    omega
  · exact fun i hi => h.fresh.object i (by omega)
  · have hsound := h.sound
    rw [List.map_cons, List.map_cons, stepsSound, Bool.and_eq_true] at hsound
    rw [hmode]
    exact hsound.2

theorem Ready.computes_last (h : Ready ds c [s] S O r) (hs : s.Correct ds g V)
    (hS : S.isPlain = true) (hO : O.isPlain = true) (hc : c ≤ c') :
    Computes ds c' (sequenceExtensions ds V [s] S O r) (s.eval (.fixed g) S O r) := by
  have hcomputes := hs.1 h.valid hS hO (h.fresh.mono hc) h.sound
  refine hcomputes.congr fun m => extensions_congr (fun a b => ?_) m
  exact or_congr (chain_singleton hs.2.right a b).symm Iff.rfl

theorem Ready.computes_first (h : Ready ds c (s :: s' :: rest) S O r) (hs : s.Correct ds g V)
    (hS : S.isPlain = true) (hc : c ≤ c') :
    Computes ds (c' + 1) (extensions (meaning ds r) S (.var (bridgeName c')) (s.relates ds S O r))
      (s.eval (.fixed g) S (.var (bridgeName c')) r) := by
  have hmode := Mode.of_first (O := O) (h.fresh.unbound c' hc) (bridgeName_ne_tcNext c')
    (bridgeName_ne_tcPrev c') (h.fresh.subject c' hc)
  have hfresh : Fresh (c' + 1) (meaning ds r) S (.var (bridgeName c')) := by
    refine ⟨fun i hi => h.fresh.unbound i (by omega), fun i hi => h.fresh.subject i (by omega),
      fun i hi heq => ?_⟩
    have := bridgeName_injective (Term.var.inj heq)
    omega
  have hsound := h.sound
  rw [List.map_cons, List.map_cons, stepsSound, Bool.and_eq_true] at hsound
  have hcomputes := hs.1 h.valid hS rfl hfresh (hmode ▸ hsound.1)
  rw [hmode] at hcomputes
  exact hcomputes

/-- The meanings of a sequence are those of its first step up to the bridge, extended by the
others from there. -/
theorem Ready.mem_sequenceExtensions (h : Ready ds c (s :: s' :: rest) S O r)
    (hcorrect : ∀ t ∈ s :: s' :: rest, t.Correct ds g V) (hc : c ≤ c')
    (m : Mapping String (GraphElement N)) :
    m ∈ sequenceExtensions ds V (s :: s' :: rest) S O r ↔
      ∃ m₁ ∈ extensions (meaning ds r) S (.var (bridgeName c')) (s.relates ds S O r),
        ∃ m₂ ∈ extensions m₁ (.var (bridgeName c')) O
            (withLoops (chain V ((s' :: rest).map Step.rel)) fun _ =>
              stepsLoops ((s' :: rest).map Step.loops) (Mode.of (meaning ds r) S O).after = true),
          m₂.unset (bridgeName c') = m := by
  rw [extensions_comp (h.fresh.unbound c' hc) (h.fresh.subject c' hc) (h.fresh.object c' hc)]
  apply extensions_congr
  intro a b
  have hnodes : OnNodes V s.rel fun _ => s.loops (Mode.of (meaning ds r) S O).first = true :=
    (hcorrect s (.head _)).2.mono fun _ h => ⟨_, h⟩
  have hrest :=
    Step.onNodes (fun s hs => hcorrect s (.tail _ hs)) (Mode.of (meaning ds r) S O).after
  rw [Step.relates, hnodes.comp_withLoops hrest]
  simp only [List.map_cons, stepsLoops, Bool.and_eq_true]
  exact Iff.rfl

/-- The rows of the first step, and the rows the other steps give for these. -/
theorem answers_cons {rows rows₁ rows₂ : List (PartialSub N)}
    (hcorrect : ∀ t ∈ s :: s' :: rest, t.Correct ds g V)
    (hrows : ∀ r ∈ rows, Ready ds c (s :: s' :: rest) S O r) (hc : c ≤ c')
    (hfirst : Answers ds rows₁ {m | ∃ r ∈ rows, m ∈
      extensions (meaning ds r) S (.var (bridgeName c')) (s.relates ds S O r)})
    (hrest : Answers ds rows₂ {m | ∃ r₁ ∈ rows₁, m ∈
      sequenceExtensions ds V (s' :: rest) (.var (bridgeName c')) O r₁}) :
    Answers ds (rows₂.map fun r => r.erase (bridgeName c'))
      {m | ∃ r ∈ rows, m ∈ sequenceExtensions ds V (s :: s' :: rest) S O r} := by
  refine ⟨?_, fun m => ⟨?_, ?_⟩⟩
  · intro r hr
    obtain ⟨r₂, hr₂, rfl⟩ := List.mem_map.mp hr
    exact (hrest.valid r₂ hr₂).erase
  · rintro ⟨r', hr', rfl⟩
    obtain ⟨r₂, hr₂, rfl⟩ := List.mem_map.mp hr'
    obtain ⟨r₁, hr₁, hm₂⟩ := (hrest.exact _).mp ⟨r₂, hr₂, rfl⟩
    obtain ⟨r, hr, hm₁⟩ := (hfirst.exact _).mp ⟨r₁, hr₁, rfl⟩
    have hmode := ((hrows r hr).step hc (hfirst.valid r₁ hr₁) hm₁).2
    rw [sequenceExtensions, hmode] at hm₂
    refine ⟨r, hr, ((hrows r hr).mem_sequenceExtensions hcorrect hc _).mpr ⟨_, hm₁, _, hm₂, ?_⟩⟩
    exact meaning_erase.symm
  · rintro ⟨r, hr, hm⟩
    obtain ⟨m₁, hm₁, m₂, hm₂, rfl⟩ := ((hrows r hr).mem_sequenceExtensions hcorrect hc m).mp hm
    obtain ⟨r₁, hr₁, rfl⟩ := (hfirst.exact m₁).mpr ⟨r, hr, hm₁⟩
    have hmode := ((hrows r hr).step hc (hfirst.valid r₁ hr₁) hm₁).2
    rw [← hmode] at hm₂
    obtain ⟨r₂, hr₂, rfl⟩ := (hrest.exact m₂).mpr ⟨r₁, hr₁, hm₂⟩
    exact ⟨_, List.mem_map_of_mem hr₂, meaning_erase⟩

theorem evalSteps_answers {steps : List (Step N)} (hcorrect : ∀ s ∈ steps, s.Correct ds g V)
    (hne : steps ≠ []) {rows : List (PartialSub N)} {S O : Term N} (hS : S.isPlain = true)
    (hO : O.isPlain = true) {c c' : Nat} (hrows : ∀ r ∈ rows, Ready ds c steps S O r)
    (hc : c ≤ c') :
    let out := evalSteps (.fixed g) O (steps.map Step.eval) S rows c'
    Answers ds (out.1.1.map (removeAll out.1.2))
      {m | ∃ r ∈ rows, m ∈ sequenceExtensions ds V steps S O r} ∧ c' ≤ out.2 := by
  induction steps generalizing rows S c c' with
  | nil => exact absurd rfl hne
  | cons s rest ih =>
    have hs := hcorrect s (.head rest)
    cases rest with
    | nil =>
      obtain ⟨hanswers, hcount⟩ :=
        computes_forRows (fun r hr => (hrows r hr).computes_last hs hS hO hc) c' le_rfl
      refine ⟨?_, hcount⟩
      change Answers ds (List.map id _) _
      rw [List.map_id]
      exact hanswers
    | cons s' rest =>
      obtain ⟨hfirst, hcount₁⟩ :=
        computes_forRows (fun r hr => (hrows r hr).computes_first hs hS hc) (c' + 1) le_rfl
      let first := forRows (s.eval (.fixed g) S (.var (bridgeName c'))) rows (c' + 1)
      have hrows₁ : ∀ r₁ ∈ first.1,
          Ready ds (c' + 1) (s' :: rest) (.var (bridgeName c')) O r₁ := by
        intro r₁ hr₁
        obtain ⟨r, hr, hm⟩ := (hfirst.exact (meaning ds r₁)).mp ⟨r₁, hr₁, rfl⟩
        exact ((hrows r hr).step hc (hfirst.valid r₁ hr₁) hm).1
      obtain ⟨hrest, hcount₂⟩ := ih (fun s hs => hcorrect s (.tail _ hs)) (List.cons_ne_nil _ _)
        rfl hrows₁ hcount₁
      refine ⟨?_, (Nat.le_succ c').trans (hcount₁.trans hcount₂)⟩
      change Answers ds (List.map (removeAll (bridgeName c' :: _)) _) _
      rw [map_removeAll_cons]
      exact answers_cons hcorrect hrows hc hfirst hrest

theorem evalSequence_evaluates (steps : List (Step N)) (hcorrect : ∀ s ∈ steps, s.Correct ds g V) :
    Evaluates ds g (evalSequence (steps.map Step.eval)) (chain V (steps.map Step.rel))
      (stepsSound (steps.map Step.sound)) (stepsLoops (steps.map Step.loops)) := by
  intro sub S O c hvalid hS hO hfresh hsound c' hc
  have hne : steps ≠ [] := by
    rintro rfl
    cases hsound
  have hrows : ∀ r ∈ [sub], Ready ds c steps S O r := by
    intro r hr
    obtain rfl := List.mem_singleton.mp hr
    exact ⟨hvalid, hfresh, hsound⟩
  obtain ⟨hanswers, hcount⟩ := evalSteps_answers hcorrect hne hS hO hrows hc
  refine ⟨hanswers.congr fun m => ?_, hcount⟩
  constructor
  · intro ⟨r, hr, hm⟩
    obtain rfl := List.mem_singleton.mp hr
    exact hm
  · intro hm
    exact ⟨sub, .head [], hm⟩

end Sequence

end RdfDatalog.Sparql
