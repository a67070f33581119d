import RdfDatalog.Datalog.Stratification

namespace RdfDatalog.Datalog

variable {Expr : Type}

/-- The terms of two patterns that meet, in the order the test compares them. -/
def positions (q₁ q₂ : QuadPattern) : List (Term × Term) :=
  [(q₁.subject, q₂.subject), (q₁.predicate, q₂.predicate), (q₁.object, q₂.object),
    (q₁.graph, q₂.graph)]

/-- A constant that stands opposite a variable: the variable it is for, with whether that is one of
the second pattern, and the name that the test looks it up by. -/
structure Pin where
  owner : Bool × String
  name : String
  constant : GraphElementId

/-- A variable of the first pattern goes by the variable of the second that it last stood opposite.
The test looks up those of the second pattern in the same way. -/
def pins : (String → Option String) → List (Term × Term) → List Pin
  | _, [] => []
  | names, (.var v, .resource r) :: ps =>
    ⟨((names v).map (true, ·)).getD (false, v), (names v).getD v, r⟩ :: pins names ps
  | names, (.resource r, .var v) :: ps => ⟨(true, v), (names v).getD v, r⟩ :: pins names ps
  | names, (.resource _, .resource _) :: ps => pins names ps
  | names, (.var v₁, .var v₂) :: ps => pins (Function.update names v₁ (some v₂)) ps

def pinned (q₁ q₂ : QuadPattern) : List Pin := pins (fun _ => none) (positions q₁ q₂)

/-- Different constants for different variables are looked up by one name. -/
def Confused (q₁ q₂ : QuadPattern) : Prop :=
  ∃ a ∈ pinned q₁ q₂, ∃ b ∈ pinned q₁ q₂,
    a.name = b.name ∧ a.owner ≠ b.owner ∧ a.constant ≠ b.constant

/-- Every name of `l` has one constant, the one of `c` where `c` has one. -/
def AgreesWith (c : String → Option GraphElementId) (l : List (String × GraphElementId)) : Prop :=
  ∀ n r, (n, r) ∈ l → ∀ r', c n = some r' ∨ (n, r') ∈ l → r' = r

def entries (l : List Pin) : List (String × GraphElementId) := l.map fun a => (a.name, a.constant)

/-- Every name has one constant. -/
def NamesAgree (q₁ q₂ : QuadPattern) : Prop :=
  ∀ a ∈ pinned q₁ q₂, ∀ b ∈ pinned q₁ q₂, a.name = b.name → a.constant = b.constant

theorem agreesWith_entries {l : List Pin} :
    AgreesWith (fun _ => none) (entries l) ↔
      ∀ a ∈ l, ∀ b ∈ l, a.name = b.name → a.constant = b.constant := by
  constructor
  · intro h a ha b hb hname
    refine h _ _ (List.mem_map_of_mem hb) _ (.inr ?_)
    rw [← hname]
    exact List.mem_map_of_mem ha
  · intro h n r hr r' hr'
    obtain ⟨b, hb, heq⟩ := List.mem_map.mp hr
    obtain ⟨hb', rfl⟩ := Prod.mk.inj heq
    obtain ⟨a, ha, heq⟩ := List.mem_map.mp (hr'.resolve_left (by simp))
    obtain ⟨ha', rfl⟩ := Prod.mk.inj heq
    exact h a ha b hb (ha'.trans hb'.symm)

theorem agreesWith_cons {c : String → Option GraphElementId} {n : String} {r : GraphElementId}
    {l : List (String × GraphElementId)} :
    AgreesWith c ((n, r) :: l) ↔
      (c n = none ∨ c n = some r) ∧ AgreesWith (Function.update c n (some r)) l := by
  have hpin : ∀ n' r', Function.update c n (some r) n' = some r' →
      (n' = n ∧ r' = r) ∨ c n' = some r' := by
    intro n' r' h
    by_cases hn : n' = n
    · subst hn
      rw [Function.update_self] at h
      exact .inl ⟨rfl, (Option.some.inj h).symm⟩
    · rw [Function.update_of_ne hn] at h
      exact .inr h
  constructor
  · intro h
    constructor
    · cases hc : c n with
      | none => exact .inl rfl
      | some r' => rw [h n r (.head l) r' (.inl hc)]; exact .inr rfl
    · intro n' s hs r' hr'
      have hs' : (n', s) ∈ (n, r) :: l := .tail _ hs
      rcases hr' with hr' | hr'
      · rcases hpin n' r' hr' with ⟨rfl, rfl⟩ | hc
        · exact h n' s hs' r' (.inr (.head l))
        · exact h n' s hs' r' (.inl hc)
      · exact h n' s hs' r' (.inr (.tail _ hr'))
  · intro ⟨hn, h⟩ n' s hs r' hr'
    have hself : ∀ t, (n, t) ∈ l → r = t := fun t ht =>
      h n t ht r (.inl (Function.update_self ..))
    have hkept : ∀ t, c n' = some t → Function.update c n (some r) n' = some t := by
      intro t ht
      by_cases hne : n' = n
      · subst hne
        rw [Function.update_self, ← ht]
        rcases hn with hn | hn
        · rw [hn] at ht; cases ht
        · exact hn.symm
      · rw [Function.update_of_ne hne, ht]
    rcases List.mem_cons.mp hs with heq | hs
    · cases heq
      rcases hr' with hc | hr'
      · have hu := hkept r' hc
        rw [Function.update_self] at hu
        exact (Option.some.inj hu).symm
      · rcases List.mem_cons.mp hr' with heq | hr'
        · cases heq; rfl
        · exact (hself r' hr').symm
    · rcases hr' with hc | hr'
      · exact h n' s hs r' (.inl (hkept r' hc))
      · rcases List.mem_cons.mp hr' with heq | hr'
        · cases heq; exact hself s hs
        · exact h n' s hs r' (.inr hr')

theorem variableConstantUnifiable_bind {v : String} {r : GraphElementId} {u : Unifier}
    {k : Unifier → Option Unifier} {l : List (String × GraphElementId)} {clear : Prop}
    (hk : ∀ c, (k ⟨c, u.variableMap⟩).isSome ↔ clear ∧ AgreesWith c l) :
    ((variableConstantUnifiable v r u).bind k).isSome ↔
      clear ∧ AgreesWith u.constantMap (((u.variableMap v).getD v, r) :: l) := by
  rw [agreesWith_cons]
  unfold variableConstantUnifiable
  generalize (u.variableMap v).getD v = n
  cases hn : u.constantMap n with
  | none =>
    simp only [hn, Option.bind_some, true_or, true_and]
    exact hk _
  | some r' =>
    by_cases hr : r' = r
    · subst hr
      have hsame : Function.update u.constantMap n (some r') = u.constantMap := by
        rw [← hn, Function.update_eq_self]
      simp only [hn, hsame, if_true, Option.bind_some, or_true, true_and]
      exact hk _
    · simp [hn, hr]

/-- The test over any list of positions succeeds when no two constants meet and the names agree. -/
theorem foldlM_termsUnifiable_isSome (ps : List (Term × Term)) (u : Unifier) :
    (ps.foldlM (fun u p => termsUnifiable p.1 p.2 u) u).isSome ↔
      (∀ p ∈ ps, p.1.clash p.2 = false) ∧
        AgreesWith u.constantMap (entries (pins u.variableMap ps)) := by
  induction ps generalizing u with
  | nil =>
    have hnone : AgreesWith u.constantMap (entries (pins u.variableMap [])) := nofun
    simpa using hnone
  | cons p ps ih =>
    obtain ⟨t₁, t₂⟩ := p
    rw [List.foldlM_cons, List.forall_mem_cons]
    cases t₁ with
    | var v₁ =>
      cases t₂ with
      | var v₂ =>
        have hstep := ih { u with variableMap := Function.update u.variableMap v₁ (some v₂) }
        simpa [termsUnifiable, Term.clash, entries, pins] using hstep
      | resource r =>
        have hbind := variableConstantUnifiable_bind (v := v₁) (r := r) (u := u)
          (l := entries (pins u.variableMap ps))
          (k := fun u => ps.foldlM (fun u p => termsUnifiable p.1 p.2 u) u)
          fun c => ih ⟨c, u.variableMap⟩
        simpa [termsUnifiable, Term.clash, entries, pins] using hbind
    | resource r₁ =>
      cases t₂ with
      | var v₂ =>
        have hbind := variableConstantUnifiable_bind (v := v₂) (r := r₁) (u := u)
          (l := entries (pins u.variableMap ps))
          (k := fun u => ps.foldlM (fun u p => termsUnifiable p.1 p.2 u) u)
          fun c => ih ⟨c, u.variableMap⟩
        simpa [termsUnifiable, Term.clash, entries, pins] using hbind
      | resource r₂ =>
        by_cases hr : r₁ = r₂
        · simpa [termsUnifiable, Term.clash, entries, pins, hr] using ih u
        · simp [termsUnifiable, Term.clash, hr]

variable {q₁ q₂ : QuadPattern}

theorem quadPatternsUnifiable_iff :
    quadPatternsUnifiable q₁ q₂ = true ↔ q₁.clash q₂ = false ∧ NamesAgree q₁ q₂ := by
  have hfold : quadPatternsUnifiable q₁ q₂ =
      ((positions q₁ q₂).foldlM (fun u p => termsUnifiable p.1 p.2 u)
        ⟨fun _ => none, fun _ => none⟩).isSome := by
    simp [quadPatternsUnifiable, positions]
  rw [hfold, foldlM_termsUnifiable_isSome]
  have hclash : (∀ p ∈ positions q₁ q₂, p.1.clash p.2 = false) ↔ q₁.clash q₂ = false := by
    simp only [positions, List.forall_mem_cons, List.not_mem_nil, QuadPattern.clash,
      Bool.or_eq_false_iff]
    tauto
  exact and_congr hclash agreesWith_entries

/-- Where each position has a common value, a constant is the value of the variable it is for. -/
theorem constant_eq_value {sub₁ sub₂ : Substitution} {ps : List (Term × Term)}
    (hps : ∀ p ∈ ps, ∃ x, applySubstitutionResource sub₁ p.1 = some x ∧
      applySubstitutionResource sub₂ p.2 = some x)
    {names : String → Option String} (hnames : ∀ v w, names v = some w → sub₁ v = sub₂ w) :
    ∀ a ∈ pins names ps, some a.constant =
      if a.owner.1 then sub₂ a.owner.2 else sub₁ a.owner.2 := by
  induction ps generalizing names with
  | nil => simp [pins]
  | cons p ps ih =>
    obtain ⟨⟨x, hx₁, hx₂⟩, hrest⟩ := List.forall_mem_cons.mp hps
    obtain ⟨t₁, t₂⟩ := p
    cases t₁ with
    | var v₁ =>
      cases t₂ with
      | var v₂ =>
        refine ih hrest fun v w hw => ?_
        by_cases hv : v = v₁
        · subst hv
          rw [Function.update_self] at hw
          cases hw
          exact hx₁.trans hx₂.symm
        · rw [Function.update_of_ne hv] at hw
          exact hnames v w hw
      | resource r =>
        refine List.forall_mem_cons.mpr ⟨?_, ih hrest hnames⟩
        have hval : sub₁ v₁ = some r := hx₁.trans hx₂.symm
        cases hn : names v₁ with
        | none => simp [hval]
        | some w => simp [← hnames v₁ w hn, hval]
    | resource r =>
      cases t₂ with
      | var v₂ => exact List.forall_mem_cons.mpr ⟨hx₁.trans hx₂.symm, ih hrest hnames⟩
      | resource r₂ => exact ih hrest hnames

/-- Common quads make the constants of one variable one, so only confused names can disagree. -/
theorem Overlap.namesAgree_iff (h : Overlap q₁ q₂) : NamesAgree q₁ q₂ ↔ ¬ Confused q₁ q₂ := by
  obtain ⟨q, ⟨sub₁, -, hq₁⟩, ⟨sub₂, -, hq₂⟩⟩ := h
  obtain ⟨hg₁, hs₁, hp₁, ho₁⟩ := applySubstitutionQuad_eq_some.mp hq₁
  obtain ⟨hg₂, hs₂, hp₂, ho₂⟩ := applySubstitutionQuad_eq_some.mp hq₂
  have hvalue := @constant_eq_value sub₁ sub₂ (positions q₁ q₂) (by
    simp only [positions, List.forall_mem_cons]
    exact ⟨⟨_, hs₁, hs₂⟩, ⟨_, hp₁, hp₂⟩, ⟨_, ho₁, ho₂⟩, ⟨_, hg₁, hg₂⟩, by simp⟩)
    (fun _ => none) (by simp)
  constructor
  · rintro hagree ⟨a, ha, b, hb, hname, -, hne⟩
    exact hne (hagree a ha b hb hname)
  · intro hclear a ha b hb hname
    by_contra hne
    by_cases howner : a.owner = b.owner
    · have hconstant := hvalue a ha
      rw [howner, ← hvalue b hb] at hconstant
      exact hne (Option.some.inj hconstant)
    · exact hclear ⟨a, ha, b, hb, hname, howner, hne⟩

/-- A variable of two patterns without a common name is looked up by its own name. -/
theorem owner_of_apart {V W : List String} {ps : List (Term × Term)}
    (hps : ∀ p ∈ ps, p.1.getVariables ⊆ V ∧ p.2.getVariables ⊆ W) (hapart : V.Disjoint W)
    {names : String → Option String} (hnames : ∀ v w, names v = some w → v ∈ V ∧ w ∈ W) :
    ∀ a ∈ pins names ps, a.owner.2 = a.name ∧ (a.owner.1 = true ↔ a.name ∈ W) := by
  induction ps generalizing names with
  | nil => simp [pins]
  | cons p ps ih =>
    obtain ⟨⟨hV, hW⟩, hrest⟩ := List.forall_mem_cons.mp hps
    obtain ⟨t₁, t₂⟩ := p
    cases t₁ with
    | var v₁ =>
      have hv₁ : v₁ ∈ V := hV (.head _)
      cases t₂ with
      | var v₂ =>
        refine ih hrest fun v w hw => ?_
        by_cases hv : v = v₁
        · subst hv
          rw [Function.update_self] at hw
          cases hw
          exact ⟨hv₁, hW (.head _)⟩
        · rw [Function.update_of_ne hv] at hw
          exact hnames v w hw
      | resource r =>
        refine List.forall_mem_cons.mpr ⟨?_, ih hrest hnames⟩
        cases hn : names v₁ with
        | none => simpa using hapart hv₁
        | some w => simpa using (hnames v₁ w hn).2
    | resource r =>
      cases t₂ with
      | var v₂ =>
        have hv₂ : v₂ ∈ W := hW (.head _)
        have hnone : names v₂ = none := Option.eq_none_iff_forall_ne_some.mpr fun w hw =>
          hapart (hnames v₂ w hw).1 hv₂
        refine List.forall_mem_cons.mpr ⟨?_, ih hrest hnames⟩
        simpa [hnone] using hv₂
      | resource r₂ => exact ih hrest hnames

theorem not_confused_of_apart (h : q₁.getVariables.Disjoint q₂.getVariables) :
    ¬ Confused q₁ q₂ := by
  have howner := @owner_of_apart _ _ (positions q₁ q₂) (by
    simp +contextual [positions, QuadPattern.getVariables, List.subset_def]) h (fun _ => none)
    (by simp)
  rintro ⟨a, ha, b, hb, hname, hne, -⟩
  obtain ⟨ha₁, ha₂⟩ := howner a ha
  obtain ⟨hb₁, hb₂⟩ := howner b hb
  refine hne (Prod.ext (Bool.eq_iff_iff.mpr ?_) ?_)
  · rw [ha₂, hb₂, hname]
  · rw [ha₁, hb₁, hname]

/-- The head `(?x 2 8)`. -/
def sharedHead : QuadPattern := ⟨.resource 0, .var "x", .resource 2, .resource 8⟩

/-- The body atom `(9 2 ?x)`, whose `?x` belongs to another rule. -/
def sharedAtom : QuadPattern := ⟨.resource 0, .resource 9, .resource 2, .var "x"⟩

end RdfDatalog.Datalog
