import RdfDatalog.Datalog.Materialise

namespace RdfDatalog.Datalog

open GroundProgram DatalogProgram

variable {Expr : Type}

def DatalogProgram.withDerivedFrom (p : DatalogProgram Expr) (x : DerivedFromIndex) :
    DatalogProgram Expr :=
  { p with derivedFrom := x }

@[simp] theorem DatalogProgram.activeRules_withDerivedFrom (p : DatalogProgram Expr)
    (x : DerivedFromIndex) : (p.withDerivedFrom x).activeRules = p.activeRules := rfl

/-- What a pass over the strata leaves: the programs, the store, and for each program it reached
the derivations that were new. -/
structure Sweep (Expr : Type) where
  programs : List (DatalogProgram Expr)
  base : QuadStore
  tracked : List (List (Quad × Derivation))

/-- The pass over the later strata, with the first program and what it did in front. -/
def Sweep.cons (p : DatalogProgram Expr) (m : Materialisation) (s : Sweep Expr) : Sweep Expr :=
  ⟨p.withDerivedFrom m.derivedFrom :: s.programs, s.base, m.track :: s.tracked⟩

/-- Materialise the strata in order. `delta` grows by what each stratum derives; on a fault the
strata after the failing one are as they were. -/
def sweep (materialise : List Quad → DatalogProgram Expr → QuadStore →
    Outcome Expr Materialisation) :
    List Quad → List (DatalogProgram Expr) → QuadStore →
      Except (Fault Expr × Sweep Expr) (Sweep Expr)
  | _, [], base => .ok ⟨[], base, []⟩
  | delta, p :: ps, base =>
    match materialise delta p base with
    | .error (f, m) =>
      .error (f, ⟨p.withDerivedFrom m.derivedFrom :: ps, m.base, [m.track]⟩)
    | .ok m =>
      match sweep materialise (delta ++ m.track.map Prod.fst) ps m.base with
      | .error (f, s) => .error (f, s.cons p m)
      | .ok s => .ok (s.cons p m)

def materialiseAll (env : ReasonerEnv Expr) (programs : List (DatalogProgram Expr))
    (base : QuadStore) : Except (Fault Expr × Sweep Expr) (Sweep Expr) :=
  sweep (fun _ p base => p.materialiseSeminaiveTracked env base) [] programs base

/-- Materialise every stratum from scratch, each with an emptied derivation index. -/
def materialiseReset (env : ReasonerEnv Expr) (programs : List (DatalogProgram Expr))
    (base : QuadStore) : Except (Fault Expr × Sweep Expr) (Sweep Expr) :=
  sweep (fun _ p base => (p.withDerivedFrom .new).materialiseSeminaiveTracked env base) []
    programs base

/-- Materialise every stratum from the facts `delta` and what earlier strata derive from them. -/
def materialiseForward (env : ReasonerEnv Expr) (delta : List Quad)
    (programs : List (DatalogProgram Expr)) (base : QuadStore) :
    Except (Fault Expr × Sweep Expr) (Sweep Expr) :=
  sweep (fun delta p base => p.materialiseSeminaiveTrackedFromFacts env base delta) delta
    programs base

section Sweep

variable {materialise : List Quad → DatalogProgram Expr → QuadStore →
  Outcome Expr Materialisation} {delta : List Quad} {p : DatalogProgram Expr}
  {ps : List (DatalogProgram Expr)} {base : QuadStore} {s : Sweep Expr} {f : Fault Expr}

theorem sweep_cons_ok (h : sweep materialise delta (p :: ps) base = .ok s) :
    ∃ m s', materialise delta p base = .ok m ∧
      sweep materialise (delta ++ m.track.map Prod.fst) ps m.base = .ok s' ∧ s = s'.cons p m := by
  rw [sweep] at h
  cases hm : materialise delta p base with
  | error e => rw [hm] at h; cases h
  | ok m =>
    rw [hm] at h
    dsimp only at h
    split at h
    · cases h
    · next s' hs =>
      cases h
      exact ⟨m, s', rfl, hs, rfl⟩

theorem sweep_cons_error (h : sweep materialise delta (p :: ps) base = .error (f, s)) :
    (∃ m, materialise delta p base = .error (f, m) ∧
      s = ⟨p.withDerivedFrom m.derivedFrom :: ps, m.base, [m.track]⟩) ∨
    ∃ m s', materialise delta p base = .ok m ∧
      sweep materialise (delta ++ m.track.map Prod.fst) ps m.base = .error (f, s') ∧
      s = s'.cons p m := by
  rw [sweep] at h
  cases hm : materialise delta p base with
  | error e =>
    rw [hm] at h
    cases h
    exact .inl ⟨e.2, rfl, rfl⟩
  | ok m =>
    rw [hm] at h
    dsimp only at h
    cases hs : sweep materialise (delta ++ m.track.map Prod.fst) ps m.base with
    | error e =>
      rw [hs] at h
      cases h
      exact .inr ⟨m, e.2, rfl, hs, rfl⟩
    | ok s' => rw [hs] at h; cases h

theorem sweep_programs (h : sweep materialise delta ps base = .ok s) :
    List.Forall₂ (fun p p' => ∃ x, p' = p.withDerivedFrom x) ps s.programs := by
  induction ps generalizing delta base s with
  | nil =>
    cases h
    exact .nil
  | cons p ps ih =>
    obtain ⟨m, s', -, hs, rfl⟩ := sweep_cons_ok h
    exact .cons ⟨m.derivedFrom, rfl⟩ (ih hs)

end Sweep

def activeStrata (programs : List (DatalogProgram Expr)) : List (List (Rule Expr)) :=
  programs.map DatalogProgram.activeRules

theorem activeStrata_of_forall₂ {ps ps' : List (DatalogProgram Expr)}
    (h : List.Forall₂ (fun p p' => ∃ x, p' = p.withDerivedFrom x) ps ps') :
    activeStrata ps' = activeStrata ps := by
  induction h with
  | nil => rfl
  | cons hp _ ih =>
    obtain ⟨x, rfl⟩ := hp
    exact congrArg (List.cons _) ih

/-- The model of the strata over `E`: each is evaluated to its fixpoint, in order. -/
def strataModel (env : ReasonerEnv Expr) (strata : List (List (Rule Expr))) (E : Set Quad) :
    Set Quad :=
  perfect (strata.map (clausesOf env)) E

section Model

variable {env : ReasonerEnv Expr} {rules : List (Rule Expr)} {strata : List (List (Rule Expr))}

theorem OrderedStrata.tail (h : OrderedStrata (rules :: strata)) : OrderedStrata strata :=
  ⟨fun rs hrs => h.negation rs (.tail rules hrs), (List.pairwise_cons.mp h.order).2⟩

variable (h : OrderedStrata strata)

include h

theorem OrderedStrata.isStable_iff (env : ReasonerEnv Expr)
    {E M : Set Quad} : IsStable (clausesOf env strata.flatten) E M ↔
      M = strataModel env strata E := by
  rw [← union_map_clausesOf]
  exact (h.stratified env).isStable_iff

theorem OrderedStrata.strataModel_isStable (env : ReasonerEnv Expr)
    (E : Set Quad) : IsStable (clausesOf env strata.flatten) E (strataModel env strata E) :=
  (h.isStable_iff env).mpr rfl

theorem OrderedStrata.strataModel_eq_iff (env : ReasonerEnv Expr)
    {T E : Set Quad} : strataModel env strata T = strataModel env strata E ↔
      T ⊆ strataModel env strata E ∧ E ⊆ strataModel env strata T :=
  (h.stratified env).perfect_eq_iff

omit h

theorem subset_strataModel (env : ReasonerEnv Expr) (strata : List (List (Rule Expr)))
    (E : Set Quad) : E ⊆ strataModel env strata E :=
  subset_perfect _ E

include h in
theorem OrderedStrata.strataModel_congr {strata' : List (List (Rule Expr))}
    (h' : OrderedStrata strata')
    (hmem : ∀ r, r ∈ strata.flatten ↔ r ∈ strata'.flatten) (env : ReasonerEnv Expr)
    (E : Set Quad) : strataModel env strata E = strataModel env strata' E := by
  apply (h'.isStable_iff env).mp
  have hclauses : clausesOf env strata.flatten = clausesOf env strata'.flatten := by
    ext c
    simp only [clausesOf, hmem]
  rw [← hclauses]
  exact h.strataModel_isStable env E

/-- The body of an instance of the first stratum holds in the model iff it holds after that
stratum. -/
theorem activeIn_strataModel (env : ReasonerEnv Expr) (h : ∀ rs ∈ strata, RunsBefore rules rs)
    {r : Rule Expr}
    (hr : r ∈ rules) (sub : Substitution) (S : Set Quad) :
    r.ActiveIn sub (strataModel env strata S) ↔ r.ActiveIn sub S := by
  have hsub := subset_strataModel env strata S
  have hback : ∀ q ∈ strataModel env strata S, q ∉ S → ∃ producer sub', (∀ sub'',
      q ∉ r.witnesses sub'' ∧ q ∉ r.blockers sub'') ∧ producer ∈ strata.flatten ∧
      producer.headQuad sub' = some q := by
    intro q hq hS
    rcases mem_perfect_cases hq with hE | ⟨c, hc, rfl⟩
    · exact absurd hE hS
    · rw [union_map_clausesOf] at hc
      obtain ⟨producer, hp, sub', q, -, hh, rfl⟩ := hc
      obtain ⟨rs, hrs, hmem⟩ := List.mem_flatten.mp hp
      have hno := h rs hrs r hr producer hmem
      exact ⟨producer, sub', fun sub'' => ⟨fun hw => hno.1 (feedsPositive_of_head hh hw),
        fun hb => hno.2 (feedsNegative_of_head hh hb)⟩, hp, hh⟩
  constructor
  · intro ⟨hpos, hneg⟩
    refine ⟨?_, fun b hb hS => hneg b hb (hsub hS)⟩
    intro q hq
    by_contra hS
    obtain ⟨-, -, hno, -⟩ := hback q (hpos hq) hS
    exact (hno sub).1 hq
  · intro ⟨hpos, hneg⟩
    refine ⟨hpos.trans hsub, ?_⟩
    intro b hb hM
    obtain ⟨-, -, hno, -⟩ := hback b hM (hneg b hb)
    exact (hno sub).2 hb

end Model

/-- The quads that body-less rules assert. -/
def factHeads (rules : List (Rule Expr)) : Set Quad :=
  {q | ∃ r ∈ rules, r.body = [] ∧ r.headQuad emptySubstitution = some q}

theorem OrderedStrata.factHeads_subset {strata : List (List (Rule Expr))}
    (h : OrderedStrata strata) (env : ReasonerEnv Expr) (E : Set Quad) :
    factHeads strata.flatten ⊆ strataModel env strata E := by
  intro q ⟨r, hr, hb, hh⟩
  exact head_mem_of_stable (h.strataModel_isStable env E) hr (r.grounds_fact env hb) hh
    (r.activeIn_fact hb _ _)

section Spec

variable {env : ReasonerEnv Expr} (hf : env.FixedFilters) {materialise : List Quad →
  DatalogProgram Expr → QuadStore → Outcome Expr Materialisation}
include hf

/-- A pass over ordered strata computes their model when the model is consistent, and fails on
the inconsistency when it is not. -/
theorem sweep_model
    (hrun : ∀ delta p base, ∃ x, materialise delta p base =
      (p.withDerivedFrom x).materialiseSeminaiveTracked env base)
    {delta : List Quad} {ps : List (DatalogProgram Expr)} {base : QuadStore}
    (hs : OrderedStrata (activeStrata ps)) :
    (∀ s, sweep materialise delta ps base = .ok s →
      s.base.quads = strataModel env (activeStrata ps) base.quads ∧
      Consistent env (activeStrata ps).flatten s.base.quads) ∧
    ∀ f s, sweep materialise delta ps base = .error (f, s) → f ≠ .outOfFuel ∧
      ¬ Consistent env (activeStrata ps).flatten
        (strataModel env (activeStrata ps) base.quads) := by
  induction ps generalizing delta base with
  | nil =>
    constructor
    · intro s h
      cases h
      refine ⟨rfl, ?_⟩
      intro r hr
      cases hr
    · intro f s h
      cases h
  | cons p ps ih =>
    have hneg : NegationFree (clausesOf env p.activeRules) :=
      negationFree_clausesOf (hs.negation _ (.head _)) env
    have hbefore := (List.pairwise_cons.mp hs.order).1
    obtain ⟨x, hx⟩ := hrun delta p base
    constructor
    · intro s h
      obtain ⟨m, s', hm, hs', rfl⟩ := sweep_cons_ok h
      rw [hx] at hm
      obtain ⟨hquads, hcons⟩ : m.base.quads = closure (clausesOf env p.activeRules) base.quads
          base.quads ∧ Consistent env p.activeRules m.base.quads :=
        materialiseSeminaiveTracked_closure (p := p.withDerivedFrom x) hf hneg hm
      obtain ⟨hmodel, hcons'⟩ := (ih hs.tail).1 s' hs'
      have heq : s'.base.quads = strataModel env (activeStrata (p :: ps)) base.quads := by
        rw [hmodel, hquads]
        rfl
      refine ⟨heq, ?_⟩
      intro r hr sub hg hact
      rcases List.mem_append.mp (show r ∈ p.activeRules ++ (activeStrata ps).flatten from hr)
        with hr | hr
      · refine hcons r hr sub hg ?_
        have hact : r.ActiveIn sub s'.base.quads := hact
        rw [hmodel] at hact
        exact (activeIn_strataModel env hbefore hr sub _).mp hact
      · exact hcons' r hr sub hg hact
    · intro f s h
      rcases sweep_cons_error h with ⟨m, hm, -⟩ | ⟨m, s', hm, hs', -⟩
      · rw [hx] at hm
        obtain ⟨hfuel, r, hr, sub, hg, hnone, hpos, hno⟩ :=
          materialiseSeminaiveTracked_error hf hm
        refine ⟨hfuel, ?_⟩
        intro hcons
        have hst := hneg.closure_isStable base.quads
        have hact :
            r.ActiveIn sub (closure (clausesOf env p.activeRules) base.quads base.quads) := by
          refine ⟨hpos, ?_⟩
          intro b hb hcl
          rcases mem_closure_cases hcl with hE | ⟨_, ⟨producer, hp, sub', q, -, hh, rfl⟩, rfl⟩
          · exact hno b hb hE
          · exact hs.negation _ (.head _) r hr producer hp (feedsNegative_of_head hh hb)
        have hact' := (activeIn_strataModel env hbefore hr sub _).mpr hact
        have hsome := hcons r (List.mem_append_left _ hr) sub hg hact'
        rw [hnone] at hsome
        cases hsome
      · rw [hx] at hm
        obtain ⟨hquads, -⟩ : m.base.quads = closure (clausesOf env p.activeRules) base.quads
            base.quads ∧ Consistent env p.activeRules m.base.quads :=
          materialiseSeminaiveTracked_closure (p := p.withDerivedFrom x) hf hneg hm
        obtain ⟨hfuel, hcons⟩ := (ih hs.tail).2 f s' hs'
        refine ⟨hfuel, ?_⟩
        intro hc
        rw [hquads] at hcons
        exact hcons fun r hr => hc r (List.mem_append_right _ hr)

variable {ps : List (DatalogProgram Expr)} {base : QuadStore} (hs : OrderedStrata (activeStrata ps))
include hs

variable {s : Sweep Expr}

theorem materialiseAll_ok (h : materialiseAll env ps base = .ok s) :
    s.base.quads = strataModel env (activeStrata ps) base.quads ∧
      Consistent env (activeStrata ps).flatten s.base.quads :=
  (sweep_model hf (fun _ p _ => ⟨p.derivedFrom, rfl⟩) hs).1 s h

theorem materialiseAll_error {f : Fault Expr} (h : materialiseAll env ps base = .error (f, s)) :
    f ≠ .outOfFuel ∧
      ¬ Consistent env (activeStrata ps).flatten
        (strataModel env (activeStrata ps) base.quads) :=
  (sweep_model hf (fun _ p _ => ⟨p.derivedFrom, rfl⟩) hs).2 f s h

theorem materialiseReset_ok (h : materialiseReset env ps base = .ok s) :
    s.base.quads = strataModel env (activeStrata ps) base.quads ∧
      Consistent env (activeStrata ps).flatten s.base.quads :=
  (sweep_model hf (fun _ _ _ => ⟨.new, rfl⟩) hs).1 s h

end Spec

section Extensional

variable {env : ReasonerEnv Expr} (hf : env.FixedFilters)

theorem extensional_seeded (p : DatalogProgram Expr) (base : QuadStore) (facts : List Quad)
    (q : Quad) : (p.seeded base facts).base.Extensional q ↔
      base.Extensional q ∨ (q ∉ base ∧ q ∈ facts) := by
  have hmem := base.mem_foldl_addQuad facts q
  have hder := base.derived_foldl_addQuad facts q
  rw [DatalogProgram.seeded, QuadStore.Extensional, QuadStore.Extensional, hmem, hder]
  constructor
  · rintro ⟨hq, hd⟩
    by_cases hb : q ∈ base
    · exact .inl ⟨hb, hd⟩
    · exact .inr ⟨hb, hq.resolve_left hb⟩
  · rintro (⟨hb, hd⟩ | ⟨hb, hq⟩)
    · exact ⟨.inl hb, hd⟩
    · exact ⟨.inr hq, fun hd => hb hd.mem⟩

include hf

variable {base : QuadStore} {ps : List (DatalogProgram Expr)} {s : Sweep Expr}

theorem materialiseSeminaiveTracked_extensional {p : DatalogProgram Expr} {m : Materialisation}
    (h : p.materialiseSeminaiveTracked env base = .ok m) (q : Quad) :
    m.base.Extensional q ↔ base.Extensional q ∨ (q ∉ base ∧ q ∈ factHeads p.activeRules) := by
  obtain ⟨facts, hfacts, hR, -⟩ := materialiseSeminaiveTracked_ok hf h
  rw [hR.extensional q, extensional_seeded, (getFacts_ok hfacts).1 q]
  rfl

theorem sweep_extensional
    {materialise : List Quad → DatalogProgram Expr → QuadStore → Outcome Expr Materialisation}
    (hrun : ∀ delta p base, ∃ x, materialise delta p base = (p.withDerivedFrom
      x).materialiseSeminaiveTracked env base) {delta : List Quad}
    (h : sweep materialise delta ps base = .ok s) (q : Quad) :
    (base.Extensional q → s.base.Extensional q) ∧
      (s.base.Extensional q → base.Extensional q ∨ q ∈ factHeads (activeStrata ps).flatten) := by
  induction ps generalizing delta base s with
  | nil =>
    cases h
    exact ⟨id, .inl⟩
  | cons p ps ih =>
    obtain ⟨m, s', hm, hs', rfl⟩ := sweep_cons_ok h
    obtain ⟨x, hx⟩ := hrun delta p base
    rw [hx] at hm
    have hext := materialiseSeminaiveTracked_extensional hf hm q
    obtain ⟨hkeep, hback⟩ := ih hs'
    constructor
    · exact fun hq => hkeep (hext.mpr (.inl hq))
    · intro hq
      rcases hback hq with hq | ⟨r, hr, hb, hh⟩
      · rcases hext.mp hq with hq | ⟨-, r, hr, hb, hh⟩
        · exact .inl hq
        · exact .inr ⟨r, List.mem_append_left _ hr, hb, hh⟩
      · exact .inr ⟨r, List.mem_append_right _ hr, hb, hh⟩

theorem materialiseAll_extensional (h : materialiseAll env ps base = .ok s) (q : Quad) :
    (base.Extensional q → s.base.Extensional q) ∧
      (s.base.Extensional q → base.Extensional q ∨ q ∈ factHeads (activeStrata ps).flatten) :=
  sweep_extensional hf (fun _ p _ => ⟨p.derivedFrom, rfl⟩) h q

theorem materialiseReset_extensional (h : materialiseReset env ps base = .ok s) (q : Quad) :
    (base.Extensional q → s.base.Extensional q) ∧
      (s.base.Extensional q → base.Extensional q ∨ q ∈ factHeads (activeStrata ps).flatten) :=
  sweep_extensional hf (fun _ _ _ => ⟨.new, rfl⟩) h q

end Extensional

end RdfDatalog.Datalog
