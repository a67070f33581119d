import RdfDatalog.Datalog.Deletion

namespace RdfDatalog.Datalog

open FallibleFold

variable {Expr : Type}

namespace Materialisation

/-- `m` after some derivations, in order. -/
def deriveAll (m : Materialisation) (entries : List (Quad × Derivation)) : Materialisation :=
  entries.foldl (fun m e => m.derive e.1 e.2) m

theorem deriveAll_append (m : Materialisation) (es es' : List (Quad × Derivation)) :
    m.deriveAll (es ++ es') = (m.deriveAll es).deriveAll es' := List.foldl_append

/-- `m'` comes from `m` by derivations alone. -/
def Derives (m m' : Materialisation) : Prop := ∃ entries, m' = m.deriveAll entries

theorem Derives.refl (m : Materialisation) : m.Derives m := ⟨[], rfl⟩

theorem Derives.trans {m m' m'' : Materialisation} (h : m.Derives m') (h' : m'.Derives m'') :
    m.Derives m'' := by
  obtain ⟨es, rfl⟩ := h
  obtain ⟨es', rfl⟩ := h'
  exact ⟨es ++ es', (m.deriveAll_append es es').symm⟩

end Materialisation

section Stratum

open Materialisation

variable (env : ReasonerEnv Expr) (p : DatalogProgram Expr)

theorem applyRuleMatch_derives (m : Materialisation) (ruleMatch : PartialRuleMatch Expr) :
    m.Derives (reached (applyRuleMatch env m ruleMatch)) := by
  cases hhead : ruleMatch.partialRule.rule.head with
  | contradiction =>
    rw [applyRuleMatch_of_contradiction hhead]
    split_ifs
    · exact .refl m
    · exact .refl m
  | normalHead head =>
    rw [applyRuleMatch_of_normalHead hhead]
    refine foldlM_reached (I := m.Derives) ?_ (.refl m)
    intro s sub _ hs
    rw [fireMatch]
    split
    · exact hs.trans ⟨[(_, _)], rfl⟩
    · exact hs

theorem materialiseDeltaIteration_derives (delta : List Quad) (m : Materialisation) :
    m.Derives (reached (p.materialiseDeltaIteration env delta m)) := by
  refine foldlM_reached (I := m.Derives) ?_ (.refl m)
  intro s q _ hs
  refine foldlM_reached (I := m.Derives) ?_ hs
  exact fun s ruleMatch _ hs => hs.trans (applyRuleMatch_derives env s ruleMatch)

theorem materialiseLoop_derives (fuel start : Nat) (m : Materialisation) :
    m.Derives (reached (p.materialiseLoop env fuel start m)) :=
  materialiseLoop_reached (I := m.Derives)
    (fun delta m' h => h.trans (materialiseDeltaIteration_derives env p delta m')) fuel start
      (.refl m)

/-- `m` comes from `base` and the index `x` by asserting quads and then deriving. -/
def RunFrom (base : QuadStore) (x : DerivedFromIndex) (m : Materialisation) : Prop :=
  ∃ added : List Quad, Materialisation.Derives ⟨added.foldl QuadStore.addQuad base, x, []⟩ m

theorem materialiseSeminaiveTracked_runFrom (base : QuadStore) :
    RunFrom base p.derivedFrom (reached (p.materialiseSeminaiveTracked env base)) := by
  rw [DatalogProgram.materialiseSeminaiveTracked, DatalogProgram.materialiseSeminaiveTrackedFrom]
  split
  · exact ⟨[], .refl _⟩
  · rename_i facts _
    exact ⟨facts, materialiseLoop_derives env p _ 0 _⟩

theorem materialiseSeminaiveTrackedFromFacts_runFrom (base : QuadStore) (delta : List Quad) :
    RunFrom base p.derivedFrom
      (reached (p.materialiseSeminaiveTrackedFromFacts env base delta)) := by
  rw [DatalogProgram.materialiseSeminaiveTrackedFromFacts]
  split
  · exact ⟨[], .refl _⟩
  · rename_i facts _
    refine ⟨facts ++ delta, ?_⟩
    rw [List.foldl_append]
    have hiter := materialiseDeltaIteration_derives env p delta (p.fedWith base facts delta)
    rw [DatalogProgram.fedWith] at hiter
    dsimp only
    cases h : p.materialiseDeltaIteration env delta
        ⟨delta.foldl QuadStore.addQuad (facts.foldl QuadStore.addQuad base), p.derivedFrom, []⟩ with
    | error e =>
      rw [h] at hiter
      exact hiter
    | ok m₁ =>
      rw [h] at hiter
      exact hiter.trans (materialiseLoop_derives env p _ _ m₁)

end Stratum

/-- What a pass over the strata leaves, whether it succeeds or not: the strata before some place ran
one after the other, each as `Ran` says, and the rest is as it was. -/
inductive PassRun (Ran : DatalogProgram Expr → QuadStore → Materialisation → Prop) :
    List (DatalogProgram Expr) → QuadStore → Sweep Expr → Prop
  | start (ps : List (DatalogProgram Expr)) (base : QuadStore) : PassRun Ran ps base ⟨ps, base, []⟩
  | cons {p : DatalogProgram Expr} {ps : List (DatalogProgram Expr)} {base : QuadStore}
      {m : Materialisation} {s : Sweep Expr} :
    Ran p base m → PassRun Ran ps m.base s → PassRun Ran (p :: ps) base (s.cons p m)

section Pass

variable {Ran : DatalogProgram Expr → QuadStore → Materialisation → Prop}
  {materialise : List Quad → DatalogProgram Expr → QuadStore → Outcome Expr Materialisation}

theorem sweep_passRun_of_inv {I : List Quad → QuadStore → Prop}
    (hmat : ∀ delta p base, I delta base → Ran p base (reached (materialise delta p base)))
    (hI : ∀ delta p base m, I delta base → materialise delta p base = .ok m →
      I (delta ++ m.track.map Prod.fst) m.base)
    {delta : List Quad} (ps : List (DatalogProgram Expr)) {base : QuadStore} (h : I delta base) :
    PassRun Ran ps base (reached (sweep materialise delta ps base)) := by
  induction ps generalizing delta base with
  | nil => exact .start [] base
  | cons p ps ih =>
    have hran := hmat delta p base h
    rw [sweep]
    cases hm : materialise delta p base with
    | error e =>
      rw [hm] at hran
      exact .cons hran (.start ps e.2.base)
    | ok m =>
      rw [hm] at hran
      have hrest := ih (hI delta p base m h hm)
      dsimp only
      cases hs : sweep materialise (delta ++ m.track.map Prod.fst) ps m.base with
      | error | ok =>
        rw [hs] at hrest
        exact .cons hran hrest

theorem sweep_passRun (hmat : ∀ delta p base, Ran p base (reached (materialise delta p base)))
    (delta : List Quad) (ps : List (DatalogProgram Expr)) (base : QuadStore) :
    PassRun Ran ps base (reached (sweep materialise delta ps base)) :=
  sweep_passRun_of_inv (I := fun _ _ => True) (fun delta p base _ => hmat delta p base)
    (fun _ _ _ _ _ _ => trivial) ps trivial

theorem PassRun.programs {ps : List (DatalogProgram Expr)} {base : QuadStore} {s : Sweep Expr}
    (h : PassRun Ran ps base s) :
    List.Forall₂ (fun p p' => ∃ x, p' = p.withDerivedFrom x) ps s.programs := by
  induction h with
  | start ps base => exact List.forall₂_same.mpr fun p _ => ⟨p.derivedFrom, rfl⟩
  | cons _ _ ih => exact .cons ⟨_, rfl⟩ ih

end Pass

section Runs

variable (env : ReasonerEnv Expr)

/-- A pass whose strata start from their recorded derivations. -/
abbrev RunsOn : List (DatalogProgram Expr) → QuadStore → Sweep Expr → Prop :=
  PassRun fun p base => RunFrom base p.derivedFrom

theorem materialiseAll_runsOn (ps : List (DatalogProgram Expr)) (base : QuadStore) :
    RunsOn ps base (reached (materialiseAll env ps base)) :=
  sweep_passRun (fun _ p base => materialiseSeminaiveTracked_runFrom env p base) [] ps base

theorem materialiseForward_runsOn (delta : List Quad) (ps : List (DatalogProgram Expr))
    (base : QuadStore) : RunsOn ps base (reached (materialiseForward env delta ps base)) :=
  sweep_passRun (fun delta p base => materialiseSeminaiveTrackedFromFacts_runFrom env p base delta)
    delta ps base

namespace IncrementalReasoner

theorem feedForward_runsOn (delta : List Quad) (later : List (DatalogProgram Expr))
    (base : QuadStore) : RunsOn later base (reached (feedForward env delta later base)) := by
  refine sweep_passRun (fun delta p base => ?_) delta later base
  split_ifs
  · exact ⟨[], .refl _⟩
  · exact materialiseSeminaiveTrackedFromFacts_runFrom env p base delta

/-- The state once a rule is enabled, before its stratum runs. -/
def RuleInsertion.enabled (st : RuleInsertion Expr) (t : Nat × Nat) : RuleInsertion Expr :=
  { st with
    programs := st.programs.modify t.1 fun p => p.enableRule t.2
    reactivated := st.reactivated ++ [t] }

theorem reactivateRule_runsOn (st : RuleInsertion Expr) (t : Nat × Nat) :
    ∃ s, RunsOn ((st.enabled t).programs.drop t.1) st.base s ∧
      reached (reactivateRule env st t) = (st.enabled t).resume t.1 s := by
  rw [reactivateRule, RuleInsertion.enabled]
  dsimp only
  generalize (st.programs.modify t.1 fun p => p.enableRule t.2) = ps
  cases hdrop : ps.drop t.1 with
  | nil =>
    refine ⟨⟨[], st.base, []⟩, .start [] st.base, ?_⟩
    have htake : ps.take t.1 = ps := List.take_of_length_le (List.drop_eq_nil_iff.mp hdrop)
    simp [RuleInsertion.resume, htake]
  | cons p later =>
    have hfirst := materialiseSeminaiveTracked_runFrom env p st.base
    dsimp only
    cases hm : p.materialiseSeminaiveTracked env st.base with
    | error e =>
      rw [hm] at hfirst
      exact ⟨_, .cons hfirst (.start later e.2.base), rfl⟩
    | ok m =>
      rw [hm] at hfirst
      have hrest := feedForward_runsOn env (m.track.map Prod.fst) later m.base
      dsimp only
      cases hs : feedForward env (m.track.map Prod.fst) later m.base with
      | error | ok =>
        rw [hs] at hrest
        exact ⟨_, .cons hfirst hrest, rfl⟩

/-- What enabling a rule and running a pass from its stratum keeps is kept by the insertion, up to
the pass over the fresh strata. -/
theorem insertRules_runsOn {I : RuleInsertion Expr → Prop} {targets : List (Nat × Nat)}
    (hstep : ∀ st, ∀ t ∈ targets, ∀ s, I st →
      RunsOn ((st.enabled t).programs.drop t.1) st.base s → I ((st.enabled t).resume t.1 s))
    {st : RuleInsertion Expr} (h : I st) (fresh : List (DatalogProgram Expr)) :
    I (reached (insertRules env st targets fresh)) ∨ ∃ st' s, I st' ∧ RunsOn fresh st'.base s ∧
      reached (insertRules env st targets fresh) = st'.resume st'.programs.length s := by
  have hreact := foldlM_reached (f := reactivateRule env) (l := targets) (I := I)
    (fun st t ht hst => by
      obtain ⟨s, hs, heq⟩ := reactivateRule_runsOn env st t
      exact heq ▸ hstep st t ht s hst hs) h
  rw [insertRules]
  cases hfold : targets.foldlM (reactivateRule env) st with
  | error e =>
    rw [hfold] at hreact
    exact .inl hreact
  | ok st' =>
    rw [hfold] at hreact
    have hrest := materialiseAll_runsOn env fresh st'.base
    dsimp only
    cases hs : materialiseAll env fresh st'.base with
    | error e =>
      rw [hs] at hrest
      exact .inr ⟨st', e.2, hreact, hrest, rfl⟩
    | ok s =>
      rw [hs] at hrest
      exact .inr ⟨st', s, hreact, hrest, rfl⟩

end IncrementalReasoner

end Runs

end RdfDatalog.Datalog
