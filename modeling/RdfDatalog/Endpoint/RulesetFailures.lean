import RdfDatalog.Datalog.RuleStatus
import RdfDatalog.Endpoint.Generation

namespace RdfDatalog.Endpoint

open Datalog Datalog.IncrementalReasoner FallibleFold GroundProgram

variable {Expr : Type}

/-- The same quads, with the same ones asserted. -/
def SameQuads (base base' : QuadStore) : Prop :=
  ∀ q, (q ∈ base ↔ q ∈ base') ∧ (base.Extensional q ↔ base'.Extensional q)

/-- The same quads and flags, the same rules in force and the same rulesets on record. -/
structure DatasetEntry.Same (entry entry' : DatasetEntry Expr) : Prop where
  quads : SameQuads entry.namedGraphs entry'.namedGraphs
  activeRules : entry.activeRules = entry'.activeRules
  rulesets : entry.rulesets = entry'.rulesets

theorem activeRules_eq_of_strata {m m' : IncrementalReasoner Expr}
    (h : activeStrata m'.programs = activeStrata m.programs) : m'.activeRules = m.activeRules := by
  have hflat (m : IncrementalReasoner Expr) : m.activeRules =
      (activeStrata m.programs).flatten := by
    rw [activeRules, activeStrata, List.flatMap_def]
  rw [hflat, hflat, h]

theorem sameQuads_assertedOnly_iff {base base' : QuadStore}
    (hext : ∀ q, base'.Extensional q ↔ base.Extensional q) :
    SameQuads (assertedOnly base') base ↔ ∀ q, ¬ base.Derived q := by
  constructor
  · intro h q hd
    have hq := ((h q).1.mpr hd.mem)
    rw [(extensional_assertedOnly base' q).1, hext] at hq
    exact hq.2 hd
  · intro h q
    rw [(extensional_assertedOnly base' q).1, (extensional_assertedOnly base' q).2, hext]
    exact ⟨⟨fun hq => hq.1, fun hq => ⟨hq, h q⟩⟩, Iff.rfl⟩

variable [DecidableEq Expr] {env : ReasonerEnv Expr} {entry entry' : DatasetEntry Expr}
  {combined : List (Rule Expr)} {f : Fault Expr}

/-- The programs of a ruleset, or why it is rejected before anything is derived. -/
def rulesetPrograms (rules : List (Rule Expr)) : Except (Fault Expr) (List (DatalogProgram Expr)) :=
  match (RulePartitioner.new rules).orderRules with
  | .error f => .error f
  | .ok strata =>
    match strata.mapM DatalogProgram.new with
    | .error e => .error (.reasoning e)
    | .ok programs => .ok programs

theorem fullRebuild_eq (env : ReasonerEnv Expr) (base : QuadStore) (rules : List (Rule Expr)) :
    fullRebuild env base rules = match rulesetPrograms rules with
      | .error f => .error (f, assertedOnly base)
      | .ok programs => match materialiseAll env programs (assertedOnly base) with
        | .error (f, s) => .error (f, s.base)
        | .ok s => .ok ⟨s.programs, s.base⟩ := by
  rw [fullRebuild, IncrementalReasoner.new, rulesetPrograms]
  cases (RulePartitioner.new rules).orderRules with
  | error f => rfl
  | ok strata =>
    dsimp only
    cases strata.mapM DatalogProgram.new with
    | error e => rfl
    | ok programs => rfl

/-- The rules in force that the new ruleset does not hold. -/
def rulesToRetract (programs : List (DatalogProgram Expr)) (combined : List (Rule Expr)) :
    List (Rule Expr) :=
  (diffRulesets (programs.flatMap DatalogProgram.activeRules) combined).2

/-- No rule in force is missing from the new ruleset, or retracting those that are already fails. -/
def RetractsNothing (env : ReasonerEnv Expr) (entry : DatasetEntry Expr)
    (combined : List (Rule Expr)) : Prop :=
  ∀ programs, entry.reasoner = some programs →
    rulesToRetract programs combined = [] ∨
      ∃ e, applyRuleDeletions env ⟨programs, entry.namedGraphs⟩
        (rulesToRetract programs combined) = .error e

/-- The quads left by the attempt on the live reasoner. -/
def attemptedBase (env : ReasonerEnv Expr) (entry : DatasetEntry Expr)
    (combined : List (Rule Expr)) : QuadStore :=
  match entry.reasoner with
  | none => entry.namedGraphs
  | some programs =>
    let (added, removed) := diffRulesets (programs.flatMap DatalogProgram.activeRules) combined
    (reached (applyRulesetDelta env ⟨programs, entry.namedGraphs⟩ added removed)).base

/-- The strata add nothing to the quads of `A`, up to the first one that has a contradiction in
them. -/
def QuietUntilClash (env : ReasonerEnv Expr) : List (List (Rule Expr)) → Set Quad → Prop
  | [], _ => True
  | rules :: strata, A =>
    (∀ c ∈ clausesOf env rules, c.Active A → c.head ∈ A) ∧
      (Consistent env rules A → QuietUntilClash env strata A)

/-- The new ruleset holds every rule in force, nothing derived is stored, and the rules are rejected
up front or have nothing to derive before a contradiction. -/
structure NothingAtStake (env : ReasonerEnv Expr) (entry : DatasetEntry Expr)
    (combined : List (Rule Expr)) : Prop where
  kept : ∀ r ∈ entry.activeRules, r ∈ combined
  underived : ∀ q, ¬ entry.namedGraphs.Derived q
  quiet : ∀ programs, rulesetPrograms combined = .ok programs →
    QuietUntilClash env (activeStrata programs) {q | entry.namedGraphs.Extensional q}

section Rebuild

variable {base : QuadStore}

omit [DecidableEq Expr] in
theorem sameQuads_of_closed {rules : List (Rule Expr)} {base' : QuadStore}
    (h : Appends env rules base.quads base base')
    (hclosed : ∀ c ∈ clausesOf env rules, c.Active base.quads → c.head ∈ base.quads) :
    SameQuads base' base := by
  have hsub : base'.quads ⊆ base.quads :=
    h.follows.trans (closure_subset Set.Subset.rfl fun c hc hpos hneg => hclosed c hc ⟨hpos, hneg⟩)
  refine fun q => ⟨⟨fun hq => hsub hq, h.stored⟩, fun hq => ?_, h.keeps⟩
  exact (h.status q (hsub hq.1)).mp hq

theorem SameQuads.trans {base' base'' : QuadStore} (h : SameQuads base base')
    (h' : SameQuads base' base'') : SameQuads base base'' :=
  fun q => ⟨(h q).1.trans (h' q).1, (h q).2.trans (h' q).2⟩

omit [DecidableEq Expr] in
theorem sweep_error_quiet (hf : env.FixedFilters) {programs : List (DatalogProgram Expr)}
    {delta : List Quad} {s : Sweep Expr}
    (hquiet : QuietUntilClash env (activeStrata programs) base.quads)
    (h : sweep (fun _ p base => p.materialiseSeminaiveTracked env base) delta programs base =
      .error (f, s)) : SameQuads s.base base := by
  induction programs generalizing delta base s with
  | nil => cases h
  | cons p programs ih =>
    obtain ⟨hclosed, hlater⟩ := hquiet
    have happends : Appends env p.activeRules base.quads base
        (reached (p.materialiseSeminaiveTracked env base)).base :=
      materialiseSeminaiveTracked_appends hf Set.Subset.rfl
    rcases sweep_cons_error h with ⟨m, hm, rfl⟩ | ⟨m, s', hm, hs, rfl⟩
    · rw [hm] at happends
      exact sameQuads_of_closed happends hclosed
    · rw [hm] at happends
      have hfirst := sameQuads_of_closed happends hclosed
      have hquads : m.base.quads = base.quads := Set.ext fun q => (hfirst q).1
      have hcons := DatalogProgram.materialiseSeminaiveTracked_consistent hf hm
      rw [hquads] at hcons
      have hrest := hlater hcons
      rw [← hquads] at hrest
      exact (ih hrest hs).trans hfirst

end Rebuild

section Attempt

variable {m m' : IncrementalReasoner Expr} {added removed : List (Rule Expr)}

theorem applyRulesetDelta_error (h : applyRulesetDelta env m added removed = .error (f, m')) :
    (removed ≠ [] ∧ applyRuleDeletions env m removed = .error (f, m')) ∨
      ∃ m₁, (removed = [] ∧ m₁ = m ∨
          removed ≠ [] ∧ ∃ n, applyRuleDeletions env m removed = .ok (m₁, n)) ∧
        applyRuleInsertions env m₁ added = .error (f, m') := by
  unfold applyRulesetDelta at h
  split at h
  · next e hdel =>
    cases h
    split_ifs at hdel with hremoved
    exact .inl ⟨fun hnil => hremoved (List.isEmpty_iff.mpr hnil), hdel⟩
  · next m₁ n hdel =>
    split at h
    · next e hins =>
      cases h
      split_ifs at hins
      refine .inr ⟨m₁, ?_, hins⟩
      split_ifs at hdel with hremoved
      · cases hdel
        exact .inl ⟨List.isEmpty_iff.mp hremoved, rfl⟩
      · exact .inr ⟨fun hnil => hremoved (List.isEmpty_iff.mpr hnil), n, hdel⟩
    · cases h

/-- An attempt that fails while nothing is retracted leaves the rules in force and the asserted
quads. -/
theorem applyRulesetDelta_error_keeps
    (hkeep : removed = [] ∨ ∃ e, applyRuleDeletions env m removed = .error e)
    (h : applyRulesetDelta env m added removed = .error (f, m')) :
    activeStrata m'.programs = activeStrata m.programs ∧
      ∀ q, m'.base.Extensional q ↔ m.base.Extensional q := by
  rcases applyRulesetDelta_error h with ⟨_, hdel⟩ | ⟨m₁, hfirst, hins⟩
  · exact ⟨applyRuleDeletions_error hdel, applyRuleDeletions_error_extensional hdel⟩
  · rcases hfirst with ⟨_, rfl⟩ | ⟨hremoved, n, hdel⟩
    · exact ⟨applyRuleInsertions_error hins, applyRuleInsertions_error_extensional hins⟩
    · obtain ⟨e, he⟩ := hkeep.resolve_left hremoved
      rw [hdel] at he
      cases he

theorem applyRulesetDelta_error_retracts (hremoved : removed ≠ [])
    (hkeep : ¬ ∃ e, applyRuleDeletions env m removed = .error e)
    (h : applyRulesetDelta env m added removed = .error (f, m')) :
    activeStrata m'.programs = withoutRules (activeStrata m.programs) removed := by
  rcases applyRulesetDelta_error h with ⟨_, hdel⟩ | ⟨m₁, hfirst, hins⟩
  · exact absurd ⟨_, hdel⟩ hkeep
  · rcases hfirst with ⟨hnil, _⟩ | ⟨_, n, hdel⟩
    · exact absurd hnil hremoved
    · exact (applyRuleInsertions_error hins).trans (applyRuleDeletions_strata hdel)

theorem applyRulesetDiff_error {m' : IncrementalReasoner Expr}
    (h : applyRulesetDiff env m combined = .error (f, m')) :
    ∃ f₁ base, applyRulesetDelta env m (diffRulesets m.activeRules combined).1
        (diffRulesets m.activeRules combined).2 = .error (f₁, ⟨m'.programs, base⟩) ∧
      fullRebuild env base combined = .error (f, m'.base) := by
  rw [applyRulesetDiff] at h
  dsimp only at h
  split_ifs at h
  cases hdelta : applyRulesetDelta env m (diffRulesets m.activeRules combined).1
      (diffRulesets m.activeRules combined).2 with
  | ok m₁ =>
    rw [hdelta] at h
    cases h
  | error e =>
    obtain ⟨f₁, m₁⟩ := e
    rw [hdelta] at h
    dsimp only at h
    cases hre : fullRebuild env m₁.base combined with
    | ok m₂ =>
      rw [hre] at h
      cases h
    | error e =>
      rw [hre] at h
      cases h
      exact ⟨f₁, m₁.base, rfl, hre⟩

theorem activeRules_ne_of_retracted {r : Rule Expr} (hr : r ∈ m.activeRules) (hmem : r ∈ removed)
    (h : activeStrata m'.programs = withoutRules (activeStrata m.programs) removed) :
    m'.activeRules ≠ m.activeRules := by
  intro heq
  rw [← heq, activeRules, List.flatMap_def, ← activeStrata, h, withoutRules_flatten,
    List.mem_filter, decide_eq_true_eq] at hr
  exact hr.2 hmem

end Attempt

theorem NothingAtStake.retractsNothing (h : NothingAtStake env entry combined) :
    RetractsNothing env entry combined := by
  intro programs hprograms
  refine .inl (List.filter_eq_nil_iff.mpr fun r hr => ?_)
  have hactive : r ∈ entry.activeRules := by
    rw [DatasetEntry.activeRules, hprograms]
    exact hr
  simpa using h.kept r hactive

/-- What a rejected ruleset leaves: the quads of the failed rebuild, and the rules in force if
nothing was retracted. -/
structure Rejected (env : ReasonerEnv Expr) (entry entry' : DatasetEntry Expr)
    (combined : List (Rule Expr)) (f : Fault Expr) : Prop where
  rulesets : entry'.rulesets = entry.rulesets
  rebuild : fullRebuild env (attemptedBase env entry combined) combined =
    .error (f, entry'.namedGraphs)
  activeRules : entry'.activeRules = entry.activeRules ↔ RetractsNothing env entry combined
  asserted : RetractsNothing env entry combined → ∀ q,
    (attemptedBase env entry combined).Extensional q ↔ entry.namedGraphs.Extensional q

theorem applyCombinedRuleset_error
    (h : applyCombinedRuleset env entry combined = .error (f, entry')) :
    Rejected env entry entry' combined f := by
  obtain ⟨base, reasoner, rulesets⟩ := entry
  rw [applyCombinedRuleset] at h
  split_ifs at h with hempty
  cases reasoner with
  | none =>
    dsimp only at h
    cases hre : fullRebuild env base combined with
    | ok m =>
      rw [hre] at h
      cases h
    | error e =>
      rw [hre] at h
      cases h
      refine ⟨rfl, hre, iff_of_true rfl ?_, fun _ _ => Iff.rfl⟩
      intro programs hprograms
      cases hprograms
  | some programs =>
    dsimp only at h
    cases hdiff : applyRulesetDiff env ⟨programs, base⟩ combined with
    | ok result =>
      rw [hdiff] at h
      cases h
    | error e =>
      rw [hdiff] at h
      cases h
      obtain ⟨f₁, base₁, hdelta, hre⟩ := applyRulesetDiff_error hdiff
      have hattempted : attemptedBase env ⟨base, some programs, rulesets⟩ combined = base₁ := by
        rw [attemptedBase]
        exact congrArg (fun x => (reached x).base) hdelta
      have hremoved (r : Rule Expr) (hr : r ∈ rulesToRetract programs combined) :
          r ∈ (⟨programs, base⟩ : IncrementalReasoner Expr).activeRules := List.mem_of_mem_filter hr
      refine ⟨rfl, hattempted ▸ hre, ⟨fun hactive => ?_, fun hkeep => ?_⟩, fun hkeep => ?_⟩
      · intro programs' hprograms
        cases hprograms
        by_contra hno
        obtain ⟨hnil, hok⟩ := not_or.mp hno
        obtain ⟨r, hr⟩ := List.exists_mem_of_ne_nil _ hnil
        exact activeRules_ne_of_retracted (hremoved r hr) hr
          (applyRulesetDelta_error_retracts hnil hok hdelta) hactive
      · exact activeRules_eq_of_strata
          (applyRulesetDelta_error_keeps (hkeep programs rfl) hdelta).1
      · rw [hattempted]
        exact (applyRulesetDelta_error_keeps (hkeep programs rfl) hdelta).2

section Sample

/-- A dataset with one quad, before any rule is loaded. -/
def plainEntry : DatasetEntry Empty := ⟨storeOf [unaryQuad 1 0], none, ∅⟩

/-- `3` depends on its own negation. -/
def notStratifiable : List (Rule Empty) := [unaryRule 2 [1] [], unaryRule 3 [1] [3]]

/-- A rule that finds nothing, and one whose body is a contradiction. -/
def clashing : List (Rule Empty) :=
  [unaryRule 2 [3] [], ⟨.contradiction, [.positivePattern (unaryPattern 1)]⟩]

/-- Neither rule derives anything from the one stored quad. -/
theorem clashing_quiet (A : Set Quad) (hA : ∀ q ∈ A, q = unaryQuad 1 0) :
    QuietUntilClash .plain [clashing] A := by
  refine ⟨fun c hc hactive => ?_, fun _ => trivial⟩
  obtain ⟨r, hr, sub, h, hg, hhead, rfl⟩ := hc
  simp only [clashing, List.mem_cons, List.not_mem_nil, or_false] at hr
  rcases hr with rfl | rfl
  · obtain ⟨w, hw⟩ :=
      hg.exists_witness (p := unaryPattern 3) (by simp [unaryRule, Rule.positivePatterns])
    have hstored := hactive.1 ⟨_, by simp [unaryRule, Rule.positivePatterns], hw⟩
    rw [hA w hstored] at hw
    simp [applySubstitutionQuad, unaryPattern, unaryQuad, applySubstitutionResource,
      Option.bind_eq_some_iff] at hw
  · cases hhead

end Sample

end RdfDatalog.Endpoint

namespace RdfDatalog.Endpoint

open Datalog Datalog.IncrementalReasoner

variable {N : NativeTypes} {Expr : Type}

variable [DecidableEq Expr] {env : ReasonerEnv Expr} {combined : List (Rule Expr)}

variable (env) in
/-- Retracting rules and inserting rules asserts nothing but heads of body-less rules of
`combined`, which holds every rule that is then in force. -/
theorem applyRulesetDelta_status {m : IncrementalReasoner Expr} {added removed : List (Rule Expr)}
    (hstays : ∀ r ∈ m.activeRules, r ∉ removed → r ∈ combined) (hadded : ∀ r ∈ added, r ∈ combined)
    (q : Quad) :
    let base := match applyRulesetDelta env m added removed with
      | .error (_, m') => m'.base
      | .ok m' => m'.base
    (m.base.Extensional q → base.Extensional q) ∧
      (base.Extensional q → m.base.Extensional q ∨ q ∈ factHeads combined) := by
  have hfirst {m₁ : IncrementalReasoner Expr}
      (h : removed = [] ∧ m₁ = m ∨
        removed ≠ [] ∧ ∃ n, applyRuleDeletions env m removed = .ok (m₁, n)) :
      ((m.base.Extensional q → m₁.base.Extensional q) ∧
        (m₁.base.Extensional q → m.base.Extensional q ∨ q ∈ factHeads combined)) ∧
        ∀ r ∈ m₁.activeRules, r ∈ combined := by
    rcases h with ⟨rfl, rfl⟩ | ⟨-, n, hrun⟩
    · exact ⟨⟨id, .inl⟩, fun r hr => hstays r hr List.not_mem_nil⟩
    · obtain ⟨hkeep, hadd⟩ := applyRuleDeletions_status hrun q
      have hactive : m₁.activeRules = m.activeRules.filter fun r => r ∉ removed :=
        (congrArg List.flatten (applyRuleDeletions_strata hrun)).trans (withoutRules_flatten _ _)
      have hin : ∀ r ∈ m.activeRules.filter (fun r => r ∉ removed), r ∈ combined := by
        intro r hr
        obtain ⟨hr, hno⟩ := List.mem_filter.mp hr
        exact hstays r hr (of_decide_eq_true hno)
      refine ⟨⟨hkeep, fun hq => (hadd hq).imp_right ?_⟩, ?_⟩
      · rintro ⟨r, hr, hb, hh⟩
        exact ⟨r, hin r hr, hb, hh⟩
      · rw [hactive]
        exact hin
  cases hrun : applyRulesetDelta env m added removed with
  | error e =>
    obtain ⟨f, m'⟩ := e
    rcases applyRulesetDelta_error hrun with ⟨-, hdel⟩ | ⟨m₁, hpath, hins⟩
    · have hsame := applyRuleDeletions_error_extensional hdel q
      exact ⟨hsame.mpr, fun hq => .inl (hsame.mp hq)⟩
    · obtain ⟨⟨hkeep, hadd⟩, -⟩ := hfirst hpath
      have hsame := applyRuleInsertions_error_extensional hins q
      exact ⟨fun hq => hsame.mpr (hkeep hq), fun hq => hadd (hsame.mp hq)⟩
  | ok m' =>
    unfold applyRulesetDelta at hrun
    split at hrun
    · cases hrun
    · next m₁ n hdel =>
      have hpath : removed = [] ∧ m₁ = m ∨
          removed ≠ [] ∧ ∃ n, applyRuleDeletions env m removed = .ok (m₁, n) := by
        split_ifs at hdel with hremoved
        · cases hdel
          exact .inl ⟨List.isEmpty_iff.mp hremoved, rfl⟩
        · exact .inr ⟨fun hnil => hremoved (List.isEmpty_iff.mpr hnil), n, hdel⟩
      obtain ⟨⟨hkeep, hadd⟩, hactive⟩ := hfirst hpath
      have hstep : StatusStep combined m₁.base m'.base := by
        split at hrun
        · cases hrun
        · next result hins =>
          cases hrun
          split_ifs at hins with hempty
          · cases hins
            exact ⟨fun _ hq => hq, fun _ hq => hq, fun _ hq => .inl hq⟩
          · refine (applyRuleInsertions_status hins).mono fun r hr => ?_
            exact (List.mem_append.mp hr).elim (hactive r) (hadded r)
      exact ⟨fun hq => hstep.keeps q (hkeep hq), fun hq => (hstep.adds q hq).elim hadd .inr⟩

theorem applyRulesetDiff_status {m m' : IncrementalReasoner Expr} {rebuilt : Bool}
    (h : applyRulesetDiff env m combined = .ok (m', rebuilt)) (q : Quad) :
    (m.base.Extensional q → m'.base.Extensional q) ∧
      (m'.base.Extensional q → m.base.Extensional q ∨ q ∈ factHeads combined) := by
  have hstays : ∀ r ∈ m.activeRules, r ∉ (diffRulesets m.activeRules combined).2 →
      r ∈ combined := by
    intro r hr hno
    by_contra hout
    exact hno (List.mem_filter.mpr ⟨hr, decide_eq_true hout⟩)
  have hadded : ∀ r ∈ (diffRulesets m.activeRules combined).1, r ∈ combined :=
    fun r hr => (List.mem_filter.mp hr).1
  have hdelta := applyRulesetDelta_status env hstays hadded q
  rw [applyRulesetDiff] at h
  dsimp only at h
  split_ifs at h
  · cases h
    exact ⟨id, .inl⟩
  · cases hrun : applyRulesetDelta env m (diffRulesets m.activeRules combined).1
        (diffRulesets m.activeRules combined).2 with
    | ok m₁ =>
      rw [hrun] at h hdelta
      cases h
      exact hdelta
    | error e =>
      rw [hrun] at h hdelta
      dsimp only at h hdelta
      split at h
      · cases h
      · next m₁ hre =>
        cases h
        obtain ⟨hkeep, hadd⟩ := (new_status hre).of_assertedOnly q
        exact ⟨fun hq => hkeep (hdelta.1 hq), fun hq => (hadd hq).elim hdelta.2 .inr⟩

theorem applyCombinedRuleset_status {entry entry' : DatasetEntry Expr}
    (h : applyCombinedRuleset env entry combined = .ok entry') (q : Quad) :
    (entry.namedGraphs.Extensional q → entry'.namedGraphs.Extensional q) ∧
      (entry'.namedGraphs.Extensional q →
        entry.namedGraphs.Extensional q ∨ q ∈ factHeads combined) := by
  rw [applyCombinedRuleset] at h
  split_ifs at h
  · cases h
    have hbase := (extensional_assertedOnly entry.namedGraphs q).2
    exact ⟨hbase.mpr, fun hq => .inl (hbase.mp hq)⟩
  · split at h
    · split at h
      · cases h
      · next m _ hrun =>
        cases h
        exact applyRulesetDiff_status hrun q
    · split at h
      · cases h
      · next m hrun =>
        cases h
        exact (new_status hrun).of_assertedOnly q

end RdfDatalog.Endpoint
