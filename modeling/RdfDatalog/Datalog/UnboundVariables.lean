import RdfDatalog.Datalog.Deletion

namespace RdfDatalog.Datalog

open BucketIndex FallibleFold DatalogProgram

variable {Expr : Type}

namespace DatalogProgram

def pushRule (p : DatalogProgram Expr) (rule : Rule Expr) : DatalogProgram Expr :=
  let maps := rule.body.foldl (RuleMaps.indexAtom rule p.rules.length)
    ⟨p.ruleMap, p.negRuleMap, p.derivedFrom.negativelyTriggeringRules⟩
  { rules := p.rules ++ [rule]
    ruleMap := maps.ruleMap
    negRuleMap := maps.negRuleMap
    derivedFrom :=
      { p.derivedFrom with negativelyTriggeringRules := maps.negativelyTriggeringRules }
    disabledRules := p.disabledRules
    ruleMap_exact := by
      intro wc pr
      rw [show maps = _ from rfl, (RuleMaps.foldl_indexAtom rule p.rules.length rule.body _).1,
        p.ruleMap_exact]
      constructor
      · rintro (⟨hr, hrest⟩ | ⟨pattern, hpattern, rfl, rfl⟩)
        · refine ⟨?_, hrest⟩
          rw [List.getElem?_append_left (List.getElem?_eq_some_iff.mp hr).1, hr]
        · exact ⟨by simp, Rule.mem_positivePatterns.mpr hpattern, rfl⟩
      · intro ⟨hr, hpattern, hwc⟩
        by_cases hid : pr.ruleId < p.rules.length
        · rw [List.getElem?_append_left hid] at hr
          exact .inl ⟨hr, hpattern, hwc⟩
        · have hlast : pr.ruleId = p.rules.length := by
            have hlt := (List.getElem?_eq_some_iff.mp hr).1
            rw [List.length_append, List.length_singleton] at hlt
            omega
          obtain ⟨r, pattern, id⟩ := pr
          dsimp only at hlast hr hpattern hwc
          subst hlast
          rw [List.getElem?_concat_length, Option.some.injEq] at hr
          subst hr
          exact .inr ⟨pattern, Rule.mem_positivePatterns.mp hpattern, hwc, rfl⟩
    negRuleMap_exact := by
      intro wc id pattern
      rw [show maps = _ from rfl, (RuleMaps.foldl_indexAtom rule p.rules.length rule.body _).2.1,
        p.negRuleMap_exact]
      constructor
      · rintro (⟨r, hr, hrest⟩ | ⟨pattern', hpattern, rfl, heq⟩)
        · refine ⟨r, ?_, hrest⟩
          rw [List.getElem?_append_left (List.getElem?_eq_some_iff.mp hr).1, hr]
        · cases heq
          exact ⟨rule, by simp, Rule.mem_notPatterns.mpr hpattern, rfl⟩
      · intro ⟨r, hr, hpattern, hwc⟩
        by_cases hid : id < p.rules.length
        · rw [List.getElem?_append_left hid] at hr
          exact .inl ⟨r, hr, hpattern, hwc⟩
        · have hlast : id = p.rules.length := by
            have hlt := (List.getElem?_eq_some_iff.mp hr).1
            rw [List.length_append, List.length_singleton] at hlt
            omega
          subst hlast
          rw [List.getElem?_concat_length, Option.some.injEq] at hr
          subst hr
          exact .inr ⟨pattern, Rule.mem_notPatterns.mp hpattern, hwc, rfl⟩ }

def addRule (p : DatalogProgram Expr) (rule : Rule Expr) :
    Except (ReasoningError Expr) (DatalogProgram Expr) :=
  match isSafeRule rule with
  | .error e => .error e
  | .ok _ => .ok (p.pushRule rule)

end DatalogProgram

/-- A program made by `new` and `add_rule` from rules of `K`, after any materialisations and
changes of the enabled rules. -/
inductive Accepted (K : Set (Rule Expr)) : DatalogProgram Expr → Prop
  | new {rules : List (Rule Expr)} {p : DatalogProgram Expr} :
    (∀ r ∈ rules, r ∈ K) → DatalogProgram.new rules = .ok p → Accepted K p
  | addRule {r : Rule Expr} {p p' : DatalogProgram Expr} :
    Accepted K p → r ∈ K → p.addRule r = .ok p' → Accepted K p'
  | materialised {p : DatalogProgram Expr} (x : DerivedFromIndex) :
    Accepted K p → Accepted K (p.withDerivedFrom x)
  | disabled {p : DatalogProgram Expr} (id : Nat) : Accepted K p → Accepted K (p.disableRule id)
  | enabled {p : DatalogProgram Expr} (id : Nat) : Accepted K p → Accepted K (p.enableRule id)

theorem Accepted.rules {K : Set (Rule Expr)} {p : DatalogProgram Expr} (h : Accepted K p) :
    ∀ r ∈ p.rules, r ∈ K ∧ isSafeRule r = .ok () := by
  induction h with
  | new hK hnew =>
    obtain ⟨hsafe, rfl⟩ := new_eq_ok_iff.mp hnew
    exact fun r hr => ⟨hK r hr, hsafe r hr⟩
  | @addRule r p p' _ hK hadd ih =>
    rw [DatalogProgram.addRule] at hadd
    split at hadd
    · cases hadd
    · rename_i hsafe
      cases hadd
      intro r' hr'
      rcases List.mem_append.mp hr' with hr' | hr'
      · exact ih r' hr'
      · rw [List.mem_singleton.mp hr']
        exact ⟨hK, hsafe⟩
  | materialised x _ ih | disabled id _ ih | enabled id _ ih => exact ih

namespace Rule

/-- Every variable of the head stands in a positive atom of the body. -/
def Bound (r : Rule Expr) : Prop :=
  ∀ v ∈ r.head.getVariables, ∃ p ∈ r.positivePatterns, v ∈ p.getVariables

/-- `sub` binds the variables of the positive atoms so that the store satisfies the body. -/
structure MatchedBy (env : ReasonerEnv Expr) (r : Rule Expr) (rdf : QuadStore)
    (sub : Substitution) : Prop where
  positive : ∀ p ∈ r.positivePatterns, ∃ q ∈ rdf, applySubstitutionQuad sub p = some q
  unbound : ∀ v, (∀ p ∈ r.positivePatterns, v ∉ p.getVariables) → sub v = none
  guards : guardsHold env rdf r sub = true
  negated : ∀ p ∈ r.notPatterns, ∀ q ∈ rdf, ¬ Matches sub p q

/-- The rule has a positive atom, and some store satisfies its body. -/
def Satisfiable (env : ReasonerEnv Expr) (r : Rule Expr) : Prop :=
  r.positivePatterns ≠ [] ∧ ∃ rdf sub, r.MatchedBy env rdf sub

end Rule

section Variables

variable {env : ReasonerEnv Expr} {p : DatalogProgram Expr}

theorem Rule.MatchedBy.isSome_iff {r : Rule Expr} {rdf : QuadStore} {sub : Substitution}
    (h : r.MatchedBy env rdf sub) (v : String) :
    (sub v).isSome ↔ ∃ p ∈ r.positivePatterns, v ∈ p.getVariables := by
  constructor
  · intro hv
    by_contra hno
    push Not at hno
    rw [h.unbound v hno] at hv
    cases hv
  · intro ⟨p, hp, hv⟩
    obtain ⟨q, -, hq⟩ := h.positive p hp
    exact isSome_of_applySubstitutionQuad hq hv

theorem Rule.MatchedBy.bodyWitnesses {r : Rule Expr} {rdf : QuadStore} {sub : Substitution}
    (h : r.MatchedBy env rdf sub) : ∃ ws, r.bodyWitnesses sub = some ws := by
  have hall (ps : List QuadPattern)
      (hps : ∀ p ∈ ps, ∃ q ∈ rdf, applySubstitutionQuad sub p = some q) :
      ∃ ws, ps.mapM (applySubstitutionQuad sub) = some ws := by
    induction ps with
    | nil => exact ⟨[], rfl⟩
    | cons p ps ih =>
      obtain ⟨q, -, hq⟩ := hps p List.mem_cons_self
      obtain ⟨ws, hws⟩ := ih fun p' hp' => hps p' (List.mem_cons_of_mem p hp')
      exact ⟨q :: ws, by simp [List.mapM_cons, hq, hws]⟩
  exact hall r.positivePatterns h.positive

theorem matchedBy_of_mem_evaluate {fact : Quad} {ruleMatch : PartialRuleMatch Expr}
    (hm : ruleMatch ∈ p.getRulesForFact fact) {rdf : QuadStore} {sub : Substitution}
    (h : sub ∈ evaluate env rdf ruleMatch) : ruleMatch.partialRule.rule.MatchedBy env rdf sub := by
  obtain ⟨-, hpattern, hmatch⟩ := mem_getRulesForFact.mp hm
  obtain ⟨-, hpositive, hother, hguards, hnegated⟩ := mem_evaluate.mp h
  refine ⟨hpositive, fun v hv => ?_, hguards, hnegated⟩
  rw [hother v hv]
  exact (getSubstitutions_spec (mem_getMatchesForRule.mp hmatch).2).2.2 v (hv _ hpattern)

/-- A substitution that satisfies the body of an enabled rule is found from the quad that its
first positive atom denotes. -/
theorem exists_match {id : Nat} {r : Rule Expr} (henabled : p.Enabled id r) {rdf : QuadStore}
    {sub : Substitution} (h : r.MatchedBy env rdf sub) (hne : r.positivePatterns ≠ []) :
    ∃ fact ∈ rdf, ∃ ruleMatch ∈ p.getRulesForFact fact, ruleMatch.partialRule.rule = r ∧
      sub ∈ evaluate env rdf ruleMatch := by
  obtain ⟨pattern, hpattern⟩ := List.exists_mem_of_ne_nil _ hne
  obtain ⟨q, hq, hsub⟩ := h.positive pattern hpattern
  obtain ⟨s, hs, hext⟩ := exists_getSubstitutions (Substitution.ExtendedBy.empty sub) hsub
  refine ⟨q, hq, ⟨⟨r, pattern, id⟩, s⟩, ?_, rfl, ?_⟩
  · exact mem_getRulesForFact.mpr
      ⟨henabled, hpattern, mem_getMatchesForRule.mpr ⟨rfl, hs⟩⟩
  · refine mem_evaluate.mpr ⟨hext, h.positive, fun v hv => ?_, h.guards, h.negated⟩
    rw [h.unbound v hv]
    exact ((getSubstitutions_spec hs).2.2 v (hv pattern hpattern)).symm

end Variables

section Fires

variable {env : ReasonerEnv Expr} {p : DatalogProgram Expr} {m m' : Materialisation}

/-- The rules of a program whose bodies can be satisfied bind the variables of their heads. -/
def DatalogProgram.Bound (env : ReasonerEnv Expr) (p : DatalogProgram Expr) : Prop :=
  ∀ r ∈ p.rules, r.Satisfiable env → r.Bound

theorem applyRuleMatch_bound (hp : p.Bound env) {fact : Quad} {ruleMatch : PartialRuleMatch Expr}
    (hm : ruleMatch ∈ p.getRulesForFact fact) :
    applyRuleMatch env m ruleMatch ≠ .error (.unboundVariable, m') := by
  intro h
  obtain ⟨henabled, hpattern, -⟩ := mem_getRulesForFact.mp hm
  have hmem := List.mem_of_getElem? henabled.1
  cases hhead : ruleMatch.partialRule.rule.head with
  | contradiction =>
    rw [applyRuleMatch_of_contradiction hhead] at h
    split_ifs at h
    cases h
  | normalHead head =>
    rw [applyRuleMatch_of_normalHead hhead] at h
    obtain ⟨s, -, sub, hsub, hfail⟩ := foldlM_error (R := fun _ _ => True) (fun _ => trivial)
      (fun _ _ => trivial) (fun _ _ _ _ _ _ => trivial) h
    have hmatched := matchedBy_of_mem_evaluate hm hsub
    obtain ⟨ws, hws⟩ := hmatched.bodyWitnesses
    have hbound := hp _ hmem ⟨List.ne_nil_of_mem hpattern, m.base, sub, hmatched⟩
    have hall : ∀ v ∈ head.getVariables, (sub v).isSome := by
      intro v hv
      refine (hmatched.isSome_iff v).mpr (hbound v ?_)
      rw [hhead]
      exact hv
    obtain ⟨q, hq⟩ := Option.isSome_iff_exists.mp (applySubstitutionQuad_isSome_iff.mpr hall)
    rw [fireMatch, hq, hws] at hfail
    cases hfail

theorem materialiseDeltaIteration_bound (hp : p.Bound env) (delta : List Quad) :
    p.materialiseDeltaIteration env delta m ≠ .error (.unboundVariable, m') := by
  intro h
  obtain ⟨s, -, fact, -, hfact⟩ := foldlM_error (R := fun _ _ => True) (fun _ => trivial)
    (fun _ _ => trivial) (fun _ _ _ _ _ _ => trivial) h
  obtain ⟨s', -, ruleMatch, hm, hfail⟩ := foldlM_error (R := fun _ _ => True) (fun _ => trivial)
    (fun _ _ => trivial) (fun _ _ _ _ _ _ => trivial) hfact
  exact applyRuleMatch_bound hp hm hfail

theorem materialiseLoop_bound (hp : p.Bound env) (fuel start : Nat) :
    p.materialiseLoop env fuel start m ≠ .error (.unboundVariable, m') := by
  induction fuel generalizing start m with
  | zero =>
    intro h
    cases h
  | succ fuel ih =>
    rw [DatalogProgram.materialiseLoop]
    split_ifs
    · intro h
      cases h
    · intro h
      split at h
      · rename_i hiter
        cases h
        exact materialiseDeltaIteration_bound hp _ hiter
      · exact ih _ h

theorem mem_body_of_isSafeRule {r : Rule Expr} (h : isSafeRule r = .ok ()) {v : String}
    (hv : v ∈ r.head.getVariables) : v ∈ r.body.flatMap RuleAtom.getVariables := by
  unfold isSafeRule at h
  dsimp only at h
  split_ifs at h with hnil
  by_contra hno
  have hmem : v ∈ getUnsafeHeadVariables r := List.mem_filter.mpr ⟨hv, decide_eq_true hno⟩
  rw [List.isEmpty_iff.mp hnil] at hmem
  cases hmem

theorem getFacts_bound (hsafe : ∀ r ∈ p.rules, isSafeRule r = .ok ()) :
    p.getFacts ≠ .error .unboundVariable := by
  intro h
  obtain ⟨r, hr, hfact⟩ := exists_of_mapM_error h
  obtain ⟨hactive, hbody⟩ := mem_factRules.mp hr
  obtain ⟨id, henabled⟩ := mem_activeRules.mp hactive
  unfold DatalogProgram.factOfRule at hfact
  split at hfact
  · cases hfact
  · rename_i head hhead
    have hall : ∀ v ∈ head.getVariables, (emptySubstitution v).isSome := by
      intro v hv
      have hsafe := hsafe r (List.mem_of_getElem? henabled.1)
      have hmem : v ∈ r.head.getVariables := hhead ▸ hv
      have hvar := mem_body_of_isSafeRule hsafe hmem
      rw [hbody] at hvar
      cases hvar
    obtain ⟨q, hq⟩ := Option.isSome_iff_exists.mp (applySubstitutionQuad_isSome_iff.mpr hall)
    rw [hq] at hfact
    cases hfact

/-- No call of the materialisation, over any store and however it is seeded, meets an unbound
variable. -/
def DatalogProgram.NeverUnbound (env : ReasonerEnv Expr) (p : DatalogProgram Expr) : Prop :=
  (∀ base start m, p.materialiseSeminaiveTrackedFrom env base start ≠ .error
    (.unboundVariable, m)) ∧
    ∀ base delta m,
      p.materialiseSeminaiveTrackedFromFacts env base delta ≠ .error (.unboundVariable, m)

theorem DatalogProgram.Bound.neverUnbound (hp : p.Bound env)
    (hsafe : ∀ r ∈ p.rules, isSafeRule r = .ok ()) : p.NeverUnbound env := by
  refine ⟨?_, ?_⟩
  · intro base start m h
    rw [DatalogProgram.materialiseSeminaiveTrackedFrom] at h
    split at h
    · rename_i hfacts
      cases h
      exact getFacts_bound hsafe hfacts
    · exact materialiseLoop_bound hp _ _ h
  · intro base delta m h
    rw [DatalogProgram.materialiseSeminaiveTrackedFromFacts] at h
    split at h
    · rename_i hfacts
      cases h
      exact getFacts_bound hsafe hfacts
    · dsimp only at h
      split at h
      · rename_i hiter
        cases h
        exact materialiseDeltaIteration_bound hp _ hiter
      · exact materialiseLoop_bound hp _ _ h

end Fires

section Panic

variable {env : ReasonerEnv Expr} {r : Rule Expr}

theorem fireMatch_unbound (hr : ¬ r.Bound) {head : QuadPattern} (hhead : r.head = .normalHead head)
    {pattern : QuadPattern} {id : Nat} {rdf : QuadStore} {sub : Substitution}
    (h : r.MatchedBy env rdf sub) (m : Materialisation) :
    fireMatch ⟨r, pattern, id⟩ head m sub = .error (.unboundVariable, m) := by
  have hnone : applySubstitutionQuad sub head = none := by
    rw [← Option.not_isSome_iff_eq_none, applySubstitutionQuad_isSome_iff]
    intro hall
    refine hr fun v hv => (h.isSome_iff v).mp (hall v ?_)
    rw [hhead] at hv
    exact hv
  rw [fireMatch, hnone]

/-- A triggered rule whose head has a variable outside its positive atoms panics, unless nothing
matches its body. -/
theorem applyRuleMatch_unbound (hr : ¬ r.Bound) {p : DatalogProgram Expr} {fact : Quad}
    {ruleMatch : PartialRuleMatch Expr} (hm : ruleMatch ∈ p.getRulesForFact fact)
    (hrule : ruleMatch.partialRule.rule = r) (m : Materialisation) :
    (applyRuleMatch env m ruleMatch = .ok m ∧ evaluate env m.base ruleMatch = []) ∨
      applyRuleMatch env m ruleMatch = .error (.unboundVariable, m) := by
  have hmatched (sub : Substitution) (hsub : sub ∈ evaluate env m.base ruleMatch) :
      ruleMatch.partialRule.rule.MatchedBy env m.base sub := matchedBy_of_mem_evaluate hm hsub
  obtain ⟨⟨r', pattern, id⟩, start⟩ := ruleMatch
  dsimp only at hrule
  subst hrule
  cases hhead : r'.head with
  | contradiction =>
    refine absurd (fun v hv => ?_) hr
    rw [hhead] at hv
    cases hv
  | normalHead head =>
    rw [applyRuleMatch_of_normalHead hhead]
    cases heval : evaluate env m.base ⟨⟨r', pattern, id⟩, start⟩ with
    | nil => exact .inl ⟨rfl, rfl⟩
    | cons sub subs =>
      have hsub := hmatched sub (by rw [heval]; exact List.mem_cons_self)
      rw [List.foldlM_cons, fireMatch_unbound hr hhead hsub]
      exact .inr rfl

/-- The program of a single rule whose head has a variable outside its positive atoms panics on a
store that satisfies the body. -/
theorem materialise_unbound (hne : r.positivePatterns ≠ []) (hr : ¬ r.Bound) {rdf : QuadStore}
    {sub : Substitution} (h : r.MatchedBy env rdf sub) :
    ∃ m, (DatalogProgram.ofRules [r]).materialiseSeminaiveTrackedFrom env rdf 0 =
      .error (.unboundVariable, m) := by
  have henabled : (DatalogProgram.ofRules [r]).Enabled 0 r := ⟨rfl, Finset.notMem_empty 0⟩
  have hbody : r.body ≠ [] := by
    intro hnil
    rw [Rule.positivePatterns, hnil] at hne
    exact hne rfl
  have hfacts : (DatalogProgram.ofRules [r]).factRules = [] := by
    rw [List.eq_nil_iff_forall_not_mem]
    intro r' hr'
    obtain ⟨hactive, hnil⟩ := mem_factRules.mp hr'
    rw [activeRules_ofRules, List.mem_singleton] at hactive
    exact hbody (hactive ▸ hnil)
  obtain ⟨fact, hfact, ruleMatch, hm, -, hsub⟩ := exists_match henabled h hne
  have hcount : ¬ rdf.table.quadCount ≤ 0 := by
    have hpos : 0 < rdf.quadList.length := List.length_pos_of_mem hfact
    have hlength := QuadStore.quadCount_eq rdf
    omega
  have hstep (q : Quad) (_ : q ∈ (rdf.quadList.take rdf.table.quadCount).drop 0) :=
    foldlM_stationary (f := applyRuleMatch env)
      (P := fun rm => evaluate env rdf rm = [])
      (l := (DatalogProgram.ofRules [r]).getRulesForFact q)
      (s := ⟨rdf, (DatalogProgram.ofRules [r]).derivedFrom, []⟩) fun rm hrm => by
        refine applyRuleMatch_unbound hr hrm ?_ _
        have hrule := (mem_getRulesForFact.mp hrm).1.1
        exact List.mem_singleton.mp (List.mem_of_getElem? hrule)
  have hiter := foldlM_stationary (f := fun m q =>
    ((DatalogProgram.ofRules [r]).getRulesForFact q).foldlM (applyRuleMatch env) m) hstep
  rw [DatalogProgram.materialiseSeminaiveTrackedFrom, DatalogProgram.getFacts, hfacts]
  dsimp only [List.mapM_nil, pure, Except.pure, List.foldl_nil]
  rw [DatalogProgram.iterationBound, DatalogProgram.materialiseLoop]
  dsimp only
  rw [if_neg hcount, DatalogProgram.materialiseDeltaIteration]
  rcases hiter with ⟨-, hnone⟩ | hfail
  · have hmem : fact ∈ (rdf.quadList.take rdf.table.quadCount).drop 0 := by
      rw [List.drop_zero, QuadStore.quadCount_eq, List.take_length]
      exact hfact
    rw [hnone fact hmem ruleMatch hm] at hsub
    cases hsub
  · rw [hfail]
    exact ⟨_, rfl⟩

/-- Every program made from rules of `K` is free of the panic iff each rule of `K` that passes the
safety check has its head variables in positive atoms, or a body that no store satisfies. -/
theorem accepted_neverUnbound_iff (env : ReasonerEnv Expr) (K : Set (Rule Expr)) :
    (∀ p, Accepted K p → p.NeverUnbound env) ↔
      ∀ r ∈ K, isSafeRule r = .ok () → r.Bound ∨ ¬ r.Satisfiable env := by
  constructor
  · intro hall r hK hsafe
    by_contra hno
    rw [not_or, not_not] at hno
    obtain ⟨hr, hne, rdf, sub, h⟩ := hno
    obtain ⟨m, hm⟩ := materialise_unbound hne hr h
    have hnew : DatalogProgram.new [r] = .ok (.ofRules [r]) :=
      DatalogProgram.new_eq_ok_iff.mpr ⟨fun r' hr' => List.mem_singleton.mp hr' ▸ hsafe, rfl⟩
    exact (hall _ (.new (fun r' hr' => List.mem_singleton.mp hr' ▸ hK) hnew)).1 rdf 0 m hm
  · intro hK p hp
    have hrules := hp.rules
    refine DatalogProgram.Bound.neverUnbound (fun r hr hsat => ?_) fun r hr => (hrules r hr).2
    exact (hK r (hrules r hr).1 (hrules r hr).2).resolve_right fun hno => hno hsat

end Panic

section Example

open IncrementalReasoner

/-- The rule `4(?y) :- 1(?x), NOT 2(?y)`. -/
def negatedHeadRule : Rule Empty :=
  let pattern (v : String) (predicate : GraphElementId) : QuadPattern :=
    ⟨.resource 0, .var v, .resource predicate, .resource 0⟩
  ⟨.normalHead (pattern "y" 4), [.positivePattern (pattern "x" 1), .notPattern (pattern "y" 2)]⟩

/-- A rule that passes the safety check panics: its head variable stands in a negated atom only. -/
theorem new_accepts_unbound : ∃ p m, DatalogProgram.new [negatedHeadRule] = .ok p ∧
    p.materialiseSeminaiveTracked .plain (storeOf [unaryQuad 1 0]) =
      .error (.unboundVariable, m) := by
  have hsafe : isSafeRule negatedHeadRule = .ok () := by decide
  obtain ⟨e, h, hfault⟩ :
    ∃ e, (DatalogProgram.ofRules [negatedHeadRule]).materialiseSeminaiveTracked
      .plain (storeOf [unaryQuad 1 0]) = .error e ∧ e.1 = .unboundVariable := by decide
  have hall (r : Rule Empty) (hr : r ∈ [negatedHeadRule]) : isSafeRule r = .ok () := by
    rw [List.mem_singleton.mp hr]
    exact hsafe
  have hnew := DatalogProgram.new_eq_ok_iff.mpr ⟨hall, rfl⟩
  exact ⟨_, e.2, hnew, by rw [h, ← hfault]⟩

end Example

end RdfDatalog.Datalog
