import RdfDatalog.Datalog.Strata
import RdfDatalog.Datalog.StratifierCoverage

namespace RdfDatalog.Datalog

open GroundProgram FallibleFold DatalogProgram

variable {Expr : Type}

/-- Compile and materialise the partitions in order; on a fault, the store as it was left. -/
def evaluatePartitions (env : ReasonerEnv Expr) :
    List (List (Rule Expr)) → QuadStore → Except (Fault Expr × QuadStore) QuadStore
  | [], datastore => .ok datastore
  | partition :: rest, datastore =>
    match DatalogProgram.new partition with
    | .error e => .error (.reasoning e, datastore)
    | .ok program =>
      match program.materialiseSeminaiveTracked env datastore with
      | .error (f, m) => .error (f, m.base)
      | .ok m => evaluatePartitions env rest m.base

def evaluateRules [DecidableEq Expr] (env : ReasonerEnv Expr) (rules : List (Rule Expr))
    (datastore : QuadStore) : Except (Fault Expr × QuadStore) QuadStore :=
  match (RulePartitioner.new rules).orderRules with
  | .error f => .error (f, datastore)
  | .ok stratification => evaluatePartitions env stratification datastore

@[simp] theorem DatalogProgram.activeRules_ofRules (rules : List (Rule Expr)) :
    (DatalogProgram.ofRules rules).activeRules = rules := by
  have hall : rules.zipIdx.filter (fun e => decide (e.2 ∉ (∅ : Finset Nat))) = rules.zipIdx := by
    simp
  rw [activeRules]
  exact (congrArg (List.map Prod.fst) hall).trans (List.zipIdx_map_fst 0 rules)

/-- Every head variable stands in a positive atom, no rule is a contradiction, and a non-empty
body has a positive atom. -/
structure WellFormedRule (r : Rule Expr) : Prop where
  body : r.body ≠ [] → r.positivePatterns ≠ []
  head : ∃ h, r.head = .normalHead h ∧
    ∀ v ∈ h.getVariables, ∃ p ∈ r.positivePatterns, v ∈ p.getVariables

namespace WellFormedRule

variable {r : Rule Expr}

theorem isSafeRule (h : WellFormedRule r) : isSafeRule r = .ok () := by
  obtain ⟨head, hh, hvars⟩ := h.head
  have hnil : getUnsafeHeadVariables r = [] := by
    rw [getUnsafeHeadVariables, List.filter_eq_nil_iff, hh]
    intro v hv hno
    obtain ⟨p, hp, hvp⟩ := hvars v hv
    have hmem : v ∈ r.body.flatMap RuleAtom.getVariables :=
      List.mem_flatMap.mpr ⟨.positivePattern p, Rule.mem_positivePatterns.mp hp, hvp⟩
    exact of_decide_eq_true hno hmem
  simp [Datalog.isSafeRule, hnil]

theorem headQuad_isSome (h : WellFormedRule r) {env : ReasonerEnv Expr} {sub : Substitution}
    (hg : r.Grounds env sub) : (r.headQuad sub).isSome := by
  obtain ⟨head, hh, hvars⟩ := h.head
  simp only [Rule.headQuad, hh]
  exact applySubstitutionQuad_isSome_iff.mpr fun v hv => (hg.dom v).mpr (hvars v hv)

end WellFormedRule

variable {rules : List (Rule Expr)} {strata : List (List (Rule Expr))}

theorem consistent_of_wellFormed (h : ∀ r ∈ rules, WellFormedRule r) (env : ReasonerEnv Expr)
    (M : Set Quad) : Consistent env rules M :=
  fun r hr _ hg _ => (h r hr).headQuad_isSome hg

theorem DatalogProgram.new_eq_ok_iff {p : DatalogProgram Expr} :
    DatalogProgram.new rules = .ok p ↔
      (∀ r ∈ rules, isSafeRule r = .ok ()) ∧ p = DatalogProgram.ofRules rules := by
  have hforM : ∀ rules : List (Rule Expr), rules.forM isSafeRule = .ok ⟨⟩ ↔
      ∀ r ∈ rules, isSafeRule r = .ok () := by
    intro rules
    induction rules with
    | nil => simp [pure, Except.pure]
    | cons r rules ih =>
      change (isSafeRule r >>= fun _ => rules.forM isSafeRule) = .ok ⟨⟩ ↔ _
      rw [List.forall_mem_cons]
      cases hr : isSafeRule r with
      | error e => exact ⟨nofun, (fun h => by cases h.1)⟩
      | ok _ => exact ih.trans ⟨fun h => ⟨rfl, h⟩, And.right⟩
  rw [new]
  cases hall : rules.forM isSafeRule with
  | error e =>
    constructor
    · intro h
      cases h
    · intro h
      rw [(hforM rules).mpr h.1] at hall
      cases hall
  | ok _ => exact ⟨fun h => ⟨(hforM rules).mp hall, (Except.ok.inj h).symm⟩, fun h => h.2 ▸ rfl⟩

theorem mapM_new_eq_ok_iff {programs : List (DatalogProgram Expr)} :
    strata.mapM DatalogProgram.new = .ok programs ↔
      (∀ r ∈ strata.flatten, isSafeRule r = .ok ()) ∧
        programs = strata.map DatalogProgram.ofRules := by
  rw [mapM_eq_ok_iff]
  induction strata generalizing programs with
  | nil => simp
  | cons rules strata ih =>
    rw [List.forall₂_cons_left_iff]
    constructor
    · rintro ⟨p, ps, hp, hps, rfl⟩
      obtain ⟨hsafe, rfl⟩ := new_eq_ok_iff.mp hp
      obtain ⟨hsafe', rfl⟩ := ih.mp hps
      exact ⟨fun r hr => (List.mem_append.mp hr).elim (hsafe r) (hsafe' r), rfl⟩
    · rintro ⟨hsafe, rfl⟩
      exact ⟨_, _, new_eq_ok_iff.mpr
        ⟨fun r hr => hsafe r (List.mem_append_left _ hr), rfl⟩,
        ih.mpr ⟨fun r hr => hsafe r (List.mem_append_right _ hr), rfl⟩, rfl⟩

theorem evaluatePartitions_eq (h : ∀ r ∈ strata.flatten, isSafeRule r = .ok ())
    (env : ReasonerEnv Expr) (datastore : QuadStore) : evaluatePartitions env strata datastore =
      match materialiseAll env (strata.map DatalogProgram.ofRules) datastore with
      | .error (f, s) => .error (f, s.base)
      | .ok s => .ok s.base := by
  have hdelta : ∀ delta, evaluatePartitions env strata datastore =
      match sweep (fun _ p base => p.materialiseSeminaiveTracked env base) delta
        (strata.map DatalogProgram.ofRules) datastore with
      | .error (f, s) => .error (f, s.base)
      | .ok s => .ok s.base := by
    induction strata generalizing datastore with
    | nil => intro delta; rfl
    | cons rules strata ih =>
      intro delta
      have hnew := new_eq_ok_iff.mpr
        ⟨fun r hr => h r (List.mem_append_left _ hr), rfl⟩
      rw [evaluatePartitions, hnew, List.map_cons, sweep]
      dsimp only
      cases hm : (DatalogProgram.ofRules rules).materialiseSeminaiveTracked env datastore with
      | error e => rfl
      | ok m =>
        dsimp only
        rw [ih (fun r hr => h r (List.mem_append_right _ hr)) m.base
          (delta ++ m.track.map Prod.fst)]
        cases sweep (fun _ p base => p.materialiseSeminaiveTracked env base)
          (delta ++ m.track.map Prod.fst) (strata.map DatalogProgram.ofRules) m.base <;> rfl
  exact hdelta []

theorem activeStrata_ofRules (strata : List (List (Rule Expr))) :
    activeStrata (strata.map DatalogProgram.ofRules) = strata := by
  rw [activeStrata, List.map_map]
  exact (List.map_congr_left fun rules _ => activeRules_ofRules rules).trans
    (List.map_id strata)

/-- Batch evaluation succeeds with the perfect model, the only stable model of the rules, when the
stratifier's order respects the dependencies. -/
theorem evaluateRules_perfect [DecidableEq Expr] {env : ReasonerEnv Expr}
    (hf : env.FixedFilters) {rules : List (Rule Expr)} {strata : List (List (Rule Expr))}
    (horder : (RulePartitioner.new rules).orderRules = .ok strata) (hs : OrderedStrata strata)
    (hrules : ∀ r ∈ rules, WellFormedRule r) (datastore : QuadStore) :
    ∃ result, evaluateRules env rules datastore = .ok result ∧
      result.quads = strataModel env strata datastore.quads ∧
      IsStable (clausesOf env rules) datastore.quads result.quads ∧
      ∀ M, IsStable (clausesOf env rules) datastore.quads M → M = result.quads := by
  have hmem := (RulePartitioner.orderRules_spec rules).2 strata horder
  have hclauses : clausesOf env rules = clausesOf env strata.flatten := by
    ext c
    simp only [clausesOf, hmem]
  have hwf : ∀ r ∈ strata.flatten, WellFormedRule r := fun r hr => hrules r ((hmem r).mp hr)
  have heval := evaluatePartitions_eq (fun r hr => (hwf r hr).isSafeRule) env datastore
  have hactive := activeStrata_ofRules strata
  have hs' : OrderedStrata (activeStrata (strata.map DatalogProgram.ofRules)) := by
    rw [hactive]
    exact hs
  rw [evaluateRules, horder]
  dsimp only
  rw [heval]
  cases hrun : materialiseAll env (strata.map DatalogProgram.ofRules) datastore with
  | error e =>
    have hcons := consistent_of_wellFormed hwf env (strataModel env strata datastore.quads)
    have hno := (materialiseAll_error hf hs' hrun).2
    rw [hactive] at hno
    exact absurd hcons hno
  | ok s =>
    have hquads := (materialiseAll_ok hf hs' hrun).1
    rw [hactive] at hquads
    refine ⟨s.base, rfl, hquads, ?_, ?_⟩
    · rw [hclauses, hquads]
      exact hs.strataModel_isStable env _
    · intro M hM
      rw [hclauses] at hM
      rw [hquads]
      exact (hs.isStable_iff env).mp hM

section Unary

/-- No guards, and sets that keep the order they are built in. -/
def ReasonerEnv.plain : ReasonerEnv Empty :=
  ⟨fun _ _ _ => true, id, fun _ => .refl _, id, fun _ => .refl _⟩

theorem ReasonerEnv.plain_fixedFilters : ReasonerEnv.plain.FixedFilters := fun _ _ _ => rfl

def unaryPattern (predicate : GraphElementId) : QuadPattern :=
  ⟨.resource 0, .var "x", .resource predicate, .resource 0⟩

def unaryQuad (predicate subject : GraphElementId) : Quad := ⟨0, subject, predicate, 0⟩

/-- The rule `head(?x) :- pos(?x), …, NOT neg(?x), …`. -/
def unaryRule (head : GraphElementId) (pos neg : List GraphElementId) : Rule Empty :=
  ⟨.normalHead (unaryPattern head), pos.map (fun p => .positivePattern (unaryPattern p)) ++
    neg.map (fun p => .notPattern (unaryPattern p))⟩

theorem unaryRule_wellFormed (head p : GraphElementId) (pos neg : List GraphElementId) :
    WellFormedRule (unaryRule head (p :: pos) neg) := by
  have hp : unaryPattern p ∈ (unaryRule head (p :: pos) neg).positivePatterns := by
    simp [unaryRule]
  refine ⟨fun _ => List.ne_nil_of_mem hp, unaryPattern head, rfl, ?_⟩
  intro v hv
  have hvp : v ∈ (unaryPattern p).getVariables := hv
  exact ⟨_, hp, hvp⟩

theorem evaluateRules_perfect_ordered :
    ∃ result, evaluateRules .plain [unaryRule 4 [2] [3], unaryRule 3 [1] []]
        (QuadStore.new.addQuad (unaryQuad 2 10)) = .ok result ∧
      result.quads = strataModel .plain [[unaryRule 3 [1] []], [unaryRule 4 [2] [3]]]
        (QuadStore.new.addQuad (unaryQuad 2 10)).quads ∧
      IsStable (clausesOf .plain [unaryRule 4 [2] [3], unaryRule 3 [1] []])
        (QuadStore.new.addQuad (unaryQuad 2 10)).quads result.quads ∧
      ∀ M, IsStable (clausesOf .plain [unaryRule 4 [2] [3], unaryRule 3 [1] []])
        (QuadStore.new.addQuad (unaryQuad 2 10)).quads M → M = result.quads := by
  refine evaluateRules_perfect ReasonerEnv.plain_fixedFilters (by decide)
    (.of_clash (by decide)) ?_ _
  intro r hr
  simp only [List.mem_cons, List.not_mem_nil, or_false] at hr
  rcases hr with rfl | rfl <;> exact unaryRule_wellFormed _ _ _ _

/-- Rules `1` and `2` feed each other, rule `2` also needs `3`, and `3` needs `2`; the first cycle
found is released before the second. -/
def misordered : List (Rule Empty) :=
  [unaryRule 1 [2] [], unaryRule 2 [1] [], unaryRule 2 [3] [], unaryRule 3 [2] [],
    unaryRule 5 [6] [7]]

theorem evaluateRules_misordered :
    (∃ strata, (RulePartitioner.new misordered).orderRules = .ok strata) ∧
      (∀ r ∈ misordered, WellFormedRule r) ∧ OrderedStrata [misordered] ∧
      ∃ result, evaluateRules .plain misordered (QuadStore.new.addQuad (unaryQuad 3 10)) =
          .ok result ∧
        result.quads ≠ strataModel .plain [misordered]
          (QuadStore.new.addQuad (unaryQuad 3 10)).quads := by
  have hs : OrderedStrata [misordered] := .of_clash (by decide)
  obtain ⟨result, h, htwo, hone⟩ : ∃ result,
      evaluateRules .plain misordered (QuadStore.new.addQuad (unaryQuad 3 10)) = .ok result ∧
        unaryQuad 2 10 ∈ result ∧ unaryQuad 1 10 ∉ result := by decide
  have horder : ((RulePartitioner.new misordered).orderRules).toBool = true := by decide
  refine ⟨exists_ok_of_toBool horder, ?_, hs, result, h, ?_⟩
  · intro r hr
    simp only [misordered, List.mem_cons, List.not_mem_nil, or_false] at hr
    rcases hr with rfl | rfl | rfl | rfl | rfl <;> exact unaryRule_wellFormed _ _ _ _
  · intro hmodel
    have hstable := hs.strataModel_isStable .plain (QuadStore.new.addQuad (unaryQuad 3 10)).quads
    rw [← hmodel] at hstable
    -- the rule `1(?x) :- 2(?x)` still holds at `10`
    let sub : Substitution := Function.update emptySubstitution "x" (some 10)
    have hg : (unaryRule 1 [2] []).Grounds .plain sub := by
      refine ⟨.inl (by decide), ?_, rfl⟩
      intro v
      by_cases hv : v = "x" <;>
        simp [sub, hv, unaryRule, unaryPattern, emptySubstitution, Rule.positivePatterns,
          QuadPattern.getVariables, Term.getVariables]
    have hact : (unaryRule 1 [2] []).ActiveIn sub result.quads := by
      constructor
      · rintro q ⟨p, hp, hq⟩
        have hpat : p = unaryPattern 2 := by simpa [unaryRule] using hp
        rw [hpat] at hq
        obtain rfl : unaryQuad 2 10 = q := Option.some.inj hq
        exact htwo
      · rintro b ⟨p, hp, _⟩
        simp [unaryRule] at hp
    have hmem : unaryRule 1 [2] [] ∈ [misordered].flatten := by simp [misordered]
    exact hone (head_mem_of_stable hstable hmem hg (h := unaryQuad 1 10) rfl hact)

end Unary

end RdfDatalog.Datalog
