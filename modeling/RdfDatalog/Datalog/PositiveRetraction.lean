import RdfDatalog.Datalog.InsertionRuns
import RdfDatalog.Datalog.PositiveRules
import RdfDatalog.Datalog.RuleDeletion

namespace RdfDatalog.Datalog

open GroundProgram FallibleFold RulePartitioner

variable {Expr : Type}

section Models

variable {env : ReasonerEnv Expr} {rules rules' : List (Rule Expr)} {M M' : Set Quad}

theorem ClosedUnder.of_subset (h : ClosedUnder env rules M) (hsub : ∀ r ∈ rules', r ∈ rules) :
    ClosedUnder env rules' M :=
  fun r hr => h r (hsub r hr)

theorem Consistent.of_positive (h : Consistent env rules M) (hsub : ∀ r ∈ rules', r ∈ rules)
    (hpositive : ∀ r ∈ rules, r.notPatterns = []) (hM : M' ⊆ M) : Consistent env rules' M' := by
  intro r hr sub hg hact
  refine h r (hsub r hr) sub hg ⟨hact.1.trans hM, ?_⟩
  intro b hb
  rw [blockers_of_positive hpositive (hsub r hr) sub] at hb
  exact hb.elim

theorem strataModel_subset_of_positive {strata : List (List (Rule Expr))}
    (hs : OrderedStrata strata) {E : Set Quad} (hE : E ⊆ M)
    (hM : ClosedUnder env strata.flatten M) : strataModel env strata E ⊆ M := by
  have hstable := hs.strataModel_isStable env E
  rw [hstable]
  refine closure_subset hE ?_
  intro c ⟨r, hr, sub, q, hg, hh, hc⟩ hpos _
  rw [hc] at hpos ⊢
  exact hM r hr sub q hg hpos hh

theorem closedUnder_of_isStable {E : Set Quad} (hpositive : ∀ r ∈ rules, r.notPatterns = [])
    (h : IsStable (clausesOf env rules) E M) : ClosedUnder env rules M :=
  (isLeast_of_isStable hpositive h).1.2

end Models

namespace IncrementalReasoner

variable {env : ReasonerEnv Expr} {m m' : IncrementalReasoner Expr} {R : List (Rule Expr)}

/-- Without negation and body-less rules, what is not suspect follows from the asserted quads by
the rules that stay. -/
theorem ruleKept_subset_of_positive [DecidableEq Expr]
    (hfacts : factHeads m.activeRules = ∅) (hm : Supported env m.asserted [] m) {X : Set Quad}
    (hE : ∀ q, m.base.Extensional q → q ∈ X)
    (hX : ClosedUnder env (m.activeRules.filter fun r => r ∉ R) X) : m.ruleKept R ⊆ X := by
  have hkept : ∀ q, Derives (recordedClauses env m.programs) {q | q ∈ m.base ∧ q ∉ ([] : List Quad)}
      m.asserted q → ¬ RuleSuspect m R q → q ∈ X := by
    intro q hq
    induction hq with
    | base ha =>
      rcases ha with hext | hfact
      · exact fun _ => hE _ hext
      · rw [show (activeStrata m.programs).flatten = m.activeRules from rfl, hfacts] at hfact
        exact hfact.elim
    | @fire c hc hpos _ ih =>
      intro hno
      obtain ⟨p, hp, id, r, sub, ws, henabled, hg, hh, hws, hrec, hclause⟩ := hc
      by_cases hext : m.base.Extensional c.head
      · exact hE _ hext
      have hkeep : r ∉ R := fun hR =>
        hno ⟨c.head, ⟨p, hp, id, r, ⟨id, ws⟩, henabled, hR, hrec, rfl⟩, hext, .refl⟩
      have hactive : r ∈ m.activeRules :=
        List.mem_flatMap.mpr ⟨p, hp, DatalogProgram.mem_activeRules.mpr ⟨id, henabled⟩⟩
      have hwitness : r.witnesses sub ⊆ X := by
        intro w hw
        have hmem : w ∈ c.pos := by
          rw [hclause]
          exact hw
        refine ih w hmem ?_
        -- a suspect witness would make the head suspect
        intro ⟨x, hx, hxe, hpath⟩
        have hsupport : Supports m.programs w c.head :=
          ⟨p, hp, ⟨id, ws⟩, hrec, (Rule.mem_bodyWitnesses hws w).mpr hw⟩
        exact hno ⟨x, hx, hxe, hpath.tail ⟨hsupport, hext⟩⟩
      refine hX r ?_ sub c.head hg hwitness hh
      exact List.mem_filter.mpr ⟨hactive, decide_eq_true hkeep⟩
  intro q hq
  rcases hq with ⟨_, hext⟩ | ⟨_, hmem, hno⟩
  · exact hE q hext
  · exact hkept q (hm.backed hmem) hno

section Deletion

variable [DecidableEq Expr] (hf : env.FixedFilters)
  (hpositive : ∀ r ∈ m.activeRules, r.notPatterns = [])
  (hclosed : ClosedUnder env m.activeRules m.base.quads)
  (hcons : Consistent env m.activeRules m.base.quads)
include hf hpositive hclosed hcons

omit [DecidableEq Expr] hf in
theorem consistent_strataModel {strata : List (List (Rule Expr))} {E : Set Quad}
    (hs : OrderedStrata strata) (hsub : ∀ r ∈ strata.flatten, r ∈ m.activeRules)
    (hE : E ⊆ m.base.quads) : Consistent env strata.flatten (strataModel env strata E) := by
  have hmodel : strataModel env strata E ⊆ m.base.quads :=
    strataModel_subset_of_positive hs hE (hclosed.of_subset hsub)
  exact hcons.of_positive hsub hpositive hmodel

theorem exists_applyRuleDeletions (hs : OrderedStrata (withoutRules (activeStrata m.programs) R)) :
    ∃ m' n, applyRuleDeletions env m R = .ok (m', n) := by
  have hactive := activeStrata_disableRules m.programs R
  have hsub : ∀ r ∈ (withoutRules (activeStrata m.programs) R).flatten, r ∈ m.activeRules := by
    intro r hr
    rw [withoutRules_flatten] at hr
    exact List.mem_of_mem_filter hr
  have hs' := hs
  rw [← hactive] at hs'
  rw [applyRuleDeletions]
  dsimp only
  split_ifs with hempty hnone hfall
  · exact ⟨_, _, rfl⟩
  · exact ⟨_, _, rfl⟩
  · rw [fullRematerialiseRules]
    dsimp only
    cases hrun : materialiseReset env (disableRules (deletionTargets m.programs R) m.programs)
        (assertedOnly m.base) with
    | ok s => exact ⟨_, _, rfl⟩
    | error e =>
      have hno := ((sweep_model hf (fun _ _ _ => ⟨.new, rfl⟩) hs').2 e.1 e.2 hrun).2
      rw [hactive] at hno
      refine absurd (consistent_strataModel hpositive hclosed hcons hs hsub ?_) hno
      exact fun q hq => ((extensional_assertedOnly m.base q).1.mp hq).1
  · rw [forwardPhaseRules]
    cases hrun : rederive env
        { m with programs := disableRules (deletionTargets m.programs R) m.programs }
        (env.quadOrder (backwardPhaseFromRuleRemoval m (deletionTargets m.programs R))) with
    | ok s => exact ⟨_, _, rfl⟩
    | error e =>
      rw [rederive] at hrun
      have hprograms := activeStrata_foldl_retract
        { m with programs := disableRules (deletionTargets m.programs R) m.programs }
        (env.quadOrder (backwardPhaseFromRuleRemoval m (deletionTargets m.programs R)))
      have hs'' := hs
      dsimp only at hprograms
      rw [← hactive, ← hprograms] at hs''
      have hno := (materialiseAll_error hf hs'' hrun).2
      rw [hprograms, hactive] at hno
      refine absurd (consistent_strataModel hpositive hclosed hcons hs hsub ?_) hno
      intro q hq
      exact ((mem_foldl_retract _ _ q).mp hq).1

end Deletion

section Retraction

variable [DecidableEq Expr] (hf : env.FixedFilters) {rules rest : List (Rule Expr)}
  {base : QuadStore}
include hf

/-- Retracting rules without negation from a new reasoner leaves what a new reasoner over the other
rules computes. -/
theorem applyRuleDeletions_of_positive (hpositive : ∀ r ∈ rules, r.notPatterns = [])
    (hfacts : factHeads rules = ∅) (hbase : ∀ q ∈ base, base.Extensional q)
    (hnew : new env rules base = .ok m) (hrest : ∀ r, r ∈ rest ↔ r ∈ rules ∧ r ∉ R) :
    ∃ m' n, applyRuleDeletions env m R = .ok (m', n) ∧
      ∃ fresh, new env rest base = .ok fresh ∧ fresh.base.quads = m'.base.quads := by
  obtain ⟨strata, horder, hs, -⟩ := exists_orderRules_of_positive hpositive
  have hmem := (orderRules_spec rules).2 strata horder
  obtain ⟨hactive, hquads, hcons, hext⟩ := new_ok hf horder hs hnew
  have hrules : m.activeRules = strata.flatten := congrArg List.flatten hactive
  have hpositive' : ∀ r ∈ m.activeRules, r.notPatterns = [] := by
    intro r hr
    rw [hrules, hmem] at hr
    exact hpositive r hr
  have hfacts' : factHeads m.activeRules = ∅ := by
    rw [Set.eq_empty_iff_forall_notMem]
    intro q ⟨r, hr, hb, hh⟩
    rw [hrules, hmem] at hr
    have hq : q ∈ factHeads rules := ⟨r, hr, hb, hh⟩
    rw [hfacts] at hq
    exact hq
  have hstable : IsStable (clausesOf env m.activeRules) base.quads m.base.quads := by
    rw [hrules, hquads]
    exact hs.strataModel_isStable env _
  have hclosed := closedUnder_of_isStable hpositive' hstable
  rw [← hrules] at hcons
  have hsR : OrderedStrata (withoutRules (activeStrata m.programs) R) := by
    rw [hactive]
    exact hs.withoutRules R
  obtain ⟨m', n, hok⟩ := exists_applyRuleDeletions hf hpositive' hclosed hcons hsR
  refine ⟨m', n, hok, ?_⟩
  obtain ⟨hactive', -, hquads', hcons', -⟩ := applyRuleDeletions_ok hf hstable hcons hsR hok
  have hkept : ∀ r, r ∈ (withoutRules (activeStrata m.programs) R).flatten ↔ r ∈ rest := by
    intro r
    rw [withoutRules_flatten, List.mem_filter, hrest, decide_eq_true_iff, hactive, hmem]
  have hpositiveRest : ∀ r ∈ rest, r.notPatterns = [] :=
    fun r hr => hpositive r ((hrest r).mp hr).1
  obtain ⟨strata', horder', hs', -⟩ := exists_orderRules_of_positive hpositiveRest
  have hmem' := (orderRules_spec rest).2 strata' horder'
  have hsame : ∀ T, strataModel env (withoutRules (activeStrata m.programs) R) T =
      strataModel env strata' T :=
    fun T => hsR.strataModel_congr hs' (fun r => (hkept r).trans (hmem' r).symm) env T
  obtain ⟨hsafe, -⟩ := new_eq_ok horder hnew
  have hsafe' : ∀ r ∈ strata'.flatten, isSafeRule r = .ok () := by
    intro r hr
    rw [hmem', hrest, ← hmem] at hr
    exact hsafe r hr.1
  have hcons'' : Consistent env strata'.flatten m'.base.quads := by
    intro r hr
    rw [hmem', ← hkept] at hr
    exact hcons' r hr
  have hbaseExt : ∀ q, m.base.Extensional q ↔ q ∈ base.quads := by
    intro q
    constructor
    · intro hq
      rcases (hext q).2 hq with h | ⟨r, hr, hb, hh⟩
      · exact h.1
      · rw [hmem] at hr
        have hfact : q ∈ factHeads rules := ⟨r, hr, hb, hh⟩
        rw [hfacts] at hfact
        exact hfact.elim
    · exact fun hq => (hext q).1 (hbase q hq)
  have hsup := new_supported hf horder hs ?_ hnew
  · refine (new_quads_eq_iff hf horder' hs' hsafe' hcons'').mpr ?_
    rw [hquads', ← hsame, hsR.strataModel_eq_iff env]
    constructor
    · refine ruleKept_subset_of_positive hfacts' hsup ?_ ?_
      · intro q hq
        exact subset_strataModel env _ _ ((hbaseExt q).mp hq)
      · have hst := hsR.strataModel_isStable env base.quads
        have hpos : ∀ r ∈ (withoutRules (activeStrata m.programs) R).flatten, r.notPatterns = [] :=
          fun r hr => hpositiveRest r ((hkept r).mp hr)
        refine (closedUnder_of_isStable hpos hst).of_subset fun r hr => ?_
        rw [withoutRules_flatten]
        exact hr
    · intro q hq
      exact subset_strataModel env _ _ (extensional_mem_ruleKept ((hbaseExt q).mpr hq))
  · intro q hq
    exact subset_strataModel env strata _ (hbase q hq)

end Retraction

end IncrementalReasoner

end RdfDatalog.Datalog
