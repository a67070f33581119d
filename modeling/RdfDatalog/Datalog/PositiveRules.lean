import RdfDatalog.Datalog.Batch

namespace RdfDatalog.Datalog

open GroundProgram

variable {Expr : Type}

/-- Whatever a rule derives from quads of `M` is in `M`; the guards decide which instances count. -/
def ClosedUnder (env : ReasonerEnv Expr) (rules : List (Rule Expr)) (M : Set Quad) : Prop :=
  ∀ r ∈ rules, ∀ sub h, r.Grounds env sub → r.witnesses sub ⊆ M → r.headQuad sub = some h → h ∈ M

section Positive

variable {env : ReasonerEnv Expr} {rules : List (Rule Expr)}
  (hpositive : ∀ r ∈ rules, r.notPatterns = [])
include hpositive

theorem blockers_of_positive {r : Rule Expr} (hr : r ∈ rules) (sub : Substitution) :
    r.blockers sub = ∅ := by
  ext b
  have hnone := hpositive r hr
  constructor
  · intro ⟨p, hp, _⟩
    rw [hnone] at hp
    cases hp
  · exact fun hb => hb.elim

theorem orderedStrata_of_positive : OrderedStrata [rules] := by
  constructor
  · intro rs hrs r hr producer _ ⟨_, _, p, hp, _⟩
    rw [List.mem_singleton.mp hrs] at hr
    rw [hpositive r hr] at hp
    cases hp
  · exact List.pairwise_singleton _ _

theorem isLeast_of_isStable {E M : Set Quad} (h : IsStable (clausesOf env rules) E M) :
    IsLeast {M | E ⊆ M ∧ ClosedUnder env rules M} M := by
  constructor
  · refine ⟨h.facts_subset, ?_⟩
    intro r hr sub q hg hw hh
    refine head_mem_of_stable h hr hg hh ⟨hw, ?_⟩
    intro b hb
    rw [blockers_of_positive hpositive hr sub] at hb
    exact hb.elim
  · intro X ⟨hE, hclosed⟩
    rw [h]
    refine closure_subset hE ?_
    intro c ⟨r, hr, sub, q, hg, hh, hc⟩ hpos _
    rw [hc] at hpos ⊢
    exact hclosed r hr sub q hg hpos hh

variable [DecidableEq Expr]

theorem RulePartitioner.orderRules_of_positive : (RulePartitioner.new rules).orderRules =
    .ok (if rules.eraseDups.isEmpty then [] else [rules.eraseDups]) := by
  have hany : rules.eraseDups.any hasNotPattern = false := by
    rw [List.any_eq_false]
    intro r hr
    simp [hasNotPattern, hpositive r (List.mem_eraseDups.mp hr)]
  simp only [RulePartitioner.new, hany, Bool.false_eq_true, if_false, orderRules, if_true]

theorem RulePartitioner.exists_orderRules_of_positive : ∃ strata,
    (RulePartitioner.new rules).orderRules = .ok strata ∧ OrderedStrata strata ∧
      (strata = [] ∧ rules = [] ∨ strata = [rules.eraseDups]) := by
  have hdedup : ∀ r ∈ rules.eraseDups, r.notPatterns = [] :=
    fun r hr => hpositive r (List.mem_eraseDups.mp hr)
  refine ⟨_, orderRules_of_positive hpositive, ?_⟩
  by_cases hempty : rules.eraseDups.isEmpty = true
  · rw [if_pos hempty]
    refine ⟨⟨nofun, .nil⟩, .inl ⟨rfl, ?_⟩⟩
    rw [List.eq_nil_iff_forall_not_mem]
    intro r hr
    have hr' := List.mem_eraseDups.mpr hr
    rw [List.isEmpty_iff.mp hempty] at hr'
    cases hr'
  · rw [if_neg hempty]
    exact ⟨orderedStrata_of_positive hdedup, .inr rfl⟩

end Positive

theorem mem_factHeads_eraseDups [DecidableEq Expr] {rules : List (Rule Expr)} {q : Quad} :
    q ∈ factHeads rules.eraseDups ↔ q ∈ factHeads rules := by
  simp only [factHeads, Set.mem_ofPred_eq, List.mem_eraseDups]

/-- Batch evaluation of rules without negation computes the least set that contains the initial
quads and the heads of the body-less rules and is closed under the rules. A quad of the result is
asserted iff it was, or it is the head of a body-less rule and was absent. -/
theorem evaluateRules_isLeast [DecidableEq Expr] {env : ReasonerEnv Expr} (hf : env.FixedFilters)
    {rules : List (Rule Expr)} (hrules : ∀ r ∈ rules, WellFormedRule r)
    (hpositive : ∀ r ∈ rules, r.notPatterns = []) (datastore : QuadStore) :
    ∃ result, evaluateRules env rules datastore = .ok result ∧
      IsLeast {M | datastore.quads ⊆ M ∧ factHeads rules ⊆ M ∧ ClosedUnder env rules M}
        result.quads ∧
      ∀ q, result.Extensional q ↔
        datastore.Extensional q ∨ (q ∉ datastore ∧ q ∈ factHeads rules) := by
  obtain ⟨strata, horder, hs, hstrata⟩ :=
    RulePartitioner.exists_orderRules_of_positive hpositive
  obtain ⟨result, hresult, -, hstable, -⟩ := evaluateRules_perfect hf horder hs hrules datastore
  have hleast := isLeast_of_isStable hpositive hstable
  have hextensional : ∀ q, result.Extensional q ↔
      datastore.Extensional q ∨ (q ∉ datastore ∧ q ∈ factHeads rules) := by
    have hrun := hresult
    rw [evaluateRules, horder] at hrun
    dsimp only at hrun
    rcases hstrata with ⟨rfl, rfl⟩ | rfl
    · cases hrun
      intro q
      simp [factHeads]
    · rw [evaluatePartitions] at hrun
      split at hrun
      · cases hrun
      · rename_i program hprogram
        split at hrun
        · cases hrun
        · rename_i m hm
          cases hrun
          obtain ⟨-, rfl⟩ := DatalogProgram.new_eq_ok_iff.mp hprogram
          intro q
          rw [materialiseSeminaiveTracked_extensional hf hm, DatalogProgram.activeRules_ofRules,
            mem_factHeads_eraseDups]
  refine ⟨result, hresult, ⟨?_, ?_⟩, hextensional⟩
  · refine ⟨hleast.1.1, ?_, hleast.1.2⟩
    rintro q ⟨r, hr, hb, hh⟩
    refine hleast.1.2 r hr _ q (r.grounds_fact env hb) ?_ hh
    exact (r.activeIn_fact hb _ result.quads).1
  · rintro X ⟨hE, -, hclosed⟩
    exact hleast.2 ⟨hE, hclosed⟩

/-- The rules `3 :- 2` and `2 :- 1`, against the order in which they derive. -/
def chained : List (Rule Empty) := [unaryRule 3 [2] [], unaryRule 2 [1] []]

theorem evaluateRules_isLeast_chained : ∃ result,
    evaluateRules .plain chained (QuadStore.new.addQuad (unaryQuad 1 10)) = .ok result ∧
      IsLeast {M | (QuadStore.new.addQuad (unaryQuad 1 10)).quads ⊆ M ∧
        factHeads chained ⊆ M ∧ ClosedUnder .plain chained M} result.quads ∧
      ∀ q, result.Extensional q ↔ (QuadStore.new.addQuad (unaryQuad 1 10)).Extensional q ∨
        (q ∉ QuadStore.new.addQuad (unaryQuad 1 10) ∧ q ∈ factHeads chained) := by
  have hcases : ∀ r ∈ chained, r = unaryRule 3 [2] [] ∨ r = unaryRule 2 [1] [] := by
    intro r hr
    simpa [chained] using hr
  refine evaluateRules_isLeast ReasonerEnv.plain_fixedFilters ?_ ?_ _
  · intro r hr
    rcases hcases r hr with rfl | rfl <;> exact unaryRule_wellFormed _ _ _ _
  · intro r hr
    rcases hcases r hr with rfl | rfl <;> rfl

def bodyless : Rule Empty := ⟨.normalHead (constantQuadPattern (unaryQuad 1 10)), []⟩

/-- The head of a body-less rule is added as an asserted quad, not as a derived one. -/
theorem evaluateRules_asserts_factHead : (∀ r ∈ [bodyless], WellFormedRule r) ∧
    (∀ r ∈ [bodyless], r.notPatterns = []) ∧
    ∃ result, evaluateRules .plain [bodyless] .new = .ok result ∧
      unaryQuad 1 10 ∈ result ∧ unaryQuad 1 10 ∉ QuadStore.new ∧
      ¬ result.Derived (unaryQuad 1 10) := by
  refine ⟨?_, ?_, by decide⟩
  · intro r hr
    rw [List.mem_singleton.mp hr]
    exact ⟨fun hb => absurd rfl hb, _, rfl, by simp [constantQuadPattern, QuadPattern.getVariables,
      Term.getVariables]⟩
  · intro r hr
    rw [List.mem_singleton.mp hr]
    rfl

namespace Rule

def Plain (r : Rule Expr) : Prop := ∀ a ∈ r.body, ∃ p, a = .positivePattern p

theorem Plain.notPatterns {r : Rule Expr} (h : r.Plain) : r.notPatterns = [] := by
  rw [List.eq_nil_iff_forall_not_mem]
  intro p hp
  obtain ⟨q, hq⟩ := h _ (mem_notPatterns.mp hp)
  cases hq

end Rule

end RdfDatalog.Datalog
