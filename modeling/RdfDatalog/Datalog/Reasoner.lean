import Mathlib.Algebra.Group.Nat.Defs
import RdfDatalog.Datalog.Matching
import RdfDatalog.Datalog.DerivedFrom
import RdfDatalog.Math.FallibleFold

namespace RdfDatalog.Datalog

open BucketIndex FallibleFold

variable {Expr : Type}

/-- The ways the reasoner stops without a result: a reported error, the panic on an unbound
variable, or the bound of a loop. -/
inductive Fault (Expr : Type) where
  | reasoning (error : ReasoningError Expr)
  | unboundVariable
  | outOfFuel
  deriving DecidableEq

/-- The indexes of the body atoms of a program. -/
structure RuleMaps (Expr : Type) where
  ruleMap : Flat QuadWildcard (PartialRule Expr)
  negRuleMap : Flat QuadWildcard (Nat × QuadPattern)
  negativelyTriggeringRules : Finset Nat

namespace RuleMaps

def empty : RuleMaps Expr := ⟨∅, ∅, ∅⟩

def indexAtom (rule : Rule Expr) (ruleId : Nat) (maps : RuleMaps Expr) :
    RuleAtom Expr → RuleMaps Expr
  | .positivePattern p =>
    { maps with ruleMap := maps.ruleMap.push (directWildcardPattern p) ⟨rule, p, ruleId⟩ }
  | .notPattern p =>
    { maps with
      negRuleMap := maps.negRuleMap.push (directWildcardPattern p) (ruleId, p)
      negativelyTriggeringRules := insert ruleId maps.negativelyTriggeringRules }
  | _ => maps

def indexRule (maps : RuleMaps Expr) (entry : Rule Expr × Nat) : RuleMaps Expr :=
  entry.1.body.foldl (indexAtom entry.1 entry.2) maps

def ofRules (rules : List (Rule Expr)) : RuleMaps Expr := rules.zipIdx.foldl indexRule empty

theorem mem_push {κ α : Type} [DecidableEq κ] (m : Flat κ α) (k j : κ) (x y : α) :
    y ∈ (m.push k x).bucket j ↔ y ∈ m.bucket j ∨ (j = k ∧ y = x) := by
  rw [Flat.push, Flat.bucket_insert]
  by_cases h : j = k
  · subst h; simp
  · simp [h]

theorem foldl_indexAtom (rule : Rule Expr) (ruleId : Nat) (body : List (RuleAtom Expr))
    (maps : RuleMaps Expr) :
    (∀ wc pr, pr ∈ (body.foldl (indexAtom rule ruleId) maps).ruleMap.bucket wc ↔
      pr ∈ maps.ruleMap.bucket wc ∨
        ∃ p, .positivePattern p ∈ body ∧ wc = directWildcardPattern p ∧ pr = ⟨rule, p, ruleId⟩) ∧
    (∀ wc e, e ∈ (body.foldl (indexAtom rule ruleId) maps).negRuleMap.bucket wc ↔
      e ∈ maps.negRuleMap.bucket wc ∨
        ∃ p, .notPattern p ∈ body ∧ wc = directWildcardPattern p ∧ e = (ruleId, p)) ∧
    ∀ id, id ∈ (body.foldl (indexAtom rule ruleId) maps).negativelyTriggeringRules ↔
      id ∈ maps.negativelyTriggeringRules ∨ (id = ruleId ∧ ∃ p, .notPattern p ∈ body) := by
  induction body generalizing maps with
  | nil => simp
  | cons a body ih =>
    obtain ⟨hpos, hneg, hids⟩ := ih (indexAtom rule ruleId maps a)
    rw [List.foldl_cons]
    cases a with
    | positivePattern p =>
      refine ⟨?_, ?_, ?_⟩
      · intro wc pr
        rw [hpos]
        simp only [indexAtom, mem_push, List.mem_cons, RuleAtom.positivePattern.injEq, or_and_right,
          exists_or, exists_eq_left, or_assoc]
      · simpa [indexAtom] using hneg
      · simpa [indexAtom] using hids
    | notPattern p =>
      refine ⟨?_, ?_, ?_⟩
      · simpa [indexAtom] using hpos
      · intro wc e
        rw [hneg]
        simp only [indexAtom, mem_push, List.mem_cons, RuleAtom.notPattern.injEq, or_and_right,
          exists_or, exists_eq_left, or_assoc]
      · intro id
        rw [hids]
        simp only [indexAtom, Finset.mem_insert, List.mem_cons, RuleAtom.notPattern.injEq,
          exists_or, exists_eq, true_or, and_true]
        by_cases h : id = ruleId <;> simp [h]
    | notEqualsAtom | filterAtom =>
      simpa [indexAtom] using And.intro hpos (And.intro hneg hids)

theorem foldl_indexRule (entries : List (Rule Expr × Nat)) (maps : RuleMaps Expr) :
    (∀ wc pr, pr ∈ (entries.foldl indexRule maps).ruleMap.bucket wc ↔
      pr ∈ maps.ruleMap.bucket wc ∨ (∃ e ∈ entries, ∃ p ∈ e.1.positivePatterns,
        wc = directWildcardPattern p ∧ pr = ⟨e.1, p, e.2⟩)) ∧
    (∀ wc np, np ∈ (entries.foldl indexRule maps).negRuleMap.bucket wc ↔
      np ∈ maps.negRuleMap.bucket wc ∨ (∃ e ∈ entries, ∃ p ∈ e.1.notPatterns,
        wc = directWildcardPattern p ∧ np = (e.2, p))) ∧
    ∀ id, id ∈ (entries.foldl indexRule maps).negativelyTriggeringRules ↔
      id ∈ maps.negativelyTriggeringRules ∨
        ∃ e ∈ entries, id = e.2 ∧ ∃ p, p ∈ e.1.notPatterns := by
  induction entries generalizing maps with
  | nil => simp
  | cons e entries ih =>
    obtain ⟨hpos, hneg, hids⟩ := ih (indexRule maps e)
    obtain ⟨hpos', hneg', hids'⟩ := foldl_indexAtom e.1 e.2 e.1.body maps
    rw [List.foldl_cons]
    refine ⟨?_, ?_, ?_⟩
    · intro wc pr
      rw [hpos, indexRule, hpos']
      simp only [List.mem_cons, exists_eq_or_imp, or_assoc, Rule.mem_positivePatterns]
    · intro wc np
      rw [hneg, indexRule, hneg']
      simp only [List.mem_cons, exists_eq_or_imp, or_assoc, Rule.mem_notPatterns]
    · intro id
      rw [hids, indexRule, hids']
      simp only [List.mem_cons, exists_eq_or_imp, or_assoc, Rule.mem_notPatterns]

end RuleMaps

/-- A compiled stratum. A retracted rule keeps its position and is listed in `disabledRules`. -/
structure DatalogProgram (Expr : Type) where
  rules : List (Rule Expr)
  ruleMap : Flat QuadWildcard (PartialRule Expr)
  negRuleMap : Flat QuadWildcard (Nat × QuadPattern)
  derivedFrom : DerivedFromIndex
  disabledRules : Finset Nat
  ruleMap_exact : ∀ wc pr, pr ∈ ruleMap.bucket wc ↔ rules[pr.ruleId]? = some pr.rule ∧
    pr.matchPattern ∈ pr.rule.positivePatterns ∧ wc = directWildcardPattern pr.matchPattern
  negRuleMap_exact : ∀ wc id p, (id, p) ∈ negRuleMap.bucket wc ↔
    ∃ r, rules[id]? = some r ∧ p ∈ r.notPatterns ∧ wc = directWildcardPattern p

namespace DatalogProgram

/-- The program `new` builds from rules it accepts. -/
def ofRules (rules : List (Rule Expr)) : DatalogProgram Expr :=
  let maps := RuleMaps.ofRules rules
  { rules := rules
    ruleMap := maps.ruleMap
    negRuleMap := maps.negRuleMap
    derivedFrom := .withNegativelyTriggeringRules maps.negativelyTriggeringRules
    disabledRules := ∅
    ruleMap_exact := by
      intro wc pr
      rw [show maps = RuleMaps.ofRules rules from rfl, RuleMaps.ofRules,
        (RuleMaps.foldl_indexRule rules.zipIdx .empty).1]
      simp only [RuleMaps.empty, Flat.bucket, AList.lookup_empty, Option.getD_none,
        List.not_mem_nil, false_or, Prod.exists, List.mem_zipIdx_iff_getElem?]
      constructor
      · rintro ⟨r, id, hr, p, hp, rfl, rfl⟩
        exact ⟨hr, hp, rfl⟩
      · intro ⟨hr, hp, hwc⟩
        exact ⟨pr.rule, pr.ruleId, hr, pr.matchPattern, hp, hwc, rfl⟩
    negRuleMap_exact := by
      intro wc id p
      rw [show maps = RuleMaps.ofRules rules from rfl, RuleMaps.ofRules,
        (RuleMaps.foldl_indexRule rules.zipIdx .empty).2.1]
      simp only [RuleMaps.empty, Flat.bucket, AList.lookup_empty, Option.getD_none,
        List.not_mem_nil, false_or, Prod.exists, List.mem_zipIdx_iff_getElem?]
      constructor
      · rintro ⟨r, id', hr, p', hp, rfl, he⟩
        cases he
        exact ⟨r, hr, hp, rfl⟩
      · intro ⟨r, hr, hp, hwc⟩
        exact ⟨r, id, hr, p, hp, hwc, rfl⟩ }

def new (rules : List (Rule Expr)) : Except (ReasoningError Expr) (DatalogProgram Expr) :=
  match rules.forM isSafeRule with
  | .error e => .error e
  | .ok _ => .ok (ofRules rules)

variable (p : DatalogProgram Expr)

def disableRule (ruleId : Nat) : DatalogProgram Expr :=
  { p with disabledRules := insert ruleId p.disabledRules }

def enableRule (ruleId : Nat) : DatalogProgram Expr :=
  { p with disabledRules := p.disabledRules.erase ruleId }

def isRuleDisabled (ruleId : Nat) : Bool := ruleId ∈ p.disabledRules

/-- `r` stands at position `ruleId` and may fire. -/
def Enabled (ruleId : Nat) (r : Rule Expr) : Prop :=
  p.rules[ruleId]? = some r ∧ ruleId ∉ p.disabledRules

def getRulesForFact (fact : Quad) : List (PartialRuleMatch Expr) :=
  (((wildcardQuadPattern (constantQuadPattern fact)).flatMap p.ruleMap.bucket).filter
    (fun pr => pr.ruleId ∉ p.disabledRules)).flatMap (getMatchesForRule fact)

/-- The negated atoms of enabled rules that `fact` could match by its index keys. -/
def negativelyTriggeredRules (fact : Quad) : List (Nat × QuadPattern) :=
  ((wildcardQuadPattern (constantQuadPattern fact)).flatMap p.negRuleMap.bucket).filter
    (fun e => e.1 ∉ p.disabledRules)

/-- The quad a body-less rule asserts. -/
def factOfRule (r : Rule Expr) : Except (Fault Expr) Quad :=
  match r.head with
  | .contradiction => .error (.reasoning (.contradiction r))
  | .normalHead h =>
    match applySubstitutionQuad emptySubstitution h with
    | some q => .ok q
    | none => .error .unboundVariable

/-- The body-less rules that are enabled. -/
def factRules : List (Rule Expr) :=
  (p.rules.zipIdx.filter (fun e => isFact e.1 && decide (e.2 ∉ p.disabledRules))).map Prod.fst

def getFacts : Except (Fault Expr) (List Quad) :=
  p.factRules.mapM factOfRule

end DatalogProgram

def Term.ids : Term → List GraphElementId
  | .resource r => [r]
  | .var _ => []

/-- What a materialisation changes: the store, the derivation index, and the log of the
derivations that were new. -/
structure Materialisation where
  base : QuadStore
  derivedFrom : DerivedFromIndex
  track : List (Quad × Derivation)

def Materialisation.derive (m : Materialisation) (derived : Quad) (derivation : Derivation) :
    Materialisation :=
  let recorded := m.derivedFrom.record derived derivation
  { base := m.base.addIntensionalQuad derived
    derivedFrom := recorded.1
    track := if recorded.2 then m.track ++ [(derived, derivation)] else m.track }

/-- The outcome of a materialisation: on a fault, the state reached so far. -/
abbrev Outcome (Expr : Type) : Type → Type := Except (Fault Expr × Materialisation)

def fireMatch (pr : PartialRule Expr) (head : QuadPattern) (m : Materialisation)
    (sub : Substitution) : Outcome Expr Materialisation :=
  match applySubstitutionQuad sub head, pr.rule.bodyWitnesses sub with
  | some derived, some bodyWitnesses => .ok (m.derive derived ⟨pr.ruleId, bodyWitnesses⟩)
  | _, _ => .error (.unboundVariable, m)

/-- Evaluate one triggered rule: a contradiction that matches is an error. -/
def applyRuleMatch (env : ReasonerEnv Expr) (m : Materialisation)
    (ruleMatch : PartialRuleMatch Expr) : Outcome Expr Materialisation :=
  let pr := ruleMatch.partialRule
  match pr.rule.head with
  | .contradiction =>
    if (evaluate env m.base ruleMatch).isEmpty then .ok m
    else .error (.reasoning (.contradiction pr.rule), m)
  | .normalHead head => (evaluate env m.base ruleMatch).foldlM (fireMatch pr head) m

namespace DatalogProgram

variable (env : ReasonerEnv Expr)

/-- One semi-naive iteration: every rule that a quad of `delta` triggers. -/
def materialiseDeltaIteration (p : DatalogProgram Expr)
    (delta : List Quad) (m : Materialisation) : Outcome Expr Materialisation :=
  delta.foldlM (fun m quad => (p.getRulesForFact quad).foldlM (applyRuleMatch env) m) m

/-- Iterate on the quads added since `deltaStart` until none are. -/
def materialiseLoop (env : ReasonerEnv Expr) (p : DatalogProgram Expr) :
    Nat → Nat → Materialisation → Outcome Expr Materialisation
  | 0, _, m => .error (.outOfFuel, m)
  | fuel + 1, deltaStart, m =>
    let deltaEnd := m.base.table.quadCount
    if deltaEnd ≤ deltaStart then .ok m
    else
      match p.materialiseDeltaIteration env ((m.base.quadList.take deltaEnd).drop deltaStart) m with
      | .error e => .error e
      | .ok m => p.materialiseLoop env fuel deltaEnd m

def headIds (r : Rule Expr) : List GraphElementId :=
  match r.head with
  | .normalHead h => [h.graph, h.subject, h.predicate, h.object].flatMap Term.ids
  | .contradiction => []

def quadIds (q : Quad) : List GraphElementId := [q.tripleId, q.subject, q.predicate, q.obj]

/-- The ids a quad can have that a run over `base` derives. -/
def herbrandIds (p : DatalogProgram Expr) (base : QuadStore) : List GraphElementId :=
  p.rules.flatMap headIds ++ base.quadList.flatMap quadIds

/-- More iterations than a run over `base` can take. -/
def iterationBound (p : DatalogProgram Expr) (base : QuadStore) : Nat :=
  (p.herbrandIds base).length ^ 4 + 1

/-- Materialise the stratum; the first iteration is triggered by the quads from position
`initialDeltaStart` on. -/
def materialiseSeminaiveTrackedFrom (p : DatalogProgram Expr)
    (base : QuadStore) (initialDeltaStart : Nat) : Outcome Expr Materialisation :=
  match p.getFacts with
  | .error e => .error (e, ⟨base, p.derivedFrom, []⟩)
  | .ok facts =>
    let base := facts.foldl QuadStore.addQuad base
    p.materialiseLoop env (p.iterationBound base) initialDeltaStart ⟨base, p.derivedFrom, []⟩

def materialiseSeminaiveTracked (p : DatalogProgram Expr)
    (base : QuadStore) : Outcome Expr Materialisation :=
  p.materialiseSeminaiveTrackedFrom env base 0

/-- Materialise the stratum; the first iteration is triggered by `deltaFacts`, which are added
when they are absent. -/
def materialiseSeminaiveTrackedFromFacts (p : DatalogProgram Expr)
    (base : QuadStore) (deltaFacts : List Quad) : Outcome Expr Materialisation :=
  match p.getFacts with
  | .error e => .error (e, ⟨base, p.derivedFrom, []⟩)
  | .ok facts =>
    let base := deltaFacts.foldl QuadStore.addQuad (facts.foldl QuadStore.addQuad base)
    let baseline := base.table.quadCount
    match p.materialiseDeltaIteration env deltaFacts ⟨base, p.derivedFrom, []⟩ with
    | .error e => .error e
    | .ok m => p.materialiseLoop env (p.iterationBound base) baseline m

end DatalogProgram

end RdfDatalog.Datalog
