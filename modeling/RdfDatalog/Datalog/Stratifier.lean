import RdfDatalog.Datalog.Reasoner

namespace RdfDatalog.Datalog

variable {Expr : Type}

/-- The two maps that `quad_patterns_unifiable` threads through the positions of a pattern. -/
structure Unifier where
  constantMap : String → Option GraphElementId
  variableMap : String → Option String

def variableConstantUnifiable (v : String) (resource : GraphElementId) (u : Unifier) :
    Option Unifier :=
  let canonical := (u.variableMap v).getD v
  match u.constantMap canonical with
  | none => some { u with constantMap := Function.update u.constantMap canonical (some resource) }
  | some r => if r = resource then some u else none

def termsUnifiable (t₁ t₂ : Term) (u : Unifier) : Option Unifier :=
  match t₁, t₂ with
  | .var v, .resource r => variableConstantUnifiable v r u
  | .resource r, .var v => variableConstantUnifiable v r u
  | .resource r₁, .resource r₂ => if r₁ = r₂ then some u else none
  | .var v₁, .var v₂ => some { u with variableMap := Function.update u.variableMap v₁ (some v₂) }

/-- The test is only an approximation: it takes the variables of both patterns from one name
space, and it does not follow chains of variables. -/
def quadPatternsUnifiable (q₁ q₂ : QuadPattern) : Bool :=
  ((termsUnifiable q₁.subject q₂.subject ⟨fun _ => none, fun _ => none⟩).bind fun u =>
    (termsUnifiable q₁.predicate q₂.predicate u).bind fun u =>
      (termsUnifiable q₁.object q₂.object u).bind fun u =>
        termsUnifiable q₁.graph q₂.graph u).isSome

/-- An edge of the rule dependency graph, to the rule that reads a head. -/
inductive PatternEdge (Expr : Type) where
  | positivePatternEdge (rule : Rule Expr)
  | negativePatternEdge (rule : Rule Expr)

def PatternEdge.getRule : PatternEdge Expr → Rule Expr
  | .positivePatternEdge r => r
  | .negativePatternEdge r => r

def PatternEdge.isNegative : PatternEdge Expr → Bool
  | .positivePatternEdge _ => false
  | .negativePatternEdge _ => true

variable (rules : List (Rule Expr))

/-- The rules with a body atom unifiable with `headPattern`. -/
def dependingRules (headPattern : QuadPattern) : List (PatternEdge Expr) :=
  rules.filterMap fun r =>
    if r.notPatterns.any (quadPatternsUnifiable headPattern) then some (.negativePatternEdge r)
    else if r.positivePatterns.any (quadPatternsUnifiable headPattern) then
      some (.positivePatternEdge r)
    else none

/-- The state of the stratification. The records the source keeps for each rule are the functions
`successors`, `numPredecessors` and the sets `usesIntensionalNegativeEdge` and `output`. -/
structure RulePartitioner (Expr : Type) where
  rules : List (Rule Expr)
  successors : Nat → List (PatternEdge Expr)
  numPredecessors : Nat → Nat
  usesIntensionalNegativeEdge : Finset Nat
  output : Finset Nat
  readyQueue : List Nat
  nextQueue : List Nat
  purePositive : Bool

variable [DecidableEq Expr]

/-- The position of a rule; the source keeps these in a hash map. -/
def ruleIndex (r : Rule Expr) : Option Nat := rules.idxOf? r

def hasNotPattern (r : Rule Expr) : Bool := !r.notPatterns.isEmpty

/-- The edges from the head of the rule at `i`. -/
def headSuccessors (i : Nat) : List (PatternEdge Expr) :=
  match rules[i]? with
  | some ⟨.normalHead h, _⟩ => dependingRules rules h
  | _ => []

/-- The edges that lead to the rule at `j`, counted. -/
def countPredecessors (j : Nat) : Nat :=
  ((List.range rules.length).flatMap (headSuccessors rules)).countP
    fun e => ruleIndex rules e.getRule = some j

namespace RulePartitioner

def new (rules : List (Rule Expr)) : RulePartitioner Expr :=
  let rules := rules.eraseDups
  if rules.any hasNotPattern then
    { rules := rules
      successors := headSuccessors rules
      numPredecessors := countPredecessors rules
      usesIntensionalNegativeEdge := ∅
      output := ∅
      readyQueue := (List.range rules.length).filter (fun i => countPredecessors rules i = 0)
      nextQueue := []
      purePositive := false }
  else ⟨rules, fun _ => [], fun _ => 0, ∅, ∅, [], [], true⟩

variable (p : RulePartitioner Expr)

/-- The source reports an underflow of `numPredecessors` in its log and goes on. -/
def updateSuccessor (edge : PatternEdge Expr) : RulePartitioner Expr :=
  match ruleIndex p.rules edge.getRule with
  | none => p
  | some dep =>
    let p := if edge.isNegative then
        { p with usesIntensionalNegativeEdge := insert dep p.usesIntensionalNegativeEdge }
      else p
    if dep ∈ p.output ∨ p.numPredecessors dep = 0 then p
    else
      let n := p.numPredecessors dep - 1
      let p := { p with numPredecessors := Function.update p.numPredecessors dep n }
      if n = 0 then
        let p := { p with output := insert dep p.output }
        if dep ∈ p.usesIntensionalNegativeEdge then { p with nextQueue := p.nextQueue ++ [dep] }
        else { p with readyQueue := p.readyQueue ++ [dep] }
      else p

/-- Empty the ready queue into one stratum. -/
def getPartition : Nat → RulePartitioner Expr → List (Rule Expr) × RulePartitioner Expr
  | 0, p => ([], p)
  | fuel + 1, p =>
    match p.readyQueue with
    | [] => ([], p)
    | idx :: rest =>
      let p := (p.successors idx).foldl updateSuccessor { p with readyQueue := rest }
      let result := p.getPartition fuel
      (p.rules[idx]?.toList ++ result.1, result.2)

def resetStratification : RulePartitioner Expr :=
  { p with
    usesIntensionalNegativeEdge := ∅
    readyQueue := p.readyQueue ++ p.nextQueue
    nextQueue := [] }

def topologicalSortFinished : Bool :=
  (List.range p.rules.length).all fun i => i ∈ p.output ∨ p.numPredecessors i = 0

structure Search where
  visited : List Nat
  path : List Nat

/-- The successors of the rule at `idx`, searched one after another. -/
def searchSuccessors (p : RulePartitioner Expr)
    (dfs : Nat → Search → Except (Fault Expr) (Bool × Search)) (idx : Nat) :
    List (PatternEdge Expr) → Search → Except (Fault Expr) (Bool × Search)
  | [], s => .ok (false, { s with path := s.path.dropLast })
  | edge :: edges, s =>
    match ruleIndex p.rules edge.getRule with
    | none => p.searchSuccessors dfs idx edges s
    | some dep =>
      if dep ∈ p.output then p.searchSuccessors dfs idx edges s
      else
        match edge.isNegative, p.rules[idx]? with
        | true, some r => .error (.reasoning (.notStratifiable r))
        | _, _ =>
          match dfs dep s with
          | .error e => .error e
          | .ok (true, s) => .ok (true, s)
          | .ok (false, s) => p.searchSuccessors dfs idx edges s

/-- Depth-first search for a cycle among the rules that are not yet output. -/
def dfsCycle (p : RulePartitioner Expr) :
    Nat → Nat → Search → Except (Fault Expr) (Bool × Search)
  | 0, _, _ => .error .outOfFuel
  | fuel + 1, idx, s =>
    if idx ∈ s.visited then .ok (idx ∈ s.path, s)
    else p.searchSuccessors (p.dfsCycle fuel) idx (p.successors idx)
      ⟨idx :: s.visited, s.path ++ [idx]⟩

def findCycleFrom (p : RulePartitioner Expr) :
    List Nat → Except (Fault Expr) (Option (List Nat))
  | [] => .ok none
  | start :: starts =>
    match p.dfsCycle (p.rules.length + 1) start ⟨[], []⟩ with
    | .error e => .error e
    | .ok (true, s) => .ok (some s.path)
    | .ok (false, _) => p.findCycleFrom starts

/-- The rules that still wait for a predecessor. -/
def candidates : List Nat :=
  (List.range p.rules.length).filter fun i => i ∉ p.output ∧ 0 < p.numPredecessors i

def releaseRule (idx : Nat) : RulePartitioner Expr :=
  if idx ∈ p.output then p
  else { p with output := insert idx p.output, readyQueue := p.readyQueue ++ [idx] }

def handleCycle : Except (Fault Expr) (RulePartitioner Expr) :=
  match p.findCycleFrom p.candidates with
  | .error e => .error e
  | .ok none => .ok p
  | .ok (some cycle) => .ok (cycle.foldl releaseRule p)

/-- What the main loop does after a stratum: queue the rules that waited for it, and break a cycle
when nothing is ready. -/
def afterPartition : Except (Fault Expr) (RulePartitioner Expr) :=
  let p := p.resetStratification
  if p.readyQueue.isEmpty && !p.topologicalSortFinished then p.handleCycle else .ok p

def orderLoop : Nat → RulePartitioner Expr → Except (Fault Expr) (List (List (Rule Expr)))
  | 0, _ => .error .outOfFuel
  | fuel + 1, p =>
    if p.readyQueue.isEmpty then .ok []
    else
      let result := p.getPartition (2 * p.rules.length + 1)
      match result.2.afterPartition with
      | .error e => .error e
      | .ok p =>
        match orderLoop fuel p with
        | .error e => .error e
        | .ok strata => .ok (result.1 :: strata)

/-- The strata of the rules, in the order in which they have to be materialised. -/
def orderRules : Except (Fault Expr) (List (List (Rule Expr))) :=
  if p.purePositive then .ok (if p.rules.isEmpty then [] else [p.rules])
  else
    match (if p.readyQueue.isEmpty then p.handleCycle else .ok p) with
    | .error e => .error e
    | .ok p => orderLoop (2 * p.rules.length + 1) p

end RulePartitioner

end RdfDatalog.Datalog
