import RdfDatalog.Store.QuadStore

namespace RdfDatalog.Datalog

open BucketIndex

/-- A term of a pattern: a concrete resource id or a named variable. -/
inductive Term where
  | resource (id : GraphElementId)
  | var (name : String)
  deriving DecidableEq, Repr

structure QuadPattern where
  graph : Term
  subject : Term
  predicate : Term
  object : Term
  deriving DecidableEq, Repr

def Term.getVariables : Term → List String
  | .var v => [v]
  | .resource _ => []

def QuadPattern.getVariables (p : QuadPattern) : List String :=
  [p.graph, p.subject, p.predicate, p.object].flatMap Term.getVariables

/-- A position of a rule-index key. -/
inductive ResourceOrWildcard where
  | resource (id : GraphElementId)
  | wildcard
  deriving DecidableEq, Repr

/-- A key of the rule indexes. -/
structure QuadWildcard where
  graph : ResourceOrWildcard
  subject : ResourceOrWildcard
  predicate : ResourceOrWildcard
  object : ResourceOrWildcard
  deriving DecidableEq, Repr

/-- A rule head; `contradiction` signals an inconsistency when the body holds. -/
inductive RuleHead where
  | normalHead (pattern : QuadPattern)
  | contradiction
  deriving DecidableEq, Repr

def RuleHead.getVariables : RuleHead → List String
  | .normalHead p => p.getVariables
  | .contradiction => []

/-- A body atom; `Expr` is the type of the SPARQL expressions that guard a rule. -/
inductive RuleAtom (Expr : Type) where
  | positivePattern (pattern : QuadPattern)
  | notPattern (pattern : QuadPattern)
  | notEqualsAtom (left right : Term)
  | filterAtom (expr : Expr)
  deriving DecidableEq

def RuleAtom.getVariables {Expr : Type} : RuleAtom Expr → List String
  | .positivePattern p => p.getVariables
  | .notPattern p => p.getVariables
  | .notEqualsAtom t₁ t₂ => t₁.getVariables ++ t₂.getVariables
  | .filterAtom _ => []

structure Rule (Expr : Type) where
  head : RuleHead
  body : List (RuleAtom Expr)
  deriving DecidableEq

instance instLawfulBEqRule {Expr : Type} [DecidableEq Expr] : LawfulBEq (Rule Expr) :=
  inferInstance

namespace Rule

variable {Expr : Type}

variable (r : Rule Expr)

def positivePatterns : List QuadPattern :=
  r.body.filterMap fun
    | .positivePattern p => some p
    | _ => none

def notPatterns : List QuadPattern :=
  r.body.filterMap fun
    | .notPattern p => some p
    | _ => none

def notEquals : List (Term × Term) :=
  r.body.filterMap fun
    | .notEqualsAtom t₁ t₂ => some (t₁, t₂)
    | _ => none

def filterExprs : List Expr :=
  r.body.filterMap fun
    | .filterAtom e => some e
    | _ => none

@[simp] theorem mem_positivePatterns {r : Rule Expr} {p : QuadPattern} :
    p ∈ r.positivePatterns ↔ .positivePattern p ∈ r.body := by
  unfold positivePatterns
  rw [List.mem_filterMap]
  constructor
  · intro ⟨a, ha, hp⟩
    cases a with
    | positivePattern q =>
      cases hp
      exact ha
    | _ => cases hp
  · exact fun h => ⟨_, h, rfl⟩

@[simp] theorem mem_notPatterns {r : Rule Expr} {p : QuadPattern} :
    p ∈ r.notPatterns ↔ .notPattern p ∈ r.body := by
  unfold notPatterns
  rw [List.mem_filterMap]
  constructor
  · intro ⟨a, ha, hp⟩
    cases a with
    | notPattern q =>
      cases hp
      exact ha
    | _ => cases hp
  · exact fun h => ⟨_, h, rfl⟩

end Rule

/-- A substitution binds variable names to resource ids. -/
abbrev Substitution := String → Option GraphElementId

/-- A rule together with the body atom that triggers it and its position in the program. -/
structure PartialRule (Expr : Type) where
  rule : Rule Expr
  matchPattern : QuadPattern
  ruleId : Nat

structure PartialRuleMatch (Expr : Type) where
  partialRule : PartialRule Expr
  substitution : Substitution

/-- One way a derived quad was produced: the rule and the quads that matched its positive atoms. -/
structure Derivation where
  ruleId : Nat
  bodyWitnesses : List Quad
  deriving DecidableEq

/-- All recorded ways each derived quad was produced. `byRule` counts, for the rules in
`negativelyTriggeringRules` only, the derivations of each quad that used the rule. -/
structure DerivedFromIndex where
  index : AList (fun _ : Quad => List Derivation)
  byRule : AList (fun _ : Nat => AList (fun _ : Quad => Nat))
  negativelyTriggeringRules : Finset Nat

namespace DerivedFromIndex

/-- The default index: nothing is recorded and no rule counts as negatively triggering. -/
def new : DerivedFromIndex := ⟨∅, ∅, ∅⟩

def withNegativelyTriggeringRules (rules : Finset Nat) : DerivedFromIndex :=
  { new with negativelyTriggeringRules := rules }

variable (x : DerivedFromIndex)

def derivationsFor (quad : Quad) : List Derivation :=
  (x.index.lookup quad).getD []

def iter : List (Quad × List Derivation) :=
  x.index.entries.map fun e => (e.1, e.2)

/-- The quads with a derivation by `ruleId`, read off the reverse index. -/
def quadsForRule (ruleId : Nat) : List Quad :=
  ((x.byRule.lookup ruleId).getD ∅).keys

def incrementByRule (ruleId : Nat) (quad : Quad) : DerivedFromIndex :=
  let quads := (x.byRule.lookup ruleId).getD ∅
  { x with byRule := x.byRule.insert ruleId (quads.insert quad ((quads.lookup quad).getD 0 + 1)) }

/-- Record a derivation; the flag says whether it is a new one. -/
def record (derivedQuad : Quad) (derivation : Derivation) : DerivedFromIndex × Bool :=
  let entries := x.derivationsFor derivedQuad
  if derivation ∈ entries then (x, false)
  else
    let x := { x with index := x.index.insert derivedQuad (entries ++ [derivation]) }
    if derivation.ruleId ∈ x.negativelyTriggeringRules then
      (x.incrementByRule derivation.ruleId derivedQuad, true)
    else (x, true)

def decrementByRule (ruleId : Nat) (quad : Quad) : DerivedFromIndex :=
  match x.byRule.lookup ruleId with
  | none => x
  | some quads =>
    let quads := match quads.lookup quad with
      | none => quads
      | some n => if n - 1 = 0 then quads.erase quad else quads.insert quad (n - 1)
    { x with
      byRule := if quads.keys.isEmpty then x.byRule.erase ruleId
        else x.byRule.insert ruleId quads }

/-- Remove exactly one recorded derivation. -/
def unrecord (derivedQuad : Quad) (derivation : Derivation) : DerivedFromIndex :=
  match x.index.lookup derivedQuad with
  | none => x
  | some entries =>
    let kept := entries.filter (fun d => d ≠ derivation)
    let x := { x with
      index := if kept.isEmpty then x.index.erase derivedQuad
        else x.index.insert derivedQuad kept }
    if kept.length ≠ entries.length then x.decrementByRule derivation.ruleId derivedQuad else x

/-- One step of `remove`: `quad` leaves the reverse index of one rule. -/
def dropByRule (quad : Quad) (byRule : AList (fun _ : Nat => AList (fun _ : Quad => Nat)))
    (d : Derivation) : AList (fun _ : Nat => AList (fun _ : Quad => Nat)) :=
  match byRule.lookup d.ruleId with
  | none => byRule
  | some quads =>
    let quads := quads.erase quad
    if quads.keys.isEmpty then byRule.erase d.ruleId else byRule.insert d.ruleId quads

def remove (quad : Quad) : DerivedFromIndex :=
  match x.index.lookup quad with
  | none => x
  | some derivations =>
    { x with
      index := x.index.erase quad
      byRule := derivations.foldl (dropByRule quad) x.byRule }

end DerivedFromIndex

end RdfDatalog.Datalog
