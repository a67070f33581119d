import RdfDatalog.Store.QuadsMatching
import Mathlib.Data.Finmap

namespace RdfDatalog.Sparql

variable (N : NativeTypes)

/-- A position of a triple pattern. -/
inductive Term where
  | var (v : String)
  | constant (gel : GraphElement N)
  | tripleTerm (subject predicate object : Term)
  deriving DecidableEq

structure TriplePattern where
  subject : Term N
  predicate : Term N
  object : Term N
  deriving DecidableEq

/-- A property path. The bounds of a repetition are the least number of steps and, unless it is
open, the greatest. -/
inductive PropertyPath where
  | iri (gel : GraphElement N)
  | sequence (steps : List PropertyPath)
  | alternative (left right : PropertyPath)
  | inverse (inner : PropertyPath)
  | zeroOrMore (inner : PropertyPath)
  | oneOrMore (inner : PropertyPath)
  | zeroOrOne (inner : PropertyPath)
  | repeat (inner : PropertyPath) (min : Nat) (max : Option Nat)
  | negatedSet (excluded : List (GraphElement N))

@[elab_as_elim, induction_eliminator]
theorem PropertyPath.induct {N : NativeTypes} {motive : PropertyPath N → Prop}
    (iri : ∀ gel, motive (.iri gel))
    (sequence : ∀ steps, (∀ path ∈ steps, motive path) → motive (.sequence steps))
    (alternative : ∀ left right, motive left → motive right → motive (.alternative left right))
    (inverse : ∀ inner, motive inner → motive (.inverse inner))
    (zeroOrMore : ∀ inner, motive inner → motive (.zeroOrMore inner))
    (oneOrMore : ∀ inner, motive inner → motive (.oneOrMore inner))
    (zeroOrOne : ∀ inner, motive inner → motive (.zeroOrOne inner))
    (repeat_ : ∀ inner min max, motive inner → motive (.repeat inner min max))
    (negatedSet : ∀ excluded, motive (.negatedSet excluded)) (path : PropertyPath N) :
    motive path :=
  PropertyPath.rec iri sequence alternative inverse zeroOrMore oneOrMore zeroOrOne
    repeat_ negatedSet
    nofun
    (fun _ _ hhead htail path hmem => by
      cases hmem with
      | head => exact hhead
      | tail _ hmem => exact htail path hmem) path

inductive DatasetClause where
  | default (gel : GraphElement N)
  | named (gel : GraphElement N)

inductive BinaryOp where
  | add | sub | mul | div | eq | ne | lt | gt | le | ge | and | or
  deriving DecidableEq

inductive UnaryOp where
  | not | plus | minus
  deriving DecidableEq

mutual

inductive Expression where
  | var (v : String)
  | constant (gel : GraphElement N)
  | binary (left : Expression) (op : BinaryOp) (right : Expression)
  | unary (op : UnaryOp) (inner : Expression)
  | functionCall (name : String) (args : List Expression)
  | aggregate (a : Aggregate)
  | exists (inner : List QueryComponent)
  | notExists (inner : List QueryComponent)
  | isIn (expr : Expression) (list : List Expression)
  | notIn (expr : Expression) (list : List Expression)

inductive Aggregate where
  | countStar
  | count (expr : Expression) (distinct : Bool)
  | sum (expr : Expression) (distinct : Bool)
  | avg (expr : Expression) (distinct : Bool)
  | min (expr : Expression) (distinct : Bool)
  | max (expr : Expression) (distinct : Bool)
  | sample (expr : Expression) (distinct : Bool)
  | groupConcat (expr : Expression) (separator : String) (distinct : Bool)

inductive QueryComponent where
  | bgp (patterns : List (TriplePattern N))
  | pathPattern (subject : Term N) (path : PropertyPath N) (object : Term N)
  | subquery (query : Query)
  | optional (inner : List QueryComponent)
  | union (left right : List QueryComponent)
  | filter (expr : Expression)
  | bind (expr : Expression) (aliasName : String)
  | values (vars : List String) (rows : List (List (Option (GraphElement N))))
  | minus (inner : List QueryComponent)
  | graph (graphTerm : Term N) (inner : List QueryComponent)
  | service (endpoint : Term N) (inner : List QueryComponent) (silent : Bool)
  | group (inner : List QueryComponent)

inductive ProjectionElement where
  | var (v : String)
  | expression (expr : Expression) (aliasName : String)
  | star

inductive OrderCondition where
  | mk (expression : Expression) (ascending : Bool)

inductive GroupCondition where
  | mk (expr : Expression) (aliasName : Option String)

inductive Query where
  | select (projection : List ProjectionElement) (dataset : List (DatasetClause N))
      (whereClause : List QueryComponent) (groupBy : List GroupCondition)
      (having : List Expression) (orderBy : List OrderCondition) (limit offset : Option Nat)
      (distinct : Bool)
  | ask (dataset : List (DatasetClause N)) (whereClause : List QueryComponent)
  | construct (template : List (TriplePattern N)) (dataset : List (DatasetClause N))
      (whereClause : List QueryComponent)
  | describe (resources : List (Term N)) (dataset : List (DatasetClause N))
      (whereClause : List QueryComponent)

end

end RdfDatalog.Sparql

namespace RdfDatalog.Sparql

variable {N : NativeTypes}

/-- The store a query reads: the datastore and the triple terms it holds, each as a quad that is
tagged with its own id. -/
structure QueryStore (N : NativeTypes) extends Datastore N where
  reifiedTriples : QuadStore

/-- The value of a variable: an id that came from a quad, or a computed element, which may or may
not be in the store. -/
inductive PartialSubValue (N : NativeTypes) where
  | interned (id : GraphElementId)
  | computed (gel : GraphElement N)
  deriving DecidableEq

namespace PartialSubValue

/-- `none` where the source panics: the id is out of range. -/
def resolve (ds : Datastore N) : PartialSubValue N → Option (GraphElement N)
  | interned id => ds.resources.getGraphElement id
  | computed gel => some gel

def toId (ds : Datastore N) : PartialSubValue N → Option GraphElementId
  | interned id => some id
  | computed gel => ds.resources.resourceMap.lookup gel

end PartialSubValue

/-- A solution: the variables that are bound, and their values. -/
abbrev PartialSub (N : NativeTypes) := Finmap fun _ : String => PartialSubValue N

inductive ActiveGraph where
  | fixed (id : GraphElementId)
  | var (v : String)
  deriving DecidableEq

/-- Equality of bindings is equality of the elements they stand for. -/
def psvEq (ds : Datastore N) : PartialSubValue N → PartialSubValue N → Bool
  | .interned x, .interned y => x = y
  | .computed x, .computed y => x = y
  | a, b => a.resolve ds = b.resolve ds

/-- `psvEq` of two bindings, and `missing` where one of them is absent. -/
def agree (ds : Datastore N) (missing : Bool) : Option (PartialSubValue N) →
    Option (PartialSubValue N) → Bool
  | some va, some vb => psvEq ds va vb
  | _, _ => missing

def partialSubsEqual (ds : Datastore N) (a b : PartialSub N) : Bool :=
  a.keys.card = b.keys.card ∧ ∀ k ∈ a.keys, agree ds false (a.lookup k) (b.lookup k) = true

/-- Two solutions are compatible if they agree on all shared variables. -/
def compatible (ds : Datastore N) (a b : PartialSub N) : Bool :=
  ∀ k ∈ a.keys, agree ds true (a.lookup k) (b.lookup k) = true

/-- Bind `v` to `val`, unless it has another value already. -/
def bindVariable (ds : Datastore N) (sub : PartialSub N) (v : String) (val : PartialSubValue N) :
    Option (PartialSub N) :=
  match sub.lookup v with
  | some existing => if psvEq ds existing val then some (sub.insert v val) else none
  | none => some (sub.insert v val)

/-- Merge two solutions that agree on their shared variables. -/
def mergeSolutions (ds : Datastore N) (outer inner : PartialSub N) : Option (PartialSub N) :=
  if compatible ds inner outer then some (inner ∪ outer) else none

end RdfDatalog.Sparql
