import RdfDatalog.Sparql.Ast

namespace RdfDatalog.Sparql

variable {N : NativeTypes}

/-- What a function sees of an argument: for a variable whether it is bound, and the value. -/
structure Argument (N : NativeTypes) where
  bound : Option Bool
  value : Option (GraphElement N)

/-- What the evaluation takes as given: the functions on values, and the rows that the SERVICE
calls were resolved to before the query. -/
structure Library (N : NativeTypes) where
  functionValue : String → List (Argument N) → Option (GraphElement N)
  functionBool : String → List (Argument N) → Option Bool
  /-- An arithmetic operator on two values, in an expression and between two aggregates. -/
  arithmetic : BinaryOp → GraphElement N → GraphElement N → Option (GraphElement N)
  binaryValue : BinaryOp → GraphElement N → GraphElement N → Option (GraphElement N)
  negate : GraphElement N → Option (GraphElement N)
  valuesEqual : GraphElement N → GraphElement N → Bool
  compareGraphElements : GraphElement N → GraphElement N → Option Int
  compareGraphElementsTotal : GraphElement N → GraphElement N → Ordering
  graphElementToString : GraphElement N → Option String
  sumValues : List (GraphElement N) → Option (GraphElement N)
  divideByCount : GraphElement N → Nat → Option (GraphElement N)
  preResolvedServiceResults : Term N → List (QueryComponent N) → Option (List (PartialSub N))

/-- An expression, evaluated: its value, its truth as a filter, and both over a group of
solutions. -/
structure ExprEval (N : NativeTypes) where
  value : PartialSub N → Option (GraphElement N)
  bool : ActiveGraph → PartialSub N → Option Bool
  bound : PartialSub N → Option Bool
  inGroup : List (PartialSub N) → PartialSub N → Option (GraphElement N)
  having : List (PartialSub N) → PartialSub N → Option Bool
  hasAggregate : Bool

section Literals

def booleanLiteral (b : Bool) : GraphElement N := .graphLiteral (.booleanLiteral b)

/-- The truth of a value: an `xsd:boolean` literal has one. -/
def booleanOf : GraphElement N → Option Bool
  | .graphLiteral (.booleanLiteral b) => some b
  | .graphLiteral (.typedLiteral typeIri literal) =>
    if typeIri = xsdBoolean then some (literal = "true") else none
  | _ => none

/-- The comparison operators, on the order of two values. -/
def comparison (op : BinaryOp) (ord : Int) : Option Bool :=
  match op with
  | .eq => some (ord = 0)
  | .ne => some (ord ≠ 0)
  | .lt => some (ord < 0)
  | .gt => some (0 < ord)
  | .le => some (ord ≤ 0)
  | .ge => some (0 ≤ ord)
  | _ => none

end Literals

namespace ExprEval

/-- The graph of a filter that is evaluated where no graph is active. -/
def defaultGraph : ActiveGraph := .fixed defaultGraphElementId

/-- An expression that is its value in every context. -/
def ofValue (value : PartialSub N → Option (GraphElement N)) : ExprEval N where
  value := value
  bool _ sub := (value sub).bind booleanOf
  bound _ := none
  inGroup _ rep := value rep
  having _ rep := (value rep).bind booleanOf
  hasAggregate := false

def ofVar (ds : Datastore N) (v : String) : ExprEval N :=
  { ofValue fun sub => (sub.lookup v).bind (·.resolve ds) with
    bound := fun sub => some (sub.lookup v).isSome }

/-- An expression with a truth but no value. -/
def ofBool (bool : ActiveGraph → PartialSub N → Option Bool) : ExprEval N where
  value _ := none
  bool := bool
  bound _ := none
  inGroup _ _ := none
  having _ rep := bool defaultGraph rep
  hasAggregate := false

def binary (lib : Library N) (left : ExprEval N) (op : BinaryOp) (right : ExprEval N) :
    ExprEval N :=
  let bool (ag : ActiveGraph) (sub : PartialSub N) : Option Bool :=
    match op with
    | .and => some ((left.bool ag sub).getD false && (right.bool ag sub).getD false)
    | .or => some ((left.bool ag sub).getD false || (right.bool ag sub).getD false)
    | .eq => do
      let l ← left.value sub
      let r ← right.value sub
      pure (lib.valuesEqual l r)
    | .ne => do
      let l ← left.value sub
      let r ← right.value sub
      pure (!lib.valuesEqual l r)
    | .lt | .gt | .le | .ge => do
      let l ← left.value sub
      let r ← right.value sub
      comparison op (← lib.compareGraphElements l r)
    | .add | .sub | .mul | .div => none
  { value := fun sub =>
      match op with
      | .add | .sub | .mul | .div => do
        let l ← left.value sub
        let r ← right.value sub
        lib.arithmetic op l r
      | _ => (bool defaultGraph sub).map booleanLiteral
    bool := bool
    bound := fun _ => none
    inGroup := fun group rep => do
      let l ← left.inGroup group rep
      let r ← right.inGroup group rep
      lib.binaryValue op l r
    having := fun group rep =>
      match op with
      | .and => some ((left.having group rep).getD false && (right.having group rep).getD false)
      | .or => some ((left.having group rep).getD false || (right.having group rep).getD false)
      | .eq | .ne | .lt | .gt | .le | .ge => do
        let l ← left.inGroup group rep
        let r ← right.inGroup group rep
        comparison op (← lib.compareGraphElements l r)
      | .add | .sub | .mul | .div => none
    hasAggregate := left.hasAggregate || right.hasAggregate }

def unary (lib : Library N) (op : UnaryOp) (inner : ExprEval N) : ExprEval N :=
  match op with
  | .not =>
    let bool (ag : ActiveGraph) (sub : PartialSub N) := !(inner.bool ag sub).getD false
    let value (sub : PartialSub N) : Option (GraphElement N) :=
      some (booleanLiteral (bool defaultGraph sub))
    { value := value
      bool := fun ag sub => some (bool ag sub)
      bound := fun _ => none
      inGroup := fun _ rep => value rep
      having := fun group rep => some (!(inner.having group rep).getD false)
      hasAggregate := inner.hasAggregate }
  | .plus => { ofValue inner.value with hasAggregate := inner.hasAggregate }
  | .minus =>
    { ofValue fun sub => (inner.value sub).bind lib.negate with
      hasAggregate := inner.hasAggregate }

def functionCall (lib : Library N) (name : String) (args : List (ExprEval N)) : ExprEval N :=
  let arguments (sub : PartialSub N) := args.map fun arg => ⟨arg.bound sub, arg.value sub⟩
  let bool (sub : PartialSub N) := lib.functionBool name (arguments sub)
  { ofValue fun sub => lib.functionValue name (arguments sub) with
    bool := fun _ sub => bool sub
    having := fun _ rep => bool rep
    hasAggregate := args.any (·.hasAggregate) }

def isIn (lib : Library N) (expr : ExprEval N) (list : List (ExprEval N)) : ExprEval N :=
  ofBool fun _ sub => (expr.value sub).map fun val =>
    list.any fun item => ((item.value sub).map (lib.valuesEqual · val)).getD false

def notIn (lib : Library N) (expr : ExprEval N) (list : List (ExprEval N)) : ExprEval N :=
  ofBool fun _ sub => (expr.value sub).map fun val =>
    !list.any fun item => ((item.value sub).map (lib.valuesEqual · val)).getD false

def aggregate (value : List (PartialSub N) → Option (GraphElement N)) : ExprEval N :=
  { ofValue fun _ => none with
    inGroup := fun group _ => value group
    hasAggregate := true }

end ExprEval

section Aggregates

/-- The values of an expression over a group; the order of distinct values is left open by the
source. -/
def groupValues (expr : ExprEval N) (distinct : Bool) (group : List (PartialSub N)) :
    List (GraphElement N) :=
  let values := group.filterMap expr.value
  if distinct then values.dedup else values

/-- The extreme value of a list; `none` if two values have no order. -/
def extremeValue (lib : Library N) (replaces : Int → Bool) :
    List (GraphElement N) → Option (GraphElement N)
  | [] => none
  | v :: values => values.foldlM (fun current v =>
      (lib.compareGraphElements current v).map fun ord => if replaces ord then v else current) v

def countLiteral (n : Nat) : GraphElement N := .graphLiteral (.integerLiteral n)

def averageValue (lib : Library N) (values : List (GraphElement N)) : Option (GraphElement N) :=
  if values.isEmpty then none
  else (lib.sumValues values).bind fun sum => lib.divideByCount sum values.length

def concatValues (lib : Library N) (separator : String) (distinct : Bool)
    (values : List (GraphElement N)) : GraphElement N :=
  let parts := values.filterMap lib.graphElementToString
  let parts := if distinct then parts.dedup.mergeSort (fun a b => decide (a ≤ b)) else parts
  .graphLiteral (.literalString (separator.intercalate parts))

end Aggregates

end RdfDatalog.Sparql
