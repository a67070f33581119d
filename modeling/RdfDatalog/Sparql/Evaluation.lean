import RdfDatalog.Sparql.ComponentOrdering
import RdfDatalog.Sparql.Expressions
import RdfDatalog.Sparql.Paths

namespace RdfDatalog.Sparql

variable {N : NativeTypes}

/-- What a query is evaluated with. `bridge` is the value of the counter of bridge variables: each
path draws its names from there on, and gives none of them away. -/
structure Context (N : NativeTypes) where
  store : QueryStore N
  lib : Library N
  bridge : Nat

/-- The evaluation of a component: from the active graph, the number of solutions that will be
used if that is known, and the solutions so far. -/
abbrev ComponentEval (N : NativeTypes) :=
  ActiveGraph → Option Nat → List (PartialSub N) → List (PartialSub N)

abbrev Planned (N : NativeTypes) := QueryComponent N × ComponentEval N

section Group

def isFilter : QueryComponent N → Bool
  | .filter _ => true
  | _ => false

/-- The variables that every solution binds. -/
def guaranteedBound : List (PartialSub N) → Finset String
  | [] => ∅
  | first :: rest => rest.foldl (fun acc sub => acc ∩ sub.keys) first.keys

variable (ds : Datastore N)

/-- The order of evaluation of a group: its filters come last. -/
def scheduleComponents (components : List (Planned N))
    (solutions : List (PartialSub N)) : List (Planned N) :=
  let nonFilters := components.filter fun c => !isFilter c.1
  let filters := components.filter fun c => isFilter c.1
  let alreadyBound := match solutions with
    | [] => ∅
    | sub :: _ => sub.keys
  (if shouldReorder (nonFilters.map Prod.fst) then
    orderComponents Prod.fst nonFilters alreadyBound (guaranteedBound solutions) ds
  else nonFilters) ++ filters

/-- The components one after another, until no solution is left; the last one gets the budget. -/
def runComponents (ag : ActiveGraph) (budget : Option Nat) :
    List (Planned N) → List (PartialSub N) → List (PartialSub N)
  | [], current => current
  | comp :: rest, current =>
    let next := comp.2 ag (if rest.isEmpty then budget else none) current
    if next.isEmpty then next else runComponents ag budget rest next

def evalComponentsBudgeted (components : List (Planned N))
    (solutions : List (PartialSub N)) (ag : ActiveGraph) (budget : Option Nat) :
    List (PartialSub N) :=
  runComponents ag budget (scheduleComponents ds components solutions) solutions

def evalComponents (components : List (Planned N))
    (solutions : List (PartialSub N)) (ag : ActiveGraph) : List (PartialSub N) :=
  evalComponentsBudgeted ds components solutions ag none

def joinRows (outer rows : List (PartialSub N)) : List (PartialSub N) :=
  outer.flatMap fun sub => rows.filterMap fun row => mergeSolutions ds sub row

/-- A scope of its own, joined with the solutions outside. -/
def evalIndependentThenJoin (inner : List (Planned N))
    (outer : List (PartialSub N)) (ag : ActiveGraph) : List (PartialSub N) :=
  joinRows ds outer (evalComponents ds inner [∅] ag)

def evalOptional (inner : List (Planned N)) (solutions : List (PartialSub N))
    (ag : ActiveGraph) : List (PartialSub N) :=
  solutions.flatMap fun sub =>
    let extended := evalComponents ds inner [sub] ag
    if extended.isEmpty then [sub] else extended

/-- A solution is excluded by a compatible row of the body that shares a variable with it. -/
def evalMinus (inner : List (Planned N)) (solutions : List (PartialSub N))
    (ag : ActiveGraph) : List (PartialSub N) :=
  let innerVars := variablesInComponents (inner.map Prod.fst)
  solutions.filter fun sub =>
    Disjoint sub.keys innerVars ||
      !(evalComponents ds inner [∅] ag).any fun row =>
        compatible ds sub row && !decide (Disjoint sub.keys row.keys)

/-- The active graph inside `GRAPH`; `none` for a term that names no graph. -/
def scopedGraph (sub : PartialSub N) : Term N → Option ActiveGraph
  | .constant gel => (ds.resources.resourceMap.lookup gel).map .fixed
  | .var v =>
    match (sub.lookup v).bind (·.toId ds) with
    | some id => some (.fixed id)
    | none => some (.var v)
  | .tripleTerm _ _ _ => none

def evalGraph (graphTerm : Term N) (inner : List (Planned N))
    (solutions : List (PartialSub N)) : List (PartialSub N) :=
  solutions.flatMap fun sub =>
    match scopedGraph ds sub graphTerm with
    | none => []
    | some ag => evalComponents ds inner [sub] ag

def evalBind (expr : ExprEval N) (aliasName : String) (solutions : List (PartialSub N)) :
    List (PartialSub N) :=
  solutions.map fun sub =>
    match expr.value sub with
    | some val => sub.insert aliasName (.computed val)
    | none => sub

/-- Bind the variables to the values of a row of `VALUES`; `UNDEF` binds nothing. -/
def bindValues (ds : Datastore N) : List (String × Option (GraphElement N)) → PartialSub N →
    Option (PartialSub N)
  | [], sub => some sub
  | (_, none) :: rest, sub => bindValues ds rest sub
  | (v, some gel) :: rest, sub =>
    (bindVariable ds sub v (.computed gel)).bind (bindValues ds rest)

def joinSolutionsWithValues (solutions : List (PartialSub N))
    (vars : List String) (rows : List (List (Option (GraphElement N)))) : List (PartialSub N) :=
  solutions.flatMap fun sub => rows.filterMap fun row =>
    if vars.length ≠ row.length then none else bindValues ds (vars.zip row) sub

end Group

section Select

inductive Projected (N : NativeTypes) where
  | star
  | var (v : String)
  | expression (expr : ExprEval N) (aliasName : String)

def Projected.hasAggregate : Projected N → Bool
  | .expression expr _ => expr.hasAggregate
  | _ => false

/-- A SELECT query, with the evaluations of its parts. -/
structure SelectPlan (N : NativeTypes) where
  projection : List (Projected N)
  dataset : List (DatasetClause N)
  whereClause : List (Planned N)
  groupBy : List (ExprEval N × Option String)
  having : List (ExprEval N)
  orderBy : List (ExprEval N × Bool)
  limit : Option Nat
  offset : Option Nat
  distinct : Bool

/-- The projection of a solution; a later expression sees the aliases of the earlier ones. -/
def projectWithExprsPartial (sub : PartialSub N) (projection : List (Projected N)) :
    PartialSub N :=
  (projection.foldl (fun (row, extended) elem =>
    match elem with
    | .star => (sub ∪ row, extended)
    | .var v =>
      match sub.lookup v with
      | some val => (row.insert v val, extended)
      | none => (row, extended)
    | .expression expr aliasName =>
      match expr.value extended with
      | some val =>
        (row.insert aliasName (.computed val), extended.insert aliasName (.computed val))
      | none => (row, extended)) ((∅ : PartialSub N), sub)).1

def bindGroupAliases (sub : PartialSub N) (groupBy : List (ExprEval N × Option String))
    (key : List (Option (GraphElement N))) : PartialSub N :=
  (groupBy.zip key).foldl (fun sub (condition, val) =>
    match condition.2, val with
    | none, _ => sub
    | some aliasName, some v => sub.insert aliasName (.computed v)
    | some aliasName, none => sub.erase aliasName) sub

/-- Put a solution into the group of its key. -/
def addToGroup (key : List (Option (GraphElement N))) (sub : PartialSub N) :
    List (List (Option (GraphElement N)) × List (PartialSub N)) →
      List (List (Option (GraphElement N)) × List (PartialSub N))
  | [] => [(key, [sub])]
  | (k, group) :: groups =>
    if k = key then (k, group ++ [sub]) :: groups else (k, group) :: addToGroup key sub groups

def groupBySolutions (solutions : List (PartialSub N))
    (groupBy : List (ExprEval N × Option String)) : List (List (PartialSub N)) :=
  if groupBy.isEmpty then [solutions]
  else if solutions.isEmpty then [[]]
  else
    (solutions.foldl (fun groups sub =>
      let key := groupBy.map fun condition => condition.1.value sub
      addToGroup key (bindGroupAliases sub groupBy key) groups) []).map Prod.snd

def projectAggregateRow (projection : List (Projected N)) (group : List (PartialSub N)) :
    PartialSub N :=
  let rep := group.head?.getD ∅
  projection.foldl (fun row elem =>
    match elem with
    | .star => row
    | .var v =>
      match rep.lookup v with
      | some val => row.insert v val
      | none => row
    | .expression expr aliasName =>
      match expr.inGroup group rep with
      | some val => row.insert aliasName (.computed val)
      | none => row) (∅ : PartialSub N)

namespace SelectPlan

variable (plan : SelectPlan N)

def aggregateMode : Bool :=
  !plan.groupBy.isEmpty || plan.projection.any (·.hasAggregate)

/-- The rows of the solutions, before the modifiers. -/
def projectRows (solutions : List (PartialSub N)) : List (PartialSub N) :=
  if plan.aggregateMode then
    ((groupBySolutions solutions plan.groupBy).filter fun group =>
      plan.having.all fun expr => (expr.having group (group.head?.getD ∅)).getD false).map
        (projectAggregateRow plan.projection)
  else solutions.map fun sub => projectWithExprsPartial sub plan.projection

/-- The order of two rows by the conditions; an unbound value comes first. -/
def compareRows (lib : Library N) : List (ExprEval N × Bool) → PartialSub N → PartialSub N →
    Ordering
  | [], _, _ => .eq
  | (expr, ascending) :: conditions, a, b =>
    let ord := match expr.value a, expr.value b with
      | some l, some r => lib.compareGraphElementsTotal l r
      | none, some _ => .lt
      | some _, none => .gt
      | none, none => .eq
    if ord = .eq then compareRows lib conditions a b
    else if ascending then ord else ord.swap

def sortSolutions (lib : Library N) (rows : List (PartialSub N))
    (orderBy : List (ExprEval N × Bool)) : List (PartialSub N) :=
  rows.mergeSort fun a b => compareRows lib orderBy a b ≠ .gt

/-- The first of equal rows. -/
def distinctRows (ds : Datastore N) (rows : List (PartialSub N)) : List (PartialSub N) :=
  rows.foldl (pushNew ds) []

def sliceRows (offset limit : Option Nat) (rows : List (PartialSub N)) : List (PartialSub N) :=
  let rows := match offset with
    | some off => rows.drop off
    | none => rows
  match limit with
  | some lim => rows.take lim
  | none => rows

/-- `ORDER BY`, `DISTINCT`, `OFFSET` and `LIMIT`. -/
def applyModifiers (lib : Library N) (ds : Datastore N)
    (rows : List (PartialSub N)) : List (PartialSub N) :=
  let rows := if plan.orderBy.isEmpty then rows else sortSolutions lib rows plan.orderBy
  let rows := if plan.distinct then distinctRows ds rows else rows
  sliceRows plan.offset plan.limit rows

/-- How many solutions are ever used; `none` when a modifier has to see all of them. The sum
saturates in the source. -/
def selectSolutionBudget : Option Nat :=
  match plan.limit with
  | none => none
  | some limit =>
    if plan.distinct || !plan.orderBy.isEmpty || !plan.groupBy.isEmpty then none
    else if plan.projection.any (·.hasAggregate) then none
    else some (plan.offset.getD 0 + limit)

end SelectPlan

/-- The rows of a subquery. -/
def executeSelectInner (lib : Library N) (ds : Datastore N) (ag : ActiveGraph)
    (plan : SelectPlan N) : List (PartialSub N) :=
  plan.applyModifiers lib ds (plan.projectRows
    (evalComponentsBudgeted ds plan.whereClause [∅] ag plan.selectSolutionBudget))

end Select

section Plan

mutual

def evalExpr (ctx : Context N) : Expression N → ExprEval N
  | .var v => .ofVar ctx.store.toDatastore v
  | .constant gel => .ofValue fun _ => some gel
  | .binary left op right => .binary ctx.lib (evalExpr ctx left) op (evalExpr ctx right)
  | .unary op inner => .unary ctx.lib op (evalExpr ctx inner)
  | .functionCall name args => .functionCall ctx.lib name (evalExprs ctx args)
  | .aggregate agg => .aggregate (evalAggregate ctx agg)
  | .exists inner =>
    let components := planComponents ctx inner
    .ofBool fun ag sub =>
      some !(evalComponentsBudgeted ctx.store.toDatastore components [sub] ag (some 1)).isEmpty
  | .notExists inner =>
    let components := planComponents ctx inner
    .ofBool fun ag sub =>
      some (evalComponentsBudgeted ctx.store.toDatastore components [sub] ag (some 1)).isEmpty
  | .isIn expr list => .isIn ctx.lib (evalExpr ctx expr) (evalExprs ctx list)
  | .notIn expr list => .notIn ctx.lib (evalExpr ctx expr) (evalExprs ctx list)

def evalExprs (ctx : Context N) : List (Expression N) → List (ExprEval N)
  | [] => []
  | expr :: exprs => evalExpr ctx expr :: evalExprs ctx exprs

def evalAggregate (ctx : Context N) : Aggregate N → List (PartialSub N) → Option (GraphElement N)
  | .countStar => fun group => some (countLiteral group.length)
  | .count expr distinct => fun group =>
    some (countLiteral (groupValues (evalExpr ctx expr) distinct group).length)
  | .sum expr distinct => fun group =>
    ctx.lib.sumValues (groupValues (evalExpr ctx expr) distinct group)
  | .avg expr distinct => fun group =>
    averageValue ctx.lib (groupValues (evalExpr ctx expr) distinct group)
  | .min expr _ => fun group =>
    extremeValue ctx.lib (fun ord => 0 < ord) (groupValues (evalExpr ctx expr) false group)
  | .max expr _ => fun group =>
    extremeValue ctx.lib (fun ord => ord < 0) (groupValues (evalExpr ctx expr) false group)
  | .sample expr _ => fun group => group.findSome? (evalExpr ctx expr).value
  | .groupConcat expr separator distinct => fun group =>
    some (concatValues ctx.lib separator distinct (groupValues (evalExpr ctx expr) false group))

def evalComponent (ctx : Context N) : QueryComponent N → ComponentEval N
  | .bgp patterns => fun ag budget solutions =>
    evalBgp ctx.store ag patterns solutions budget
  | .pathPattern subject path object => fun ag _ solutions =>
    solutions.flatMap fun sub =>
      (evalPathPattern ctx.store path ag subject object sub ctx.bridge).1
  | .subquery query =>
    let plan := planQuery ctx query
    fun ag _ solutions =>
      match plan with
      | some plan =>
        joinRows ctx.store.toDatastore solutions
          (executeSelectInner ctx.lib ctx.store.toDatastore ag plan)
      | none => joinRows ctx.store.toDatastore solutions []
  | .optional inner =>
    let components := planComponents ctx inner
    fun ag _ solutions => evalOptional ctx.store.toDatastore components solutions ag
  | .union left right =>
    let leftComponents := planComponents ctx left
    let rightComponents := planComponents ctx right
    fun ag _ solutions =>
      evalIndependentThenJoin ctx.store.toDatastore leftComponents solutions ag ++
        evalIndependentThenJoin ctx.store.toDatastore rightComponents solutions ag
  | .filter expr =>
    let expr := evalExpr ctx expr
    fun ag _ solutions => solutions.filter fun sub => (expr.bool ag sub).getD false
  | .bind expr aliasName =>
    let expr := evalExpr ctx expr
    fun _ _ solutions => evalBind expr aliasName solutions
  | .values vars rows => fun _ _ solutions =>
    joinSolutionsWithValues ctx.store.toDatastore solutions vars rows
  | .minus inner =>
    let components := planComponents ctx inner
    fun ag _ solutions => evalMinus ctx.store.toDatastore components solutions ag
  | .graph graphTerm inner =>
    let components := planComponents ctx inner
    fun _ _ solutions => evalGraph ctx.store.toDatastore graphTerm components solutions
  | .service endpoint inner _ => fun _ _ solutions =>
    match ctx.lib.preResolvedServiceResults endpoint inner with
    | some rows => joinRows ctx.store.toDatastore solutions rows
    | none => []
  | .group inner =>
    let components := planComponents ctx inner
    fun ag _ solutions => evalIndependentThenJoin ctx.store.toDatastore components solutions ag

def planComponents (ctx : Context N) : List (QueryComponent N) → List (Planned N)
  | [] => []
  | comp :: comps => (comp, evalComponent ctx comp) :: planComponents ctx comps

def planProjection (ctx : Context N) : List (ProjectionElement N) → List (Projected N)
  | [] => []
  | .star :: elems => .star :: planProjection ctx elems
  | .var v :: elems => .var v :: planProjection ctx elems
  | .expression expr aliasName :: elems =>
    .expression (evalExpr ctx expr) aliasName :: planProjection ctx elems

def planGroupBy (ctx : Context N) : List (GroupCondition N) → List (ExprEval N × Option String)
  | [] => []
  | .mk expr aliasName :: conditions =>
    (evalExpr ctx expr, aliasName) :: planGroupBy ctx conditions

def planOrderBy (ctx : Context N) : List (OrderCondition N) → List (ExprEval N × Bool)
  | [] => []
  | .mk expr ascending :: conditions =>
    (evalExpr ctx expr, ascending) :: planOrderBy ctx conditions

def planQuery (ctx : Context N) : Query N → Option (SelectPlan N)
  | .select projection dataset whereClause groupBy having orderBy limit offset distinct =>
    some {
      projection := planProjection ctx projection
      dataset := dataset
      whereClause := planComponents ctx whereClause
      groupBy := planGroupBy ctx groupBy
      having := evalExprs ctx having
      orderBy := planOrderBy ctx orderBy
      limit := limit
      offset := offset
      distinct := distinct }
  | _ => none

end

end Plan

section Execute

/-- The first `FROM` clause with a known graph names the active graph. -/
def datasetActiveGraph (ds : Datastore N) : List (DatasetClause N) → ActiveGraph
  | [] => .fixed defaultGraphElementId
  | .default gel :: clauses =>
    match ds.resources.resourceMap.lookup gel with
    | some id => .fixed id
    | none => datasetActiveGraph ds clauses
  | .named _ :: clauses => datasetActiveGraph ds clauses

/-- The value as an element; an id that is out of range stays, where the source panics. -/
def PartialSubValue.resolved (ds : Datastore N) (val : PartialSubValue N) : PartialSubValue N :=
  match val.resolve ds with
  | some gel => .computed gel
  | none => val

/-- The row of a result: its values are elements. -/
def resolveRow (ds : Datastore N) (sub : PartialSub N) : PartialSub N where
  entries := sub.entries.map fun entry => ⟨entry.1, entry.2.resolved ds⟩
  nodupKeys := by
    have hkeys : (sub.entries.map fun entry =>
        (⟨entry.1, entry.2.resolved ds⟩ : Sigma fun _ : String => PartialSubValue N)).keys =
          sub.entries.keys := by
      simp [Multiset.keys, Multiset.map_map]
    rw [← Multiset.nodup_keys, hkeys]
    exact sub.nodupKeys.nodup_keys

def executeSelect (ctx : Context N) (plan : SelectPlan N) : List (PartialSub N) :=
  let ds := ctx.store.toDatastore
  let solutions := evalComponentsBudgeted ds plan.whereClause [∅]
    (datasetActiveGraph ds plan.dataset) plan.selectSolutionBudget
  plan.applyModifiers ctx.lib ds ((plan.projectRows solutions).map (resolveRow ds))

def executeAsk (ctx : Context N) (dataset : List (DatasetClause N))
    (whereClause : List (QueryComponent N)) : Bool :=
  let ds := ctx.store.toDatastore
  !(evalComponentsBudgeted ds (planComponents ctx whereClause) [∅] (datasetActiveGraph ds dataset)
    (some 1)).isEmpty

end Execute

end RdfDatalog.Sparql
