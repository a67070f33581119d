import RdfDatalog.Sparql.QueryForms

namespace RdfDatalog.Sparql

variable {N : NativeTypes}

/-- The endpoint of a SERVICE call and the text that is sent to it. -/
structure ServiceKey where
  endpoint : String
  body : String
  deriving DecidableEq

/-- A row as an endpoint returned it. -/
abbrev SolutionRow (N : NativeTypes) := Finmap fun _ : String => GraphElement N

/-- The rows by the calls they were fetched for. -/
abbrev ServiceResults (N : NativeTypes) := AList fun _ : ServiceKey => List (SolutionRow N)

inductive NetworkPolicy where
  | deny
  | ignore
  | allow
  | allowList (allowed : List String)

/-- The policies under which SERVICE calls are fetched. -/
def NetworkPolicy.fetches : NetworkPolicy → Bool
  | allow | allowList _ => true
  | deny | ignore => false

inductive FetchFailure where
  | timeout
  | other (reason : String)

inductive ExecError where
  | serviceDenied (endpoint : String)
  | serviceNotImplemented
  | serviceFetchFailed (endpoint reason : String)
  | timeout

/-- The printers: of the body of a SERVICE, and of a term in an error. -/
structure FederationEnv (N : NativeTypes) where
  serviceBodyToSparqlText : List (QueryComponent N) → String
  debugTerm : Term N → String

structure ServiceNode (N : NativeTypes) where
  endpoint : Term N
  inner : List (QueryComponent N)
  silent : Bool

/-- `none` unless the endpoint is an IRI. -/
def serviceKey (env : FederationEnv N) (endpoint : Term N) (inner : List (QueryComponent N)) :
    Option ServiceKey :=
  match endpoint with
  | .constant (.nodeOrEdge (.iri iri)) => some ⟨iri, env.serviceBodyToSparqlText inner⟩
  | _ => none

def ServiceNode.key (env : FederationEnv N) (node : ServiceNode N) : Option ServiceKey :=
  serviceKey env node.endpoint node.inner

section Walk

mutual

def collectFromComponent : QueryComponent N → List (ServiceNode N)
  | .service endpoint inner silent => [⟨endpoint, inner, silent⟩]
  | .optional inner | .minus inner | .group inner | .graph _ inner => collectServiceNodes inner
  | .union left right => collectServiceNodes left ++ collectServiceNodes right
  | .subquery query => collectFromQuery query
  | .bgp _ | .pathPattern _ _ _ | .filter _ | .bind _ _ | .values _ _ => []

/-- The SERVICE components of a pattern, those in expressions and in other SERVICE bodies left
out. -/
def collectServiceNodes : List (QueryComponent N) → List (ServiceNode N)
  | [] => []
  | comp :: comps => collectFromComponent comp ++ collectServiceNodes comps

/-- Those of the pattern of a query. -/
def collectFromQuery : Query N → List (ServiceNode N)
  | .select _ _ whereClause _ _ _ _ _ _ | .ask _ whereClause | .construct _ _ whereClause
  | .describe _ _ whereClause => collectServiceNodes whereClause

end

/-- The calls that can be fetched before the query runs, and whether they are SILENT. -/
def collectServiceCalls (env : FederationEnv N) (components : List (QueryComponent N)) :
    List (ServiceKey × Bool) :=
  (collectServiceNodes components).filterMap fun node =>
    (node.key env).map fun key => (key, node.silent)

end Walk

section PreResolution

def mergeCall (byKey : AList fun _ : ServiceKey => Bool) (call : ServiceKey × Bool) :
    AList fun _ : ServiceKey => Bool :=
  match byKey.lookup call.1 with
  | some allSilent => byKey.insert call.1 (allSilent && call.2)
  | none => byKey.insert call.1 call.2

/-- Each call once. -/
def mergeCalls (calls : List (ServiceKey × Bool)) : AList fun _ : ServiceKey => Bool :=
  calls.foldl mergeCall ∅

/-- The entries of a hash map, in the order in which it gives them. -/
def Enumerates (byKey : AList fun _ : ServiceKey => Bool) (handles : List (ServiceKey × Bool)) :
    Prop :=
  ∀ key silent, (key, silent) ∈ handles ↔ byKey.lookup key = some silent

/-- The outcome of each call. -/
def preResolveServices (fetch : ServiceKey → Except FetchFailure (List (SolutionRow N)))
    (handles : List (ServiceKey × Bool)) :
    List (ServiceKey × Bool × Except FetchFailure (List (SolutionRow N))) :=
  handles.map fun handle => (handle.1, handle.2, fetch handle.1)

def ExecError.ofFailure (key : ServiceKey) : FetchFailure → ExecError
  | .timeout => timeout
  | .other reason => serviceFetchFailed key.endpoint reason

/-- The fetched rows; a SILENT call that failed has none. -/
def collectOrFirstError :
    List (ServiceKey × Bool × Except FetchFailure (List (SolutionRow N))) → ServiceResults N →
      Except ExecError (ServiceResults N)
  | [], map => .ok map
  | (key, _, .ok rows) :: results, map => collectOrFirstError results (map.insert key rows)
  | (key, silent, .error failure) :: results, map =>
    if silent then collectOrFirstError results map else .error (.ofFailure key failure)

end PreResolution

section Execution

/-- The values of a row of a result, as bindings. -/
def solutionRowToPartial (row : SolutionRow N) : PartialSub N where
  entries := row.entries.map fun entry => ⟨entry.1, .computed entry.2⟩
  nodupKeys := by
    have hkeys : (row.entries.map fun entry =>
        (⟨entry.1, .computed entry.2⟩ : Sigma fun _ : String => PartialSubValue N)).keys =
          row.entries.keys := by
      simp [Multiset.keys, Multiset.map_map]
    rw [← Multiset.nodup_keys, hkeys]
    exact row.nodupKeys.nodup_keys

/-- The evaluation with the pre-resolved rows installed. -/
def Context.withServices (ctx : Context N) (env : FederationEnv N) (results : ServiceResults N) :
    Context N :=
  { ctx with
    lib := { ctx.lib with
      preResolvedServiceResults := fun endpoint inner =>
        ((serviceKey env endpoint inner).bind results.lookup).map fun rows =>
          rows.map solutionRowToPartial } }

/-- What the network policy says about a query, before it is evaluated. -/
def checkNetworkPolicy (env : FederationEnv N) (network : NetworkPolicy)
    (results : ServiceResults N) (whereClause : List (QueryComponent N)) :
    Except ExecError Unit :=
  let nodes := collectServiceNodes whereClause
  match network with
  | .deny =>
    match nodes.find? fun node => !node.silent with
    | some node => .error (.serviceDenied (env.debugTerm node.endpoint))
    | none => .ok ()
  | .ignore => .ok ()
  | .allow | .allowList _ =>
    if nodes.all fun node => node.silent || ((node.key env).bind results.lookup).isSome then .ok ()
    else .error .serviceNotImplemented

/-- Deadlines are left out: past one the result is an error. -/
def executeInner (env : FederationEnv N) (ctx : Context N) (network : NetworkPolicy)
    (results : ServiceResults N) (query : Query N) : Except ExecError (QueryResult N) := do
  checkNetworkPolicy env network results (whereClauseOf query)
  return evaluateQuery (ctx.withServices env results) query

end Execution

end RdfDatalog.Sparql

namespace RdfDatalog.Sparql

variable {N : NativeTypes}

section Occurrences

mutual

/-- The SERVICE components of a component at any position, those in other SERVICE bodies left
out. -/
def componentServices : QueryComponent N → List (ServiceNode N)
  | .service endpoint inner silent => [⟨endpoint, inner, silent⟩]
  | .optional inner | .minus inner | .group inner | .graph _ inner => patternServices inner
  | .union left right => patternServices left ++ patternServices right
  | .subquery query => queryServices query
  | .filter expr | .bind expr _ => expressionServices expr
  | .bgp _ | .pathPattern _ _ _ | .values _ _ => []

def patternServices : List (QueryComponent N) → List (ServiceNode N)
  | [] => []
  | comp :: comps => componentServices comp ++ patternServices comps

def expressionServices : Expression N → List (ServiceNode N)
  | .var _ | .constant _ => []
  | .binary left _ right => expressionServices left ++ expressionServices right
  | .unary _ inner => expressionServices inner
  | .functionCall _ args => expressionListServices args
  | .aggregate agg => aggregateServices agg
  | .exists inner | .notExists inner => patternServices inner
  | .isIn expr list | .notIn expr list => expressionServices expr ++ expressionListServices list

def expressionListServices : List (Expression N) → List (ServiceNode N)
  | [] => []
  | expr :: exprs => expressionServices expr ++ expressionListServices exprs

def aggregateServices : Aggregate N → List (ServiceNode N)
  | .countStar => []
  | .count expr _ | .sum expr _ | .avg expr _ | .min expr _ | .max expr _ | .sample expr _
  | .groupConcat expr _ _ => expressionServices expr

def projectionServices : List (ProjectionElement N) → List (ServiceNode N)
  | [] => []
  | .star :: elems | .var _ :: elems => projectionServices elems
  | .expression expr _ :: elems => expressionServices expr ++ projectionServices elems

def groupByServices : List (GroupCondition N) → List (ServiceNode N)
  | [] => []
  | .mk expr _ :: conditions => expressionServices expr ++ groupByServices conditions

def orderByServices : List (OrderCondition N) → List (ServiceNode N)
  | [] => []
  | .mk expr _ :: conditions => expressionServices expr ++ orderByServices conditions

def queryServices : Query N → List (ServiceNode N)
  | .select projection _ whereClause groupBy having orderBy _ _ _ =>
    patternServices whereClause ++ projectionServices projection ++ groupByServices groupBy ++
      expressionListServices having ++ orderByServices orderBy
  | .ask _ whereClause | .construct _ _ whereClause | .describe _ _ whereClause =>
    patternServices whereClause

end

end Occurrences

section Dependence

/-- The rows for the SERVICE components, by endpoint and body. -/
abbrev ServiceRows (N : NativeTypes) :=
  Term N → List (QueryComponent N) → Option (List (PartialSub N))

/-- The evaluation with other rows for the SERVICE components. -/
def Context.withLookup (ctx : Context N) (f : ServiceRows N) : Context N :=
  { ctx with lib := { ctx.lib with preResolvedServiceResults := f } }

def joinedRows (f : ServiceRows N) (node : ServiceNode N) : List (PartialSub N) :=
  (f node.endpoint node.inner).getD []

/-- Which SERVICE components the evaluation of a query reaches, by the rows it is given for them:
the result depends on no others. -/
structure Reach (ctx : Context N) (query : Query N) where
  reached : ServiceRows N → Term N → List (QueryComponent N) → Prop
  determines (f g : ServiceRows N) :
    (∀ endpoint inner, reached f endpoint inner → g endpoint inner = f endpoint inner) →
      evaluateQuery (ctx.withLookup g) query = evaluateQuery (ctx.withLookup f) query

/-- Every component counts as reached. -/
instance (ctx : Context N) (query : Query N) : Inhabited (Reach ctx query) where
  default := {
    reached := fun _ _ _ => True
    determines := fun f g h => by
      have hsame : g = f := funext₂ fun endpoint inner => h endpoint inner trivial
      rw [hsame] }

theorem joinRows_nil (ds : Datastore N) (outer : List (PartialSub N)) :
    joinRows ds outer [] = [] := by
  simp [joinRows]

theorem evalComponent_service (ctx : Context N) (node : ServiceNode N) (ag : ActiveGraph)
    (budget : Option Nat) (solutions : List (PartialSub N)) :
    evalComponent ctx (.service node.endpoint node.inner node.silent) ag budget solutions =
      joinRows ctx.store.toDatastore solutions
        (joinedRows ctx.lib.preResolvedServiceResults node) := by
  rw [evalComponent, joinedRows]
  cases ctx.lib.preResolvedServiceResults node.endpoint node.inner with
  | none => exact (joinRows_nil _ _).symm
  | some rows => rfl

end Dependence

end RdfDatalog.Sparql
