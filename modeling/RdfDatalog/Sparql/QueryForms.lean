import RdfDatalog.Sparql.Evaluation

namespace RdfDatalog.Sparql

variable {N : NativeTypes}

structure ResolvedTriple (N : NativeTypes) where
  subject : GraphElement N
  predicate : GraphElement N
  object : GraphElement N
  deriving DecidableEq

/-- The result of a query; the triples of a graph are in no order. -/
inductive QueryResult (N : NativeTypes) where
  | select (vars : List String) (rows : List (PartialSub N))
  | ask (answer : Bool)
  | construct (triples : Finset (ResolvedTriple N))
  | describe (triples : Finset (ResolvedTriple N))

def whereClauseOf : Query N → List (QueryComponent N)
  | .select _ _ whereClause _ _ _ _ _ _ | .ask _ whereClause | .construct _ _ whereClause
  | .describe _ _ whereClause => whereClause

section Variables

/-- Variables that the parser makes up are not shown. -/
def isInternalVariable (v : String) : Bool :=
  "__path_".toList.isPrefixOf v.toList || "__bn_".toList.isPrefixOf v.toList

def collectVarsFromTerm : Term N → List String
  | .var v => if isInternalVariable v then [] else [v]
  | _ => []

def collectVarsFromProjection : List (ProjectionElement N) → List String
  | [] => []
  | .var v :: elems => v :: collectVarsFromProjection elems
  | .expression _ aliasName :: elems => aliasName :: collectVarsFromProjection elems
  | .star :: elems => collectVarsFromProjection elems

mutual

def collectVarsFromComponent : QueryComponent N → List String
  | .bgp patterns => patterns.flatMap fun tp =>
    collectVarsFromTerm tp.subject ++ collectVarsFromTerm tp.predicate ++
      collectVarsFromTerm tp.object
  | .pathPattern subject _ object => collectVarsFromTerm subject ++ collectVarsFromTerm object
  | .subquery (.select projection _ _ _ _ _ _ _ _) => collectVarsFromProjection projection
  | .subquery _ => []
  | .optional inner | .minus inner | .group inner | .service _ inner _ =>
    collectVarsFromComponents inner
  | .union left right => collectVarsFromComponents left ++ collectVarsFromComponents right
  | .graph graphTerm inner => collectVarsFromTerm graphTerm ++ collectVarsFromComponents inner
  | .bind _ aliasName => [aliasName]
  | .filter _ => []
  | .values vars _ => vars.filter fun v => !isInternalVariable v

def collectVarsFromComponents : List (QueryComponent N) → List String
  | [] => []
  | comp :: comps => collectVarsFromComponent comp ++ collectVarsFromComponents comps

end

def isStar : ProjectionElement N → Bool
  | .star => true
  | _ => false

/-- The columns of a SELECT query; `*` stands for the variables of the pattern. -/
def projectionVariables (projection : List (ProjectionElement N))
    (components : List (QueryComponent N)) : List String :=
  if projection.any isStar then
    ((collectVarsFromComponents components).mergeSort fun a b => decide (a ≤ b)).dedup
  else collectVarsFromProjection projection

end Variables

section Graphs

/-- The blank nodes of a template: each solution has its own, numbered across solutions by a
32-bit counter. -/
structure TemplateState where
  bnodeMap : AList fun _ : Nat => Nat
  bnodeCounter : Nat

def bindTemplateTerm (ds : Datastore N) (sub : PartialSub N) (term : Term N) (st : TemplateState) :
    Option (GraphElement N) × TemplateState :=
  match term with
  | .var v => ((sub.lookup v).bind (·.resolve ds), st)
  | .constant (.nodeOrEdge (.anonymousBlankNode origId)) =>
    match st.bnodeMap.lookup origId with
    | some freshId => (some (.nodeOrEdge (.anonymousBlankNode freshId)), st)
    | none => (some (.nodeOrEdge (.anonymousBlankNode st.bnodeCounter)),
        ⟨st.bnodeMap.insert origId st.bnodeCounter, (st.bnodeCounter + 1) % 2 ^ 32⟩)
  | .constant gel => (some gel, st)
  | .tripleTerm _ _ _ => (none, st)

def isLiteralElement : GraphElement N → Bool
  | .graphLiteral _ => true
  | _ => false

def isIriElement : GraphElement N → Bool
  | .nodeOrEdge (.iri _) => true
  | _ => false

/-- A triple of the template, if it is bound and is one. -/
def instantiateTriple (ds : Datastore N) (sub : PartialSub N) (tp : TriplePattern N)
    (st : TemplateState) : Option (ResolvedTriple N) × TemplateState :=
  let (s, st) := bindTemplateTerm ds sub tp.subject st
  let (p, st) := bindTemplateTerm ds sub tp.predicate st
  let (o, st) := bindTemplateTerm ds sub tp.object st
  match s, p, o with
  | some s, some p, some o =>
    (if !isLiteralElement s && isIriElement p then some ⟨s, p, o⟩ else none, st)
  | _, _, _ => (none, st)

def insertTriple (output : Finset (ResolvedTriple N)) :
    Option (ResolvedTriple N) → Finset (ResolvedTriple N)
  | some triple => insert triple output
  | none => output

def constructTriples (ds : Datastore N) (template : List (TriplePattern N))
    (solutions : List (PartialSub N)) : Finset (ResolvedTriple N) :=
  (solutions.foldl (fun (output, bnodeCounter) sub =>
    let (output, st) := template.foldl (fun (output, st) tp =>
      let (triple, st) := instantiateTriple ds sub tp st
      (insertTriple output triple, st)) (output, ⟨∅, bnodeCounter⟩)
    (output, st.bnodeCounter)) ((∅ : Finset (ResolvedTriple N)), 0)).1

mutual

/-- The patterns of `CONSTRUCT WHERE`. -/
def collectBgpsFromComponent : QueryComponent N → List (TriplePattern N)
  | .bgp patterns => patterns
  | .optional inner | .minus inner | .group inner | .graph _ inner =>
    collectBgpsFromComponents inner
  | .union left right => collectBgpsFromComponents left ++ collectBgpsFromComponents right
  | .pathPattern _ _ _ | .subquery _ | .filter _ | .bind _ _ | .values _ _ | .service _ _ _ => []

def collectBgpsFromComponents : List (QueryComponent N) → List (TriplePattern N)
  | [] => []
  | comp :: comps => collectBgpsFromComponent comp ++ collectBgpsFromComponents comps

end

def describeElement (ds : Datastore N) (gel : GraphElement N) : List (ResolvedTriple N) :=
  match ds.resources.resourceMap.lookup gel with
  | none => []
  | some subjectId =>
    (ds.namedGraphs.table.getQuadsWithSubject subjectId).filterMap fun quad => do
      return ⟨← ds.resources.getGraphElement quad.subject,
        ← ds.resources.getGraphElement quad.predicate, ← ds.resources.getGraphElement quad.obj⟩

def describeTriples (ds : Datastore N) (resources : List (Term N))
    (solutions : List (PartialSub N)) : Finset (ResolvedTriple N) :=
  (solutions.map fun sub =>
    if resources.isEmpty then
      sub.keys.biUnion fun v =>
        (((sub.lookup v).bind (·.resolve ds)).toList.flatMap (describeElement ds)).toFinset
    else ((resources.filterMap (resolveTermToGel ds sub)).flatMap (describeElement ds)).toFinset)
    |>.foldl (· ∪ ·) ∅

end Graphs

/-- The result of a query, once the network policy has let it pass. -/
def evaluateQuery (ctx : Context N) (query : Query N) : QueryResult N :=
  let ds := ctx.store.toDatastore
  match query with
  | .select projection dataset whereClause groupBy having orderBy limit offset distinct =>
    .select (projectionVariables projection whereClause)
      (executeSelect ctx {
        projection := planProjection ctx projection
        dataset := dataset
        whereClause := planComponents ctx whereClause
        groupBy := planGroupBy ctx groupBy
        having := evalExprs ctx having
        orderBy := planOrderBy ctx orderBy
        limit := limit
        offset := offset
        distinct := distinct })
  | .ask dataset whereClause => .ask (executeAsk ctx dataset whereClause)
  | .describe resources dataset whereClause =>
    .describe (describeTriples ds resources
      (evalComponents ds (planComponents ctx whereClause) [∅] (datasetActiveGraph ds dataset)))
  | .construct template dataset whereClause =>
    .construct (constructTriples ds
      (if template.isEmpty then collectBgpsFromComponents whereClause else template)
      (evalComponents ds (planComponents ctx whereClause) [∅] (datasetActiveGraph ds dataset)))

end RdfDatalog.Sparql
