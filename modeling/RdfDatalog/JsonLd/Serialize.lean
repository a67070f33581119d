import RdfDatalog.JsonLd.Parser
import RdfDatalog.Store.QuadsMatching

namespace RdfDatalog.JsonLd

variable {N : NativeTypes}

/-- How the serialiser prints values: `to_string`, for a time stamp RFC 3339, for a duration the
text for debugging. -/
structure PrintedValues (N : NativeTypes) where
  decimal : N.Decimal → String
  float : N.Float → String
  dateTime : N.DateTime → String
  date : N.Date → String
  time : N.Time → String
  duration : N.Duration → String

/-- The orders in which the hash maps of the serialiser are iterated: graphs, the subjects of a
graph, and the predicates of a subject. -/
structure GroupOrder where
  graphs : List GraphElementId → List GraphElementId
  subjects : GraphElementId → List GraphElementId → List GraphElementId
  predicates : GraphElementId → GraphElementId → List GraphElementId → List GraphElementId
  graphs_perm : ∀ l, (graphs l).Perm l
  subjects_perm : ∀ g l, (subjects g l).Perm l
  predicates_perm : ∀ g s l, (predicates g s l).Perm l

inductive Form where
  | compacted
  | expanded
  | flattened
  deriving DecidableEq

variable (printed : PrintedValues N)

def valueObject (text : String) (key : String) (tag : String) : Value :=
  .object (SortedFields.ofEntries [("@value", .string text), (key, .string tag)])

def literalToValue : RdfLiteral N → Value
  | .literalString s => .object [("@value", .string s)]
  | .langLiteral lang literal => valueObject literal "@language" lang
  | .typedLiteral typeIri literal => valueObject literal "@type" typeIri
  | .booleanLiteral b => valueObject (toString b) "@type" xsdBoolean
  | .integerLiteral n => valueObject (toString n) "@type" xsdInteger
  | .decimalLiteral d => valueObject (printed.decimal d) "@type" xsdDecimal
  | .floatLiteral f | .doubleLiteral f => valueObject (printed.float f) "@type" xsdDouble
  | .dateTimeLiteral dt => valueObject (printed.dateTime dt) "@type" xsdDateTime
  | .dateLiteral d => valueObject (printed.date d) "@type" xsdDate
  | .timeLiteral t => valueObject (printed.time t) "@type" xsdTime
  | .durationLiteral d => .object [("@value", .string (printed.duration d))]

/-- The `@id` of a node; a literal or a triple term has none. -/
def idText : GraphElement N → Option String
  | .nodeOrEdge (.iri i) => some i
  | .nodeOrEdge (.anonymousBlankNode n) => some ("_:b" ++ toString n)
  | _ => none

def elementToValue (e : GraphElement N) : Option Value :=
  match e with
  | .graphLiteral l => some (literalToValue printed l)
  | e => (idText e).map fun id => .object [("@id", .string id)]

variable (order : GroupOrder) (ds : Datastore N)

/-- The value of an object; none too where the source panics, on an id that is not interned. -/
def objectValue (id : GraphElementId) : Option Value :=
  (ds.resources.getGraphElement id).bind (elementToValue printed)

/-- The values of `@type`: only IRIs. -/
def typeValues (quads : List Quad) (preds : List GraphElementId) : List Value :=
  (preds.filter fun p => ds.resources.getNamedResource p = some rdfType).flatMap fun p =>
    ((quads.filter fun q => q.predicate = p).filterMap fun q =>
      ds.resources.getNamedResource q.obj).map Value.string

/-- The entry of a predicate, unless it is `rdf:type`, no IRI or without values. -/
def predicateEntry (quads : List Quad) (p : GraphElementId) : Option (String × Value) :=
  match ds.resources.getNamedResource p with
  | none => none
  | some iri =>
    if iri = rdfType then none
    else
      let values := (quads.filter fun q => q.predicate = p).filterMap fun q =>
        objectValue printed ds q.obj
      if values.isEmpty then none else some (iri, .array values)

/-- The node object of a subject; none if it has no `@id`. -/
def buildNode (g subject : GraphElementId) (quads : List Quad) : Option Value :=
  match (ds.resources.getGraphElement subject).bind idText with
  | none => none
  | some id =>
    let preds := order.predicates g subject (quads.map Quad.predicate).dedup
    let types := typeValues ds quads preds
    let typeEntry := if types.isEmpty then [] else [("@type", Value.array types)]
    some (.object (SortedFields.ofEntries
      (("@id", .string id) :: typeEntry ++ preds.filterMap (predicateEntry printed ds quads))))

def buildSubjectNodes (g : GraphElementId) (quads : List Quad) : List Value :=
  (order.subjects g (quads.map Quad.subject).dedup).filterMap fun s =>
    buildNode printed order ds g s (quads.filter fun q => q.subject = s)

/-- The node objects of a named graph: at the level of the others, or wrapped. -/
def graphNodes (flatten : Bool) (g : GraphElementId) (quads : List Quad) : List Value :=
  let inner := buildSubjectNodes printed order ds g quads
  if flatten then inner
  else
    match ds.resources.getNamedResource g with
    | none => []
    | some iri =>
      [.object (SortedFields.ofEntries [("@id", .string iri), ("@graph", .array inner)])]

def buildAllNodes (flatten : Bool) : List Value :=
  let all := ds.namedGraphs.quadsMatching none none none none
  let named := all.filter fun q => q.tripleId ≠ defaultGraphElementId
  buildSubjectNodes printed order ds defaultGraphElementId
      (all.filter fun q => q.tripleId = defaultGraphElementId) ++
    (order.graphs (named.map Quad.tripleId).dedup).flatMap fun g =>
      graphNodes printed order ds flatten g (named.filter fun q => q.tripleId = g)

def document : Form → Value
  | .compacted =>
    .object (SortedFields.ofEntries
      [("@context", .object []), ("@graph", .array (buildAllNodes printed order ds false))])
  | .expanded => .array (buildAllNodes printed order ds false)
  | .flattened => .object [("@graph", .array (buildAllNodes printed order ds true))]

/-- `serialize_jsonld`, `serialize_jsonld_expanded` and `serialize_jsonld_flattened`. -/
def serialize (env : ParserEnv) (form : Form) : String := env.print (document printed order ds form)

end RdfDatalog.JsonLd
