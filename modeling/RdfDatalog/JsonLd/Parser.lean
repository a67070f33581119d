import RdfDatalog.JsonLd.Context

namespace RdfDatalog.JsonLd

open Endpoint

variable {N : NativeTypes}

def rdfType : String := "http://www.w3.org/1999/02/22-rdf-syntax-ns#type"
def rdfFirst : String := "http://www.w3.org/1999/02/22-rdf-syntax-ns#first"
def rdfRest : String := "http://www.w3.org/1999/02/22-rdf-syntax-ns#rest"
def rdfNil : String := "http://www.w3.org/1999/02/22-rdf-syntax-ns#nil"
def rdfJson : String := "http://www.w3.org/1999/02/22-rdf-syntax-ns#JSON"

section Helpers

def internIri (ds : Datastore N) (iri : String) : Datastore N × GraphElementId :=
  ds.addResource (.iri iri)

def addLiteral (ds : Datastore N) (l : RdfLiteral N) : Datastore N × GraphElementId :=
  ds.addResource (.graphLiteral l)

def newAnonymousBlankNode (ds : Datastore N) : Datastore N × GraphElementId :=
  let (resources, id) := ds.resources.createUnnamedAnonResource
  ({ ds with resources }, id)

def isBlankNodeId (s : String) : Bool := "_:".toList.isPrefixOf s.toList

/-- The same node for the same label. -/
def internBlankNode (ds : Datastore N) (id : String) : Datastore N × GraphElementId :=
  let label := if isBlankNodeId id then String.ofList (id.toList.drop 2) else id
  let (resources, node) := ds.resources.getOrCreateNamedAnonResource label
  ({ ds with resources }, node)

/-- Add a triple to a graph: to the default one, if there is none. -/
def addToGraph (ds : Datastore N) (graph : Option GraphElementId)
    (subject predicate obj : GraphElementId) : Datastore N :=
  ds.addQuad ⟨graph.getD defaultGraphElementId, subject, predicate, obj⟩

def iterStringOrArray : Value → List String
  | .string s => [s]
  | .array items => items.filterMap Value.asStr
  | _ => []

variable (env : ParserEnv)

def jsonStr : Value → String
  | .string s => s
  | other => env.print other

/-- The first alias of a keyword that the hash map comes to. -/
def keywordAlias (ctx : Context) (keyword : String) : Option String :=
  ((env.iterate ctx.terms).find? fun d => d.2.id = keyword).map Prod.fst

def emitTypeTriple (ctx : Context) (graph : Option GraphElementId) (subject typeId : GraphElementId)
    (ds : Datastore N) (typeStr : String) : Datastore N :=
  let expanded := (ctx.expandTerm env typeStr).getD typeStr
  if isAbsoluteIri env expanded then
    let (ds, obj) := internIri ds expanded
    addToGraph ds graph subject typeId obj
  else ds

/-- One type triple for each string; what is not an absolute IRI is left out. -/
def emitTypeTriples (ds : Datastore N) (ctx : Context) (graph : Option GraphElementId)
    (subject : GraphElementId) (typeVal : Value) : Datastore N :=
  let (ds, typeId) := internIri ds rdfType
  (iterStringOrArray typeVal).foldl (emitTypeTriple env ctx graph subject typeId) ds

/-- The node that a string stands for where it is taken for a reference. -/
def internRef (ds : Datastore N) (ctx : Context) (s : String) : Datastore N × GraphElementId :=
  if isBlankNodeId s then internBlankNode ds s
  else internIri ds ((ctx.expandTerm env s).getD (resolveIri env s ctx.base))

/-- The same where a relative IRI stays as it is. -/
def internName (ds : Datastore N) (ctx : Context) (s : String) : Datastore N × GraphElementId :=
  if isBlankNodeId s then internBlankNode ds s
  else internIri ds ((ctx.expandTerm env s).getD s)

/-- The node that the value of a reversed property stands for. Its own properties are not read. -/
def valueToId (ds : Datastore N) (ctx : Context) : Value → Datastore N × GraphElementId
  | .object map =>
    match map.lookup "@id" with
    | some (.string iri) => internName env ds ctx iri
    | _ => newAnonymousBlankNode ds
  | .string s => internName env ds ctx s
  | _ => newAnonymousBlankNode ds

/-- The literal of a string that is given as it is. -/
def coercedLiteral (ctx : Context) (s : String) : TypeCoercion → RdfLiteral N
  | .datatype datatype => .typedLiteral datatype s
  | .json => .typedLiteral rdfJson (env.print (.string s))
  | _ =>
    match ctx.language with
    | some lang => .langLiteral lang s
    | none => .literalString s

def valueLiteral (ctx : Context) (inner : Value) (langVal typeVal : Option Value) : RdfLiteral N :=
  match langVal, typeVal with
  | some (.string lang), _ => .langLiteral lang (jsonStr env inner)
  | _, some (.string typeIri) =>
    let expandedType := (ctx.expandTerm env typeIri).getD typeIri
    if expandedType = rdfJson ∨ typeIri = "@json" then .typedLiteral rdfJson (env.print inner)
    else .typedLiteral expandedType (jsonStr env inner)
  | _, _ => .literalString (jsonStr env inner)

def propertyIri (ctx : Context) (key : String) : Option String :=
  match ctx.expandTerm env key with
  | some iri =>
    if isAbsoluteIri env iri then some iri
    else if isAbsoluteIri env key then some key
    else none
  | none => if isAbsoluteIri env key then some key else none

def addLanguageMap (ds : Datastore N) (graph : Option GraphElementId)
    (subject pred : GraphElementId) (langMap : List (String × Value)) : Datastore N :=
  langMap.foldl (fun ds entry =>
    (iterStringOrArray entry.2).foldl (fun ds s =>
      let (ds, obj) := addLiteral ds (.langLiteral entry.1 s)
      addToGraph ds graph subject pred obj) ds) ds

/-- The `@id` of a node, or that of an alias. -/
def nodeIdString (ctx : Context) (map : List (String × Value)) : Option String :=
  match (map.lookup "@id").bind Value.asStr with
  | some s => some s
  | none => (keywordAlias env ctx "@id").bind fun a => (map.lookup a).bind Value.asStr

def nodeSubject (ds : Datastore N) (ctx : Context) : Option String → Datastore N × GraphElementId
  | none => newAnonymousBlankNode ds
  | some iri =>
    if isBlankNodeId iri then internBlankNode ds iri
    else
      let expanded := ((ctx.expandTerm env iri).filter (isAbsoluteIri env)).getD
        (resolveIri env iri ctx.base)
      internIri ds expanded

/-- The contexts that the types of a node bring with them. -/
def typeScoped (ctx : Context) (map : List (String × Value)) : Except String Context :=
  match (map.lookup "@type").or ((keywordAlias env ctx "@type").bind fun a => map.lookup a) with
  | none => .ok ctx
  | some typeVal =>
    (iterStringOrArray typeVal).foldlM (fun merged typeStr =>
      match ctx.terms.lookup typeStr with
      | none => .ok merged
      | some d => extendBy env merged d.scopedContext) ctx

/-- The nodes of reversed properties are subjects. -/
def addReverse (ds : Datastore N) (ctx : Context) (graph : Option GraphElementId)
    (subject : GraphElementId) : Value → Datastore N
  | .object revMap =>
    revMap.foldl (fun ds entry =>
      match (ctx.expandTerm env entry.1).or
          (if isAbsoluteIri env entry.1 then some entry.1 else none) with
      | none => ds
      | some predIri =>
        let (ds, pred) := internIri ds predIri
        entry.2.items.foldl (fun ds item =>
          let (ds, revSubj) := valueToId env ds ctx item
          addToGraph ds graph revSubj pred subject) ds) ds
  | _ => ds

end Helpers

section Process

variable (env : ParserEnv)

/-- The functions that call each other on nested values, at one level of nesting: for a document,
for a node object and for a value of a property. -/
structure Handlers (N : NativeTypes) where
  document : Context → Option GraphElementId → Datastore N → Value → Except String (Datastore N)
  node : Context → Option GraphElementId → Datastore N → List (String × Value) →
    Except String (Datastore N × GraphElementId)
  value : Context → Option GraphElementId → GraphElementId → GraphElementId → TypeCoercion →
    Datastore N → Value → Except String (Datastore N)

def markLast {α : Type} : List α → List (α × Bool)
  | [] => []
  | [item] => [(item, true)]
  | item :: items => (item, false) :: markLast items

section Level

variable (nested : Handlers N) (ctx : Context) (graph : Option GraphElementId)

/-- A node object with a context of its own. -/
def processWithContext (ds : Datastore N) (map : List (String × Value)) :
    Except String (Datastore N × GraphElementId) :=
  match extendBy env ctx (map.lookup "@context") with
  | .error e => .error e
  | .ok ctx => nested.node ctx graph ds map

def processDocument (ds : Datastore N) : Value → Except String (Datastore N)
  | .array items => items.foldlM (nested.document ctx graph) ds
  | .object map => (processWithContext env nested ctx graph ds map).map Prod.fst
  | _ => .ok ds

def processGraphItem (ds : Datastore N) : Value → Except String (Datastore N)
  | .object map => (processWithContext env nested ctx graph ds map).map Prod.fst
  | _ => .ok ds

def processNodeValue (ds : Datastore N) : Value → Except String (Datastore N × GraphElementId)
  | .object map => processWithContext env nested ctx graph ds map
  | .string s => .ok (internName env ds ctx s)
  | other => .error ("expected node object, got " ++ env.print other)

variable (subject pred : GraphElementId)

/-- The triple whose object is a nested node. -/
def addNode (ds : Datastore N) (value : Value) : Except String (Datastore N) :=
  match processNodeValue env nested ctx graph ds value with
  | .error e => .error e
  | .ok (ds, obj) => .ok (addToGraph ds graph subject pred obj)

/-- One item of a list, at the node that is the rest of what comes before. -/
def processListItem (first rest nil : GraphElementId) (acc : Datastore N × GraphElementId)
    (item : Value × Bool) : Except String (Datastore N × GraphElementId) :=
  match nested.value ctx graph acc.2 first .none acc.1 item.1 with
  | .error e => .error e
  | .ok ds =>
    let (ds, next) := if item.2 then (ds, nil) else newAnonymousBlankNode ds
    .ok (addToGraph ds graph acc.2 rest next, next)

/-- A list as a chain of nodes. The items are not coerced. -/
def processList (ds : Datastore N) (listVal : Value) : Except String (Datastore N) :=
  let (ds, first) := internIri ds rdfFirst
  let (ds, rest) := internIri ds rdfRest
  let (ds, nil) := internIri ds rdfNil
  if listVal.items.isEmpty then .ok (addToGraph ds graph subject pred nil)
  else
    let (ds, head) := newAnonymousBlankNode ds
    let ds := addToGraph ds graph subject pred head
    ((markLast listVal.items).foldlM (processListItem nested ctx graph first rest nil)
      (ds, head)).map Prod.fst

/-- A value object: a node if it has an `@id` or no value. -/
def addObject (ds : Datastore N) (map : List (String × Value)) : Except String (Datastore N) :=
  match map.lookup "@list" with
  | some listVal => processList nested ctx graph subject pred ds listVal
  | none =>
    let valueKey := (keywordAlias env ctx "@value").getD "@value"
    let langKey := (keywordAlias env ctx "@language").getD "@language"
    let typeKey := (keywordAlias env ctx "@type").getD "@type"
    match (map.lookup "@id").bind Value.asStr with
    | some iri =>
      if map.length = 1 then
        let (ds, obj) := internRef env ds ctx iri
        .ok (addToGraph ds graph subject pred obj)
      else addNode env nested ctx graph subject pred ds (.object map)
    | none =>
      match map.lookup valueKey with
      | some inner =>
        let literal := valueLiteral env ctx inner
          ((map.lookup langKey).or (map.lookup "@language"))
          ((map.lookup typeKey).or (map.lookup "@type"))
        let (ds, obj) := addLiteral ds literal
        .ok (addToGraph ds graph subject pred obj)
      | none => addNode env nested ctx graph subject pred ds (.object map)

def addValueToGraph (coercion : TypeCoercion) (ds : Datastore N) (value : Value) :
    Except String (Datastore N) :=
  if coercion = .json then
    let (ds, obj) := addLiteral ds (.typedLiteral rdfJson (env.print value))
    .ok (addToGraph ds graph subject pred obj)
  else
    match value with
    | .string s =>
      let (ds, obj) := if coercion = .id then internRef env ds ctx s
        else addLiteral ds (coercedLiteral env ctx s coercion)
      .ok (addToGraph ds graph subject pred obj)
    | .number text =>
      let (ds, obj) := addLiteral ds (.literalString text)
      .ok (addToGraph ds graph subject pred obj)
    | .bool b =>
      let (ds, obj) := addLiteral ds (.literalString (toString b))
      .ok (addToGraph ds graph subject pred obj)
    | .array items => items.foldlM (nested.value ctx graph subject pred coercion) ds
    | .object map => addObject env nested ctx graph subject pred ds map
    | .null => .ok ds

def processIdEntry (ds : Datastore N) (entry : String × Value) : Except String (Datastore N) :=
  match entry.2 with
  | .object node =>
    let node := if (node.lookup "@id").isSome then node
      else SortedFields.insert "@id" (.string entry.1) node
    addNode env nested ctx graph subject pred ds (.object node)
  | _ => .ok ds

/-- The type triple that a type map adds to what the node itself says. -/
def addMapType (typeId : GraphElementId) (typeIri : String) (node : List (String × Value))
    (ds : Datastore N) : Datastore N :=
  match (node.lookup "@id").bind Value.asStr with
  | none => ds
  | some idStr =>
    if isAbsoluteIri env typeIri then
      let (ds, typeNode) := internIri ds typeIri
      let expanded := (ctx.expandTerm env idStr).getD idStr
      if isAbsoluteIri env expanded then
        let (ds, nodeSubj) := internIri ds expanded
        addToGraph ds graph nodeSubj typeId typeNode
      else ds
    else ds

def processTypedNode (typeId : GraphElementId) (typeIri : String) (ds : Datastore N) :
    Value → Except String (Datastore N)
  | .object node =>
    let typed := if (node.lookup "@type").isSome then node
      else SortedFields.insert "@type" (.string typeIri) node
    (addNode env nested ctx graph subject pred ds (.object typed)).map
      (addMapType env ctx graph typeId typeIri node)
  | _ => .ok ds

def processTypeEntry (typeId : GraphElementId) (ds : Datastore N) (entry : String × Value) :
    Except String (Datastore N) :=
  let typeIri := (ctx.expandTerm env entry.1).getD entry.1
  entry.2.items.foldlM (processTypedNode env nested ctx graph subject pred typeId typeIri) ds

def processGraphEntry (ds : Datastore N) (entry : String × Value) :
    Except String (Datastore N) :=
  let graphIri := (ctx.expandTerm env entry.1).getD entry.1
  if isAbsoluteIri env graphIri then
    let (ds, named) := internIri ds graphIri
    nested.document ctx (some named) (addToGraph ds graph subject pred named) entry.2
  else .ok ds

/-- The values of a property, by the container of its term. -/
def processContainer (container : ContainerType) (coercion : TypeCoercion) (ds : Datastore N)
    (val : Value) : Except String (Datastore N) :=
  match container, val with
  | .language, .object langMap => .ok (addLanguageMap ds graph subject pred langMap)
  | .index, .object idxMap =>
    idxMap.foldlM (fun ds entry => nested.value ctx graph subject pred coercion ds entry.2) ds
  | .id, .object idMap => idMap.foldlM (processIdEntry env nested ctx graph subject pred) ds
  | .type, .object typeMap =>
    let (ds, typeId) := internIri ds rdfType
    typeMap.foldlM (processTypeEntry env nested ctx graph subject pred typeId) ds
  | .graph, .object graphMap =>
    graphMap.foldlM (processGraphEntry env nested ctx graph subject pred) ds
  | .list, val => processList nested ctx graph subject pred ds val
  | _, .object map =>
    match map.lookup "@list" with
    | some listVal => processList nested ctx graph subject pred ds listVal
    | none => nested.value ctx graph subject pred coercion ds (.object map)
  | _, val => nested.value ctx graph subject pred coercion ds val

def processProperty (ds : Datastore N) (field : String × Value) : Except String (Datastore N) :=
  match propertyIri env ctx field.1 with
  | none => .ok ds
  | some predIri =>
    let d := ctx.terms.lookup field.1
    match extendBy env ctx (d.bind TermDef.scopedContext) with
    | .error e => .error e
    | .ok ctx =>
      let (ds, pred) := internIri ds predIri
      processContainer env nested ctx graph subject pred ((d.map TermDef.container).getD .default)
        ((d.map TermDef.typeCoercion).getD .none) ds field.2

def processNest (ds : Datastore N) : Value → Except String (Datastore N)
  | .object inner => inner.foldlM (processProperty env nested ctx graph subject) ds
  | _ => .ok ds

/-- A field that is no keyword, unless its term stands for one. -/
def processTermField (ds : Datastore N) (field : String × Value) :
    Except String (Datastore N) :=
  match (ctx.terms.lookup field.1).map TermDef.id with
  | some "@id" => .ok ds
  | some "@type" => .ok (emitTypeTriples env ds ctx graph subject field.2)
  | some "@nest" => field.2.items.foldlM (processNest env nested ctx graph subject) ds
  | some term =>
    if isKeyword term then .ok ds else processProperty env nested ctx graph subject ds field
  | none => processProperty env nested ctx graph subject ds field

/-- One field of a node; `explicit` tells whether the node has an `@id`. -/
def processField (explicit : Bool) (ds : Datastore N) (field : String × Value) :
    Except String (Datastore N) :=
  if field.1 = "@id" ∨ field.1 = "@context" then .ok ds
  else if field.1 = "@type" then .ok (emitTypeTriples env ds ctx graph subject field.2)
  else if field.1 = "@graph" then
    -- the node names the graph
    let inner := if explicit then some subject else graph
    field.2.items.foldlM (processGraphItem env nested ctx inner) ds
  else if field.1 = "@reverse" then .ok (addReverse env ds ctx graph subject field.2)
  else if field.1 = "@included" then field.2.items.foldlM (nested.document ctx graph) ds
  else if field.1 = "@nest" then
    field.2.items.foldlM (processNest env nested ctx graph subject) ds
  else if isKeyword field.1 then .ok ds
  else processTermField env nested ctx graph subject ds field

def processNode (ds : Datastore N) (map : List (String × Value)) :
    Except String (Datastore N × GraphElementId) :=
  let idStr := nodeIdString env ctx map
  let (ds, subject) := nodeSubject env ds ctx idStr
  match typeScoped env ctx map with
  | .error e => .error e
  | .ok ctx =>
    (map.foldlM (processField env nested ctx graph subject idStr.isSome) ds).map
      fun ds => (ds, subject)

end Level

def outOfFuel : String := "out of fuel"

/-- The functions with so many levels below them. -/
def handlers : Nat → Handlers N
  | 0 => ⟨fun _ _ _ _ => .error outOfFuel, fun _ _ _ _ => .error outOfFuel,
      fun _ _ _ _ _ _ _ => .error outOfFuel⟩
  | levels + 1 =>
    let nested := handlers levels
    ⟨processDocument env nested, processNode env nested, addValueToGraph env nested⟩

/-- The levels that a document needs at most: three for each array or object. -/
def Value.levels (value : Value) : Nat := 3 * (value.depth + 1)

/-- Read a document into a store. -/
def parseJsonld (network : NetworkPolicy) (ds : Datastore N) (text : String) :
    Except String (Datastore N) :=
  match env.parse text with
  | .error e => .error ("JSON: " ++ e)
  | .ok value => (handlers env value.levels).document (Context.empty network) none ds value

end Process

end RdfDatalog.JsonLd
