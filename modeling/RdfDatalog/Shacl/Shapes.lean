import RdfDatalog.Shacl.Path
import RdfDatalog.Math.Labels

namespace RdfDatalog.Shacl

variable {N : NativeTypes}

section Vocabulary

def rdfsClass : IriReference := "http://www.w3.org/2000/01/rdf-schema#Class"
def shNodeShape : IriReference := "http://www.w3.org/ns/shacl#NodeShape"
def shPropertyShape : IriReference := "http://www.w3.org/ns/shacl#PropertyShape"
def shTargetClass : IriReference := "http://www.w3.org/ns/shacl#targetClass"
def shTargetNode : IriReference := "http://www.w3.org/ns/shacl#targetNode"
def shTargetSubjectsOf : IriReference := "http://www.w3.org/ns/shacl#targetSubjectsOf"
def shTargetObjectsOf : IriReference := "http://www.w3.org/ns/shacl#targetObjectsOf"
def shProperty : IriReference := "http://www.w3.org/ns/shacl#property"
def shPath : IriReference := "http://www.w3.org/ns/shacl#path"
def shClass : IriReference := "http://www.w3.org/ns/shacl#class"
def shDatatype : IriReference := "http://www.w3.org/ns/shacl#datatype"
def shNodeKind : IriReference := "http://www.w3.org/ns/shacl#nodeKind"
def shIri : IriReference := "http://www.w3.org/ns/shacl#IRI"
def shLiteral : IriReference := "http://www.w3.org/ns/shacl#Literal"
def shBlankNode : IriReference := "http://www.w3.org/ns/shacl#BlankNode"
def shBlankNodeOrIri : IriReference := "http://www.w3.org/ns/shacl#BlankNodeOrIRI"
def shBlankNodeOrLiteral : IriReference := "http://www.w3.org/ns/shacl#BlankNodeOrLiteral"
def shIriOrLiteral : IriReference := "http://www.w3.org/ns/shacl#IRIOrLiteral"
def shMinCount : IriReference := "http://www.w3.org/ns/shacl#minCount"
def shMaxCount : IriReference := "http://www.w3.org/ns/shacl#maxCount"
def shMinInclusive : IriReference := "http://www.w3.org/ns/shacl#minInclusive"
def shMaxInclusive : IriReference := "http://www.w3.org/ns/shacl#maxInclusive"
def shMinExclusive : IriReference := "http://www.w3.org/ns/shacl#minExclusive"
def shMaxExclusive : IriReference := "http://www.w3.org/ns/shacl#maxExclusive"
def shMinLength : IriReference := "http://www.w3.org/ns/shacl#minLength"
def shMaxLength : IriReference := "http://www.w3.org/ns/shacl#maxLength"
def shPattern : IriReference := "http://www.w3.org/ns/shacl#pattern"
def shFlags : IriReference := "http://www.w3.org/ns/shacl#flags"
def shLanguageIn : IriReference := "http://www.w3.org/ns/shacl#languageIn"
def shUniqueLang : IriReference := "http://www.w3.org/ns/shacl#uniqueLang"
def shEquals : IriReference := "http://www.w3.org/ns/shacl#equals"
def shDisjoint : IriReference := "http://www.w3.org/ns/shacl#disjoint"
def shLessThan : IriReference := "http://www.w3.org/ns/shacl#lessThan"
def shLessThanOrEquals : IriReference := "http://www.w3.org/ns/shacl#lessThanOrEquals"
def shNot : IriReference := "http://www.w3.org/ns/shacl#not"
def shAnd : IriReference := "http://www.w3.org/ns/shacl#and"
def shOr : IriReference := "http://www.w3.org/ns/shacl#or"
def shXone : IriReference := "http://www.w3.org/ns/shacl#xone"
def shNode : IriReference := "http://www.w3.org/ns/shacl#node"
def shQualifiedValueShape : IriReference := "http://www.w3.org/ns/shacl#qualifiedValueShape"
def shQualifiedMinCount : IriReference := "http://www.w3.org/ns/shacl#qualifiedMinCount"
def shQualifiedMaxCount : IriReference := "http://www.w3.org/ns/shacl#qualifiedMaxCount"
def shQualifiedValueShapesDisjoint : IriReference :=
  "http://www.w3.org/ns/shacl#qualifiedValueShapesDisjoint"
def shClosed : IriReference := "http://www.w3.org/ns/shacl#closed"
def shIgnoredProperties : IriReference := "http://www.w3.org/ns/shacl#ignoredProperties"
def shHasValue : IriReference := "http://www.w3.org/ns/shacl#hasValue"
def shIn : IriReference := "http://www.w3.org/ns/shacl#in"
def shDeactivated : IriReference := "http://www.w3.org/ns/shacl#deactivated"

end Vocabulary

/-- A value in a shape, outside of any store. -/
inductive ElemValue where
  | iri (iri : IriReference)
  | blankNode (id : Nat)
  | literal (value : String) (datatype lang : Option String)
  deriving DecidableEq

inductive NodeKindValue where
  | iri
  | literal
  | blankNode
  | blankNodeOrIri
  | blankNodeOrLiteral
  | iriOrLiteral
  deriving DecidableEq

inductive PropConstraint where
  | minCount (n : Nat)
  | maxCount (n : Nat)
  | «class» (iri : IriReference)
  | datatype (iri : IriReference)
  | nodeKind (nk : NodeKindValue)
  | hasValue (value : ElemValue)
  | «in» (values : List ElemValue)
  | minLength (n : Nat)
  | maxLength (n : Nat)
  | pattern (pat : String) (flags : Option String)
  | languageIn (tags : List String)
  | uniqueLang
  | equals (iri : IriReference)
  | disjoint (iri : IriReference)
  | minInclusive (bound : ElemValue)
  | maxInclusive (bound : ElemValue)
  | minExclusive (bound : ElemValue)
  | maxExclusive (bound : ElemValue)
  | lessThan (iri : IriReference)
  | lessThanOrEquals (iri : IriReference)
  | nodeShape (shapesId : GraphElementId)
  | qualifiedValueShape (shapesId : GraphElementId) (min max : Option Nat) (disjoint : Bool)

/-- The node of another shape. -/
abbrev InnerShapeRef := GraphElementId

/-- What is read of a shape without its targets, its severity, its message and its queries. -/
structure ParsedPropShape where
  idx : Nat
  shapesId : GraphElementId
  path : ShPath
  constraints : List PropConstraint
  deactivated : Bool
  notInner : Option InnerShapeRef
  andInners : List InnerShapeRef
  orInners : List InnerShapeRef
  xoneInners : List InnerShapeRef

structure ParsedShape where
  idx : Nat
  shapesId : GraphElementId
  iri : Option IriReference
  propertyShapes : List ParsedPropShape
  closed : Option (List IriReference)
  notInner : Option InnerShapeRef
  andInners : List InnerShapeRef
  orInners : List InnerShapeRef
  xoneInners : List InnerShapeRef
  nodeConstraints : List PropConstraint
  nodeKind : Option NodeKindValue
  deactivated : Bool

section Parsing

-- `display` prints the literals with a value type of their own
variable (display : RdfLiteral N → String) (shapes : Datastore N)

def literalParts : RdfLiteral N → ElemValue
  | .literalString s => .literal s none none
  | .langLiteral lang literal => .literal literal none (some lang)
  | .typedLiteral typeIri literal => .literal literal (some typeIri) none
  | other => .literal (display other) none none

def idToElem (id : GraphElementId) : ElemValue :=
  match shapes.resources.getGraphElement id with
  | some (.nodeOrEdge (.iri iri)) => .iri iri
  | some (.nodeOrEdge (.anonymousBlankNode n)) => .blankNode n
  | some (.graphLiteral l) => literalParts display l
  | some (.tripleTerm k) => .blankNode k.subject
  -- the source panics here
  | none => .blankNode id

def literalString (id : GraphElementId) : Option String :=
  match shapes.resources.getGraphElement id with
  | some (.graphLiteral (.literalString s)) => some s
  | some (.graphLiteral (.typedLiteral _ literal)) => some literal
  | _ => none

def parseNodeKind (iri : IriReference) : Option NodeKindValue :=
  if iri = shIri then some .iri
  else if iri = shLiteral then some .literal
  else if iri = shBlankNode then some .blankNode
  else if iri = shBlankNodeOrIri then some .blankNodeOrIri
  else if iri = shBlankNodeOrLiteral then some .blankNodeOrLiteral
  else if iri = shIriOrLiteral then some .iriOrLiteral
  else none

def isDeactivated (shapeId : GraphElementId) : Bool :=
  ((getObject shapes shapeId shDeactivated).bind (elemToBool shapes)).getD false

def shapeListRefs (fuel : Nat) (shapeId : GraphElementId) (predIri : IriReference) :
    Option (List InnerShapeRef) :=
  match getObject shapes shapeId predIri with
  | none => some []
  | some head => rdfList shapes fuel head

/-- The constraint that the value of a parameter makes. -/
def constraintOf {α : Type} (propNode : GraphElementId) (predIri : IriReference)
    (read : GraphElementId → Option α) (make : α → PropConstraint) : List PropConstraint :=
  (((getObject shapes propNode predIri).bind read).map make).toList

def listConstraintOf (fuel : Nat) (propNode : GraphElementId) (predIri : IriReference)
    (make : List GraphElementId → PropConstraint) : Option (List PropConstraint) :=
  match getObject shapes propNode predIri with
  | none => some []
  | some head => (rdfList shapes fuel head).map fun ids => [make ids]

def parseQualified (propNode qvsId : GraphElementId) : PropConstraint :=
  let min := (getObject shapes propNode shQualifiedMinCount).bind (elemToU64 shapes)
  let max := (getObject shapes propNode shQualifiedMaxCount).bind (elemToU64 shapes)
  let disjoint := ((getObject shapes propNode shQualifiedValueShapesDisjoint).bind
    (elemToBool shapes)).getD false
  .qualifiedValueShape qvsId min max disjoint

def parsePattern (propNode : GraphElementId) : List PropConstraint :=
  constraintOf shapes propNode shPattern (literalString shapes) fun pat =>
    .pattern pat ((getObject shapes propNode shFlags).bind (literalString shapes))

def parseUniqueLang (propNode : GraphElementId) : List PropConstraint :=
  if (getObject shapes propNode shUniqueLang).bind (elemToBool shapes) = some true then
    [.uniqueLang]
  else []

def parsePropConstraints (fuel : Nat) (propNode : GraphElementId) :
    Option (List PropConstraint) := do
  let allowed ← listConstraintOf shapes fuel propNode shIn
    fun ids => .in (ids.map (idToElem display shapes))
  let languages ← listConstraintOf shapes fuel propNode shLanguageIn
    fun ids => .languageIn (ids.filterMap (literalString shapes))
  let elem (id : GraphElementId) : Option ElemValue := some (idToElem display shapes id)
  some <|
    constraintOf shapes propNode shMinCount (elemToU64 shapes) .minCount ++
    constraintOf shapes propNode shMaxCount (elemToU64 shapes) .maxCount ++
    ((getObjects shapes propNode shClass).filterMap (iriString shapes)).map .class ++
    constraintOf shapes propNode shDatatype (iriString shapes) .datatype ++
    constraintOf shapes propNode shNodeKind
      (fun id => (iriString shapes id).bind parseNodeKind) .nodeKind ++
    constraintOf shapes propNode shHasValue elem .hasValue ++
    allowed ++
    constraintOf shapes propNode shMinLength (elemToU64 shapes) .minLength ++
    constraintOf shapes propNode shMaxLength (elemToU64 shapes) .maxLength ++
    parsePattern shapes propNode ++
    languages ++
    parseUniqueLang shapes propNode ++
    constraintOf shapes propNode shEquals (iriString shapes) .equals ++
    constraintOf shapes propNode shDisjoint (iriString shapes) .disjoint ++
    constraintOf shapes propNode shLessThan (iriString shapes) .lessThan ++
    constraintOf shapes propNode shLessThanOrEquals (iriString shapes) .lessThanOrEquals ++
    constraintOf shapes propNode shMinInclusive elem .minInclusive ++
    constraintOf shapes propNode shMaxInclusive elem .maxInclusive ++
    constraintOf shapes propNode shMinExclusive elem .minExclusive ++
    constraintOf shapes propNode shMaxExclusive elem .maxExclusive ++
    constraintOf shapes propNode shNode some .nodeShape ++
    constraintOf shapes propNode shQualifiedValueShape some (parseQualified shapes propNode)

def propShapeOf (fuel idx : Nat) (propNode : GraphElementId) (path : ShPath) :
    Option ParsedPropShape := do
  let constraints ← parsePropConstraints display shapes fuel propNode
  let andInners ← shapeListRefs shapes fuel propNode shAnd
  let orInners ← shapeListRefs shapes fuel propNode shOr
  let xoneInners ← shapeListRefs shapes fuel propNode shXone
  some ⟨idx, propNode, path, constraints, isDeactivated shapes propNode,
    getObject shapes propNode shNot, andInners, orInners, xoneInners⟩

def parsePropertyShape (fuel idx : Nat) (propNode : GraphElementId) :
    Option (Option ParsedPropShape) :=
  match getObject shapes propNode shPath with
  | none => some none
  | some pathId =>
    match parsePath shapes fuel pathId with
    | none => none
    | some none => some none
    | some (some path) => (propShapeOf display shapes fuel idx propNode path).map some

def parsePropertyShapes (fuel : Nat) (shapeId : GraphElementId) : Option (List ParsedPropShape) :=
  ((getObjects shapes shapeId shProperty).zipIdx.mapM fun prop =>
    parsePropertyShape display shapes fuel prop.2 prop.1).map List.reduceOption

def parseClosed (fuel : Nat) (shapeId : GraphElementId) (props : List ParsedPropShape) :
    Option (Option (List IriReference)) :=
  if (getObject shapes shapeId shClosed).bind (elemToBool shapes) = some true then
    (shapeListRefs shapes fuel shapeId shIgnoredProperties).map fun ignored =>
      some (props.filterMap (fun p => p.path.asSimpleIri) ++ ignored.filterMap (iriString shapes))
  else some none

/-- Whether a shape with a path of its own says anything of the values. -/
def ParsedPropShape.constrains (prop : ParsedPropShape) : Bool :=
  !prop.constraints.isEmpty || prop.notInner.isSome || !prop.andInners.isEmpty ||
    !prop.orInners.isEmpty || !prop.xoneInners.isEmpty

def PropConstraint.isNodeKind : PropConstraint → Bool
  | .nodeKind _ => true
  | _ => false

def parseNodeConstraints (fuel : Nat) (shapeId : GraphElementId) : Option (List PropConstraint) :=
  if (getObject shapes shapeId shPath).isSome then some []
  else (parsePropConstraints display shapes fuel shapeId).map
    (List.filter fun c => !c.isNodeKind)

def parseOneShape (fuel : Nat) (shapeId : GraphElementId) (idx : Nat) : Option ParsedShape := do
  let blocks ← parsePropertyShapes display shapes fuel shapeId
  let direct ← parsePropertyShape display shapes fuel blocks.length shapeId
  let propertyShapes := blocks ++ (direct.filter ParsedPropShape.constrains).toList
  let closed ← parseClosed shapes fuel shapeId propertyShapes
  let nodeConstraints ← parseNodeConstraints display shapes fuel shapeId
  let andInners ← shapeListRefs shapes fuel shapeId shAnd
  let orInners ← shapeListRefs shapes fuel shapeId shOr
  let xoneInners ← shapeListRefs shapes fuel shapeId shXone
  let nodeKind := ((getObject shapes shapeId shNodeKind).bind (iriString shapes)).bind parseNodeKind
  some ⟨idx, shapeId, iriString shapes shapeId, propertyShapes, closed,
    getObject shapes shapeId shNot, andInners, orInners, xoneInners, nodeConstraints, nodeKind,
    isDeactivated shapes shapeId⟩

def foundShapes : List GraphElementId :=
  let typed := [shNodeShape, shPropertyShape, rdfsClass].flatMap fun typeIri =>
    match lookupIri shapes rdfType, lookupIri shapes typeIri with
    | some typeId, some classId => shapes.getTriplesWithObjectPredicate classId typeId
    | _, _ => []
  let targeted := [shTargetNode, shTargetClass, shTargetSubjectsOf, shTargetObjectsOf].flatMap
    fun targetPred =>
      match lookupIri shapes targetPred with
      | some predId => shapes.getTriplesWithPredicate predId
      | none => []
  ((typed ++ targeted).map Quad.subject).foldl LabelNumbering.addSeen []

def parseShapes (fuel : Nat) : Option (List ParsedShape) :=
  (foundShapes shapes).zipIdx.mapM fun shape => parseOneShape display shapes fuel shape.1 shape.2

end Parsing

section References

def constraintRefs (constraints : List PropConstraint) : List GraphElementId :=
  constraints.filterMap fun
    | .nodeShape id => some id
    | .qualifiedValueShape shapesId _ _ _ => some shapesId
    | _ => none

def ParsedPropShape.references (prop : ParsedPropShape) : List GraphElementId :=
  constraintRefs prop.constraints ++ prop.notInner.toList ++ prop.andInners ++ prop.orInners ++
    prop.xoneInners

def ParsedShape.references (parsed : ParsedShape) : List GraphElementId :=
  parsed.notInner.toList ++ parsed.andInners ++ parsed.orInners ++ parsed.xoneInners ++
    parsed.propertyShapes.flatMap ParsedPropShape.references ++
    constraintRefs parsed.nodeConstraints

variable (display : RdfLiteral N → String) (shapes : Datastore N)

def shapeReferences (fuel : Nat) (shapeId : GraphElementId) : Option (List GraphElementId) :=
  (parseOneShape display shapes fuel shapeId 0).map ParsedShape.references

def dfsFindCycle (fuel : Nat) (path : List GraphElementId) (id : GraphElementId)
    (state : CycleSearch.Marks GraphElementId) :
    Option (Option (List GraphElementId) × CycleSearch.Marks GraphElementId) :=
  CycleSearch.visit (shapeReferences display shapes) fuel path id state

def findShapeReferenceCycle (fuel : Nat) (parsed : List ParsedShape) :
    Option (Option (List GraphElementId)) :=
  CycleSearch.findCycle (shapeReferences display shapes) fuel (parsed.map ParsedShape.shapesId)

end References

end RdfDatalog.Shacl
