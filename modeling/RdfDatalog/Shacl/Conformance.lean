import RdfDatalog.Shacl.PathValues

namespace RdfDatalog.Shacl

variable {N : NativeTypes}

def rdfsSubClassOf : IriReference := "http://www.w3.org/2000/01/rdf-schema#subClassOf"

/-- The tests of single values, which neither loop nor look at other nodes. -/
structure ValueTests (N : NativeTypes) where
  hasDatatype : GraphElement N → IriReference → Bool
  lexicalForm : GraphElement N → Option String
  /-- The regular expression of a pattern and its flags, unless it is invalid. -/
  regex : String → Option String → Option (String → Bool)
  sparqlCompare : GraphElement N → GraphElement N → Option Ordering
  /-- How a value compares to a bound. -/
  compareBound : ElemValue → GraphElement N → Option Ordering
  toLowercase : String → String

section Values

variable (tests : ValueTests N) (data : Datastore N)

def elementIs (test : GraphElement N → Bool) (id : GraphElementId) : Bool :=
  ((data.resources.getGraphElement id).map test).getD false

def matchesNodeKind (id : GraphElementId) (nk : NodeKindValue) : Bool :=
  let iri := isIri data id
  let blank := isBlankNode data id
  let lit := !iri && !blank
  match nk with
  | .iri => iri
  | .blankNode => blank
  | .literal => lit
  | .blankNodeOrIri => blank || iri
  | .blankNodeOrLiteral => blank || lit
  | .iriOrLiteral => iri || lit

def lookupElemValue : ElemValue → Option GraphElementId
  | .iri iri => lookupIri data iri
  | .blankNode n => data.resources.resourceMap.lookup (.nodeOrEdge (.anonymousBlankNode n))
  | .literal value datatype lang =>
    let lit : RdfLiteral N :=
      match lang, datatype with
      | some lang, _ => .langLiteral lang value
      | none, some dt => .typedLiteral dt value
      | none, none => .literalString value
    data.resources.resourceMap.lookup (.graphLiteral lit)

def langMatches (allowed : List String) (langTag : String) : Bool :=
  let lower := tests.toLowercase langTag
  allowed.any fun a => lower = a || (a ++ "-").toList.isPrefixOf lower.toList

/-- The language tag of a value, in lower case. -/
def langOf (id : GraphElementId) : Option String :=
  match data.resources.getGraphElement id with
  | some (.graphLiteral (.langLiteral lang _)) => some (tests.toLowercase lang)
  | _ => none

def hasLangIn (tags : List String) (id : GraphElementId) : Bool :=
  match data.resources.getGraphElement id with
  | some (.graphLiteral (.langLiteral lang _)) =>
    langMatches tests (tags.map tests.toLowercase) lang
  | _ => false

def compares (left right : GraphElementId) (ok : Ordering → Bool) : Bool :=
  match data.resources.getGraphElement left, data.resources.getGraphElement right with
  | some l, some r => ((tests.sparqlCompare l r).map ok).getD false
  | _, _ => false

def inRange (bound : ElemValue) (ok : Ordering → Bool) (id : GraphElementId) : Bool :=
  elementIs data (fun e => ((tests.compareBound bound e).map ok).getD false) id

/-- The search for a superclass; `none` where it has not ended yet. -/
def subClassSearch (classId subClassOfId : GraphElementId) :
    Nat → WorklistSearch.State GraphElementId → Option Bool
  | 0, _ => none
  | fuel + 1, s =>
    match s.pending with
    | [] => some false
    | t :: queue =>
      let parents := (data.getTriplesWithSubjectPredicate t subClassOfId).map Quad.obj
      if classId ∈ parents then some true
      else
        subClassSearch classId subClassOfId fuel
          (parents.foldl (WorklistSearch.discover fun _ => true) ⟨queue, s.found⟩)

def isInstanceOfClassOrSubclass (fuel : Nat) (value classId rdfTypeId : GraphElementId) :
    Option Bool :=
  let types := (data.getTriplesWithSubjectPredicate value rdfTypeId).map Quad.obj
  match lookupIri data rdfsSubClassOf with
  | none => some (decide (classId ∈ types))
  | some subClassOfId =>
    if classId ∈ types then some true
    else
      subClassSearch data classId subClassOfId fuel
        (types.foldl (WorklistSearch.discover fun _ => true) ⟨[], []⟩)

end Values

section Conformance

variable (tests : ValueTests N) (data : Datastore N)

/-- The second test is made where the first one is passed. -/
def andThen (first second : Option Bool) : Option Bool :=
  first.bind fun ok => if ok then second else some false

/-- How many of the shapes a node conforms to. -/
def countConforming (conforms : GraphElementId → Option Bool) (inners : List InnerShapeRef) :
    Option Nat :=
  (inners.mapM conforms).map (List.count true)

/-- `conforms` tells whether a node conforms to a shape. -/
def constraintConforms (conforms : GraphElementId → GraphElementId → Option Bool) (fuel : Nat)
    (node : GraphElementId) (path : Option ShPath) (constraint : PropConstraint) : Option Bool :=
  (valuesFor data fuel node path).bind fun values =>
    match constraint with
    | .minCount n => some (decide (n ≤ values.dedup.length))
    | .maxCount n => some (decide (values.dedup.length ≤ n))
    | .class classIri =>
      match lookupIri data rdfType, lookupIri data classIri with
      | some rdfTypeId, some classId =>
        values.allM fun v => isInstanceOfClassOrSubclass data fuel v classId rdfTypeId
      | _, _ => some values.isEmpty
    | .datatype dtIri => some (values.all (elementIs data fun e => tests.hasDatatype e dtIri))
    | .nodeKind nk => some (values.all fun v => matchesNodeKind data v nk)
    | .hasValue elem =>
      match lookupElemValue data elem with
      | none => some false
      | some valId => some (decide (valId ∈ values))
    | .in allowed =>
      some (values.all fun v => decide (v ∈ allowed.filterMap (lookupElemValue data)))
    | .minLength n =>
      some (values.all (elementIs data fun e =>
        ((tests.lexicalForm e).map fun s => decide (n ≤ s.length)).getD false))
    | .maxLength n =>
      some (values.all (elementIs data fun e =>
        ((tests.lexicalForm e).map fun s => decide (s.length ≤ n)).getD false))
    | .pattern pat flags =>
      match tests.regex pat flags with
      | none => some true
      | some isMatch =>
        some (values.all (elementIs data fun e => ((tests.lexicalForm e).map isMatch).getD false))
    | .languageIn tags => some (values.all (hasLangIn tests data tags))
    | .uniqueLang => some (decide (values.filterMap (langOf tests data)).Nodup)
    | .equals otherPath =>
      some (decide (values.toFinset = (getObjects data node otherPath).toFinset))
    | .disjoint otherPath => some (values.all fun v => decide (v ∉ getObjects data node otherPath))
    | .lessThan otherPath =>
      some (values.all fun pv => (getObjects data node otherPath).all fun ov =>
        compares tests data pv ov fun o => o == .lt)
    | .lessThanOrEquals otherPath =>
      some (values.all fun pv => (getObjects data node otherPath).all fun ov =>
        compares tests data pv ov fun o => o == .lt || o == .eq)
    | .minInclusive bound =>
      some (values.all (inRange tests data bound fun o => o == .gt || o == .eq))
    | .maxInclusive bound =>
      some (values.all (inRange tests data bound fun o => o == .lt || o == .eq))
    | .minExclusive bound => some (values.all (inRange tests data bound fun o => o == .gt))
    | .maxExclusive bound => some (values.all (inRange tests data bound fun o => o == .lt))
    | .nodeShape innerShapesId => values.allM fun v => conforms v innerShapesId
    | .qualifiedValueShape shapesId min max _ =>
      (values.mapM fun v => conforms v shapesId).map fun results =>
        let count := results.count true
        decide (∀ n, min = some n → n ≤ count) && decide (∀ n, max = some n → count ≤ n)

def propCombinatorsConform (conforms : GraphElementId → GraphElementId → Option Bool) (fuel : Nat)
    (node : GraphElementId) (prop : ParsedPropShape) : Option Bool :=
  (valuesFor data fuel node (some prop.path)).bind fun values =>
    andThen
      (match prop.notInner with
        | none => some true
        | some inner => (values.anyM fun v => conforms v inner).map not) <|
    andThen (values.allM fun v => prop.andInners.allM (conforms v)) <|
    andThen
      (if prop.orInners.isEmpty then some true
        else values.allM fun v => prop.orInners.anyM (conforms v)) <|
    if prop.xoneInners.isEmpty then some true
    else values.allM fun v => (countConforming (conforms v) prop.xoneInners).map (· == 1)

def propConforms (conforms : GraphElementId → GraphElementId → Option Bool) (fuel : Nat)
    (node : GraphElementId) (prop : ParsedPropShape) : Option Bool :=
  if prop.deactivated then some true
  else
    andThen
      (prop.constraints.allM (constraintConforms tests data conforms fuel node (some prop.path)))
      (propCombinatorsConform data conforms fuel node prop)

def nodeCombinatorsConform (conforms : GraphElementId → Option Bool) (parsed : ParsedShape) :
    Option Bool :=
  andThen
    (match parsed.notInner with
      | none => some true
      | some inner => (conforms inner).map not) <|
  andThen (parsed.andInners.allM conforms) <|
  andThen (if parsed.orInners.isEmpty then some true else parsed.orInners.anyM conforms) <|
  if parsed.xoneInners.isEmpty then some true
  else (countConforming conforms parsed.xoneInners).map (· == 1)

variable (display : RdfLiteral N → String) (shapes : Datastore N)

/-- Whether a node conforms to a shape; `none` where the recursion has not ended yet. -/
def shapeConformsForNode : Nat → GraphElementId → GraphElementId → Option Bool
  | 0, _, _ => none
  | fuel + 1, node, shapeId =>
    (parseOneShape display shapes fuel shapeId 0).bind fun parsed =>
      if parsed.deactivated then some true
      else if (parsed.nodeKind.map (matchesNodeKind data node)).getD true = false then some false
      else
        andThen (parsed.propertyShapes.allM
          (propConforms tests data (shapeConformsForNode fuel) fuel node)) <|
        andThen (parsed.nodeConstraints.allM
          (constraintConforms tests data (shapeConformsForNode fuel) fuel node none)) <|
        nodeCombinatorsConform (shapeConformsForNode fuel node) parsed

mutual

def ShPath.same : ShPath → ShPath → Bool
  | .predicate i, .predicate j => i = j
  | .inverse p, .inverse q => p.same q
  | .sequence ps, .sequence qs => samePaths ps qs
  | .alternative ps, .alternative qs => samePaths ps qs
  | .zeroOrMore p, .zeroOrMore q => p.same q
  | .oneOrMore p, .oneOrMore q => p.same q
  | .zeroOrOne p, .zeroOrOne q => p.same q
  | _, _ => false

def samePaths : List ShPath → List ShPath → Bool
  | [], [] => true
  | p :: ps, q :: qs => p.same q && samePaths ps qs
  | _, _ => false

end

def siblingIds (siblings : List ParsedPropShape) (prop : ParsedPropShape)
    (inner : GraphElementId) : List GraphElementId :=
  siblings.flatMap fun p => p.constraints.filterMap fun
    | .qualifiedValueShape other _ _ _ =>
      if p.path.same prop.path = true ∧ other ≠ inner ∧ p.idx ≠ prop.idx then some other else none
    | _ => none

/-- The shapes that the values of a property shape are compared with where the shape is one of
those to be validated. -/
def propInnerShapes (siblings : List ParsedPropShape) (prop : ParsedPropShape) :
    List GraphElementId :=
  if prop.deactivated then []
  else
    prop.constraints.flatMap (fun c =>
      match c with
      | .nodeShape inner => [inner]
      | .qualifiedValueShape inner _ _ disjoint =>
        inner :: if disjoint then siblingIds siblings prop inner else []
      | _ => []) ++
    prop.notInner.toList ++ prop.orInners ++ prop.andInners ++ prop.xoneInners

/-- The shapes that a shape has its nodes and values compared with. -/
def validatedShapes (shape : ParsedShape) : List GraphElementId :=
  if shape.deactivated then []
  else
    shape.propertyShapes.flatMap (propInnerShapes shape.propertyShapes) ++
    constraintRefs shape.nodeConstraints ++ shape.xoneInners ++ shape.notInner.toList ++
    shape.orInners ++ shape.andInners

end Conformance

end RdfDatalog.Shacl
