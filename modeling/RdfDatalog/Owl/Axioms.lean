import RdfDatalog.Math.GrowingState
import RdfDatalog.Store.NamedNodes

namespace RdfDatalog

variable {N : NativeTypes}

namespace Owl

open GrowingState GraphElementManager

/-- An interning store whose blank node labels are interned. -/
structure Resources (N : NativeTypes) where
  manager : GraphElementManager N
  named : manager.NamesBlankNodes

namespace Resources

def new : Resources N := ⟨.new, fun _ _ h => by cases h⟩

def get (m : Resources N) (id : GraphElementId) : Option (GraphElement N) :=
  m.manager.getGraphElement id

/-- Elements, labels and used numbers stay. -/
instance : Preorder (Resources N) where
  le m m' := m.manager.Extends m'.manager ∧
    m.manager.anonResourceCount ≤ m'.manager.anonResourceCount ∧
    ∀ name id, m.manager.anonResourceMap.lookup name = some id →
      m'.manager.anonResourceMap.lookup name = some id
  le_refl m := ⟨.refl _, le_rfl, fun _ _ h => h⟩
  le_trans _ _ _ h h' := ⟨h.1.trans h'.1, h.2.1.trans h'.2.1,
    fun name id hid => h'.2.2 name id (h.2.2 name id hid)⟩

theorem get_mono {m m' : Resources N} (h : m ≤ m') {id : GraphElementId} {e : GraphElement N}
    (he : m.get id = some e) : m'.get id = some e :=
  h.1.getGraphElement he

/-- The id of an individual, once it has one. -/
def Denotes (m : Resources N) (name : String) (id : GraphElementId) : Prop :=
  m.manager.anonResourceMap.lookup name = some id

end Resources

abbrev Interning (N : NativeTypes) := StateM (Resources N)

def addNodeResource (r : RdfResource) : Interning N GraphElementId := fun m =>
  let added := m.manager.addResource (.nodeOrEdge r)
  (added.2, ⟨added.1, m.named.addResource _⟩)

def createUnnamedAnonResource : Interning N GraphElementId := fun m =>
  let created := m.manager.createUnnamedAnonResource
  (created.2, ⟨created.1, m.named.createUnnamed⟩)

def getOrCreateNamedAnonResource (name : String) : Interning N GraphElementId := fun m =>
  let created := m.manager.getOrCreateNamedAnonResource name
  (created.2, ⟨created.1, m.named.getOrCreateNamed name⟩)

variable (r : RdfResource)

theorem le_addNodeResource (m : Resources N) :
    m ≤ (addNodeResource r m).2 := by
  have hmap := addResource_anonResourceMap m.manager (.nodeOrEdge r)
  refine ⟨addResource_extends _ _, (addResource_anonResourceCount _ _).ge, ?_⟩
  intro name id hid
  exact (congrArg (fun map => map.lookup name) hmap).trans hid

theorem addNodeResource_of_get {m : Resources N} {r : RdfResource} {id : GraphElementId}
    (h : m.get id = some (.nodeOrEdge r)) : addNodeResource r m = (id, m) := by
  have hadd := addResource_of_get h
  simp only [addNodeResource, hadd]

theorem addNodeResource_get (m : Resources N) :
    (addNodeResource r m).2.get (addNodeResource r m).1 = some (.nodeOrEdge r) :=
  addResource_get _ _

theorem settles_addNodeResource :
    Settles (addNodeResource r : Interning N GraphElementId) := by
  refine ⟨le_addNodeResource r, fun s t h => ?_⟩
  exact addNodeResource_of_get (Resources.get_mono h (addNodeResource_get r s))

theorem yields_addNodeResource :
    Yields (addNodeResource r : Interning N GraphElementId)
      fun m id => m.get id = some (.nodeOrEdge r) :=
  fun s => ⟨le_addNodeResource r s, fun _ h => Resources.get_mono h (addNodeResource_get r s)⟩

theorem le_createUnnamed (m : Resources N) : m ≤ (createUnnamedAnonResource m).2 := by
  obtain ⟨hext, hcount⟩ := createUnnamedAnonResource_spec m.manager
  refine ⟨hext, hcount ▸ Nat.le_succ _, ?_⟩
  intro name id hid
  have hmap := createUnnamedAnonResource_anonResourceMap m.manager
  exact (congrArg (fun map => map.lookup name) hmap).trans hid

theorem getOrCreateNamed_spec (name : String) (m : Resources N) :
    m ≤ (getOrCreateNamedAnonResource name m).2 ∧
      (getOrCreateNamedAnonResource name m).2.Denotes name
        (getOrCreateNamedAnonResource name m).1 := by
  cases hname : m.manager.anonResourceMap.lookup name with
  | some id =>
    have hrun : m.manager.getOrCreateNamedAnonResource name = (m.manager, id) := by
      rw [GraphElementManager.getOrCreateNamedAnonResource, hname]
    simp only [getOrCreateNamedAnonResource, Resources.Denotes, hrun]
    exact ⟨le_rfl, hname⟩
  | none =>
    have hrun : m.manager.getOrCreateNamedAnonResource name =
        ({ m.manager.createUnnamedAnonResource.1 with
          anonResourceMap := m.manager.createUnnamedAnonResource.1.anonResourceMap.insert name
            m.manager.createUnnamedAnonResource.2 }, m.manager.createUnnamedAnonResource.2) := by
      rw [GraphElementManager.getOrCreateNamedAnonResource, hname]
    simp only [getOrCreateNamedAnonResource, Resources.Denotes, hrun]
    obtain ⟨hext, hcount, hmap⟩ := le_createUnnamed m
    refine ⟨⟨hext, hcount, ?_⟩, AList.lookup_insert _⟩
    intro name' id hid
    by_cases hsame : name' = name
    · subst hsame
      rw [hname] at hid
      cases hid
    · dsimp only
      rw [AList.lookup_insert_ne hsame]
      exact hmap name' id hid

theorem getOrCreateNamed_of_denotes {m : Resources N} {name : String} {id : GraphElementId}
    (h : m.Denotes name id) : getOrCreateNamedAnonResource name m = (id, m) := by
  have hrun : m.manager.getOrCreateNamedAnonResource name = (m.manager, id) := by
    rw [GraphElementManager.getOrCreateNamedAnonResource, h]
  simp only [getOrCreateNamedAnonResource, hrun]

theorem settles_getOrCreateNamed (name : String) :
    Settles (getOrCreateNamedAnonResource name : Interning N GraphElementId) := by
  refine ⟨fun s => (getOrCreateNamed_spec name s).1, fun s t h => ?_⟩
  exact getOrCreateNamed_of_denotes (h.2.2 _ _ (getOrCreateNamed_spec name s).2)

theorem yields_getOrCreateNamed (name : String) :
    Yields (getOrCreateNamedAnonResource name : Interning N GraphElementId)
      fun m id => m.Denotes name id := by
  intro s
  obtain ⟨hle, hid⟩ := getOrCreateNamed_spec name s
  exact ⟨hle, fun t h => h.2.2 _ _ hid⟩

end Owl

end RdfDatalog

namespace RdfDatalog.Owl

variable {N : NativeTypes}

abbrev FullIri := IriReference
abbrev AnnotationProperty := FullIri
abbrev ObjectProperty := FullIri
abbrev DataProperty := FullIri
abbrev Datatype := FullIri
abbrev Class := FullIri

inductive Individual where
  | namedIndividual (iri : FullIri)
  | anonymousIndividual (id : Nat)
  deriving DecidableEq

inductive AnnotationValue (N : NativeTypes) where
  | individualAnnotation (individual : Individual)
  | literalAnnotation (literal : GraphElement N)
  | iriAnnotation (iri : FullIri)
  deriving DecidableEq

inductive Annotation (N : NativeTypes) where
  | mk (property : AnnotationProperty) (value : AnnotationValue N)
    (annotations : List ( Annotation N))

abbrev Annotations (N : NativeTypes) := List ( Annotation N)

inductive AnnotationAxiom (N : NativeTypes) where
  | annotationAssertion (annotations : Annotations N) (property : AnnotationProperty)
    (subject value : GraphElement N)
  | subAnnotationPropertyOf (annotations : Annotations N) (sub sup : AnnotationProperty)
  | annotationPropertyDomain (annotations : Annotations N) (property : AnnotationProperty)
    (domain : FullIri)
  | annotationPropertyRange (annotations : Annotations N) (property : AnnotationProperty)
    (range : FullIri)

inductive DataRange (N : NativeTypes) where
  | namedDataRange (datatype : Datatype)
  | dataIntersectionOf (ranges : List (DataRange N))
  | dataUnionOf (ranges : List (DataRange N))
  | dataComplementOf (range : DataRange N)
  | dataOneOf (literals : List (GraphElement N))
  | datatypeRestriction (datatype : Datatype) (facets : List (DataProperty × GraphElement N))

inductive ObjectPropertyExpression where
  | namedObjectProperty (property : ObjectProperty)
  | anonymousObjectProperty (id : Nat)
  | inverseObjectProperty (inner : ObjectPropertyExpression)
  | objectPropertyChain (props : List ObjectPropertyExpression)

/-- The left-hand side of a sub-property axiom. -/
inductive SubPropertyExpression where
  | subObjectPropertyExpression (prop : ObjectPropertyExpression)
  | propertyExpressionChain (chain : List ObjectPropertyExpression)

inductive ClassExpression (N : NativeTypes) where
  | className (cls : Class)
  | anonymousClass (id : Nat)
  | objectUnionOf (exprs : List (ClassExpression N))
  | objectIntersectionOf (exprs : List (ClassExpression N))
  | objectComplementOf (inner : ClassExpression N)
  | objectOneOf (individuals : List Individual)
  | objectSomeValuesFrom (prop : ObjectPropertyExpression) (inner : ClassExpression N)
  | objectAllValuesFrom (prop : ObjectPropertyExpression) (inner : ClassExpression N)
  | objectHasValue (prop : ObjectPropertyExpression) (individual : Individual)
  | objectHasSelf (prop : ObjectPropertyExpression)
  | objectMinQualifiedCardinality (card : Int) (prop : ObjectPropertyExpression)
    (inner : ClassExpression N)
  | objectMaxQualifiedCardinality (card : Int) (prop : ObjectPropertyExpression)
    (inner : ClassExpression N)
  | objectExactQualifiedCardinality (card : Int) (prop : ObjectPropertyExpression)
    (inner : ClassExpression N)
  | objectExactCardinality (card : Int) (prop : ObjectPropertyExpression)
  | objectMinCardinality (card : Int) (prop : ObjectPropertyExpression)
  | objectMaxCardinality (card : Int) (prop : ObjectPropertyExpression)
  | dataSomeValuesFrom (props : List DataProperty) (range : DataRange N)
  | dataAllValuesFrom (props : List DataProperty) (range : DataRange N)
  | dataHasValue (prop : DataProperty) (value : GraphElement N)
  | dataMinQualifiedCardinality (card : Int) (prop : DataProperty) (range : DataRange N)
  | dataMaxQualifiedCardinality (card : Int) (prop : DataProperty) (range : DataRange N)
  | dataExactQualifiedCardinality (card : Int) (prop : DataProperty) (range : DataRange N)
  | dataMinCardinality (card : Int) (prop : DataProperty)
  | dataMaxCardinality (card : Int) (prop : DataProperty)
  | dataExactCardinality (card : Int) (prop : DataProperty)

inductive ObjectPropertyAxiom (N : NativeTypes) where
  | objectPropertyDomain (annotations : Annotations N) (prop : ObjectPropertyExpression)
    (domain : ClassExpression N)
  | objectPropertyRange (annotations : Annotations N) (prop : ObjectPropertyExpression)
    (range : ClassExpression N)
  | subObjectPropertyOf (annotations : Annotations N) (sub : SubPropertyExpression)
    (sup : ObjectPropertyExpression)
  | equivalentObjectProperties (annotations : Annotations N)
    (props : List ObjectPropertyExpression)
  | disjointObjectProperties (annotations : Annotations N)
    (props : List ObjectPropertyExpression)
  | inverseObjectProperties (annotations : Annotations N)
    (left right : ObjectPropertyExpression)
  | functionalObjectProperty (annotations : Annotations N) (prop : ObjectPropertyExpression)
  | inverseFunctionalObjectProperty (annotations : Annotations N)
    (prop : ObjectPropertyExpression)
  | reflexiveObjectProperty (annotations : Annotations N) (prop : ObjectPropertyExpression)
  | irreflexiveObjectProperty (annotations : Annotations N) (prop : ObjectPropertyExpression)
  | symmetricObjectProperty (annotations : Annotations N) (prop : ObjectPropertyExpression)
  | asymmetricObjectProperty (annotations : Annotations N) (prop : ObjectPropertyExpression)
  | transitiveObjectProperty (annotations : Annotations N) (prop : ObjectPropertyExpression)

inductive DataPropertyAxiom (N : NativeTypes) where
  | subDataPropertyOf (annotations : Annotations N) (sub sup : DataProperty)
  | equivalentDataProperties (annotations : Annotations N) (props : List DataProperty)
  | disjointDataProperties (annotations : Annotations N) (props : List DataProperty)
  | dataPropertyDomain (annotations : Annotations N) (prop : DataProperty)
    (domain : ClassExpression N)
  | dataPropertyRange (annotations : Annotations N) (prop : DataProperty)
    (range : DataRange N)
  | functionalDataProperty (annotations : Annotations N) (prop : DataProperty)

inductive ClassAxiom (N : NativeTypes) where
  | subClassOf (annotations : Annotations N) (sub sup : ClassExpression N)
  | equivalentClasses (annotations : Annotations N) (classes : List (ClassExpression N))
  | disjointClasses (annotations : Annotations N) (classes : List (ClassExpression N))
  | disjointUnion (annotations : Annotations N) (cls : Class)
    (classes : List (ClassExpression N))

inductive Assertion (N : NativeTypes) where
  | sameIndividual (annotations : Annotations N) (individuals : List Individual)
  | differentIndividuals (annotations : Annotations N) (individuals : List Individual)
  | classAssertion (annotations : Annotations N) (cls : ClassExpression N)
    (individual : Individual)
  | objectPropertyAssertion (annotations : Annotations N) (prop : ObjectPropertyExpression)
    (subject object : Individual)
  | negativeObjectPropertyAssertion (annotations : Annotations N)
    (prop : ObjectPropertyExpression) (subject object : Individual)
  | dataPropertyAssertion (annotations : Annotations N) (prop : DataProperty)
    (subject : Individual) (value : GraphElement N)
  | negativeDataPropertyAssertion (annotations : Annotations N) (prop : DataProperty)
    (subject : Individual) (value : GraphElement N)

inductive Entity where
  | classDeclaration (cls : Class)
  | objectPropertyDeclaration (prop : ObjectProperty)
  | dataPropertyDeclaration (prop : DataProperty)
  | datatypeDeclaration (datatype : Datatype)
  | annotationPropertyDeclaration (prop : AnnotationProperty)
  | namedIndividualDeclaration (individual : Individual)

abbrev Declaration (N : NativeTypes) := Annotations N × Entity

inductive Axiom (N : NativeTypes) where
  | axiomDeclaration (declaration : Declaration N)
  | axiomClassAxiom (classAxiom : ClassAxiom N)
  | axiomObjectPropertyAxiom (propertyAxiom : ObjectPropertyAxiom N)
  | axiomDataPropertyAxiom (propertyAxiom : DataPropertyAxiom N)
  | axiomDatatypeDefinition (annotations : Annotations N) (datatype : Datatype)
    (range : DataRange N)
  | axiomHasKey (annotations : Annotations N) (cls : ClassExpression N)
    (objectProps : List ObjectPropertyExpression) (dataProps : List DataProperty)
  | axiomAssertion (assertion : Assertion N)
  | axiomAnnotationAxiom (annotationAxiom : AnnotationAxiom N)

/-- The axioms of an ontology; imports, version, annotations and SWRL rules compile to nothing and
are left out. -/
structure Ontology (N : NativeTypes) where
  axioms : List (Axiom N)

namespace Ontology

/-- Remove the first axiom that equals `a`; the flag says whether there was one. -/
def removeAxiom [DecidableEq (Axiom N)] (o : Ontology N) (a : Axiom N) : Ontology N × Bool :=
  if a ∈ o.axioms then (⟨o.axioms.erase a⟩, true) else (o, false)

def builtInDeclarations : List (Axiom N) :=
  let declare (entity : FullIri → Entity) (iris : List FullIri) : List (Axiom N) :=
    iris.map fun iri => .axiomDeclaration ([], entity iri)
  declare .classDeclaration
      ["http://www.w3.org/2002/07/owl#Thing", "http://www.w3.org/2002/07/owl#Nothing"] ++
    declare .objectPropertyDeclaration
      ["http://www.w3.org/2002/07/owl#topObjectProperty",
        "http://www.w3.org/2002/07/owl#bottomObjectProperty"] ++
    declare .dataPropertyDeclaration
      ["http://www.w3.org/2002/07/owl#topDataProperty",
        "http://www.w3.org/2002/07/owl#bottomDataProperty"] ++
    declare .datatypeDeclaration
      ["http://www.w3.org/2000/01/rdf-schema#Literal", "http://www.w3.org/2002/07/owl#real",
        "http://www.w3.org/2002/07/owl#rational", "http://www.w3.org/2001/XMLSchema#decimal",
        "http://www.w3.org/2001/XMLSchema#integer",
        "http://www.w3.org/2001/XMLSchema#nonNegativeInteger",
        "http://www.w3.org/2001/XMLSchema#nonPositiveInteger",
        "http://www.w3.org/2001/XMLSchema#positiveInteger",
        "http://www.w3.org/2001/XMLSchema#negativeInteger",
        "http://www.w3.org/2001/XMLSchema#long", "http://www.w3.org/2001/XMLSchema#int",
        "http://www.w3.org/2001/XMLSchema#short", "http://www.w3.org/2001/XMLSchema#byte",
        "http://www.w3.org/2001/XMLSchema#unsignedLong",
        "http://www.w3.org/2001/XMLSchema#unsignedInt",
        "http://www.w3.org/2001/XMLSchema#unsignedShort",
        "http://www.w3.org/2001/XMLSchema#unsignedByte"] ++
    declare .annotationPropertyDeclaration
      ["http://www.w3.org/2000/01/rdf-schema#label",
        "http://www.w3.org/2000/01/rdf-schema#comment",
        "http://www.w3.org/2000/01/rdf-schema#seeAlso",
        "http://www.w3.org/2000/01/rdf-schema#isDefinedBy",
        "http://www.w3.org/2002/07/owl#deprecated", "http://www.w3.org/2002/07/owl#versionInfo",
        "http://www.w3.org/2002/07/owl#priorVersion",
        "http://www.w3.org/2002/07/owl#backwardCompatibleWith",
        "http://www.w3.org/2002/07/owl#incompatibleWith"]

def allAxioms (o : Ontology N) : List (Axiom N) := o.axioms ++ builtInDeclarations

theorem mem_builtInDeclarations {a : Axiom N} (h : a ∈ builtInDeclarations) :
    ∃ declaration, a = .axiomDeclaration declaration := by
  simp only [builtInDeclarations, List.mem_append, List.mem_map] at h
  rcases h with (((⟨_, _, h⟩ | ⟨_, _, h⟩) | ⟨_, _, h⟩) | ⟨_, _, h⟩) | ⟨_, _, h⟩
  all_goals exact ⟨_, h.symm⟩

end Ontology

end RdfDatalog.Owl

namespace RdfDatalog.Owl

variable {N : NativeTypes}

/-- What the printers of the standard library look up: which characters outside ASCII are printed
as they are, and the text of a graph element. -/
structure DebugEnv (N : NativeTypes) where
  printable : Char → Bool
  graphElement : GraphElement N → String

def escapeUnicode (c : Char) : String :=
  "\\u\x7b" ++ String.ofList (Nat.toDigits 16 c.toNat) ++ "\x7d"

namespace DebugEnv

variable (env : DebugEnv N)

def escapeDebug (c : Char) : String :=
  if c = '\x00' then "\\0"
  else if c = '\t' then "\\t"
  else if c = '\r' then "\\r"
  else if c = '\n' then "\\n"
  else if c = '"' then "\\\""
  else if c = '\\' then "\\\\"
  else if c.toNat < 32 ∨ c.toNat = 127 then escapeUnicode c
  else if c.toNat < 128 ∨ env.printable c then c.toString
  else escapeUnicode c

def str (s : String) : String := "\"" ++ String.join (s.toList.map env.escapeDebug) ++ "\""

def tuple (name : String) (fields : List String) : String :=
  name ++ "(" ++ ", ".intercalate fields ++ ")"

def vec (items : List String) : String := "[" ++ ", ".intercalate items ++ "]"

def fullIri (iri : FullIri) : String :=
  tuple "FullIri" [tuple "IriReference" [env.str iri]]

def individual : Individual → String
  | .namedIndividual iri => tuple "NamedIndividual" [env.fullIri iri]
  | .anonymousIndividual id => tuple "AnonymousIndividual" [toString id]

mutual

def dataRange : DataRange N → String
  | .namedDataRange datatype => tuple "NamedDataRange" [env.fullIri datatype]
  | .dataIntersectionOf ranges => tuple "DataIntersectionOf" [vec (dataRanges ranges)]
  | .dataUnionOf ranges => tuple "DataUnionOf" [vec (dataRanges ranges)]
  | .dataComplementOf range => tuple "DataComplementOf" [dataRange range]
  | .dataOneOf literals => tuple "DataOneOf" [vec (literals.map env.graphElement)]
  | .datatypeRestriction datatype facets =>
    tuple "DatatypeRestriction" [env.fullIri datatype,
      vec (facets.map fun f => tuple "" [env.fullIri f.1, env.graphElement f.2])]

def dataRanges : List (DataRange N) → List String
  | [] => []
  | range :: ranges => dataRange range :: dataRanges ranges

end

mutual

def objectPropertyExpression : ObjectPropertyExpression → String
  | .namedObjectProperty property => tuple "NamedObjectProperty" [env.fullIri property]
  | .anonymousObjectProperty id => tuple "AnonymousObjectProperty" [toString id]
  | .inverseObjectProperty inner =>
    tuple "InverseObjectProperty" [objectPropertyExpression inner]
  | .objectPropertyChain props =>
    tuple "ObjectPropertyChain" [vec (objectPropertyExpressions props)]

def objectPropertyExpressions : List ObjectPropertyExpression → List String
  | [] => []
  | prop :: props => objectPropertyExpression prop :: objectPropertyExpressions props

end

mutual

def classExpression : ClassExpression N → String
  | .className cls => tuple "ClassName" [env.fullIri cls]
  | .anonymousClass id => tuple "AnonymousClass" [toString id]
  | .objectUnionOf exprs => tuple "ObjectUnionOf" [vec (classExpressions exprs)]
  | .objectIntersectionOf exprs => tuple "ObjectIntersectionOf" [vec (classExpressions exprs)]
  | .objectComplementOf inner => tuple "ObjectComplementOf" [classExpression inner]
  | .objectOneOf individuals => tuple "ObjectOneOf" [vec (individuals.map env.individual)]
  | .objectSomeValuesFrom prop inner =>
    tuple "ObjectSomeValuesFrom" [env.objectPropertyExpression prop, classExpression inner]
  | .objectAllValuesFrom prop inner =>
    tuple "ObjectAllValuesFrom" [env.objectPropertyExpression prop, classExpression inner]
  | .objectHasValue prop individual =>
    tuple "ObjectHasValue" [env.objectPropertyExpression prop, env.individual individual]
  | .objectHasSelf prop => tuple "ObjectHasSelf" [env.objectPropertyExpression prop]
  | .objectMinQualifiedCardinality card prop inner =>
    tuple "ObjectMinQualifiedCardinality"
      [toString card, env.objectPropertyExpression prop, classExpression inner]
  | .objectMaxQualifiedCardinality card prop inner =>
    tuple "ObjectMaxQualifiedCardinality"
      [toString card, env.objectPropertyExpression prop, classExpression inner]
  | .objectExactQualifiedCardinality card prop inner =>
    tuple "ObjectExactQualifiedCardinality"
      [toString card, env.objectPropertyExpression prop, classExpression inner]
  | .objectExactCardinality card prop =>
    tuple "ObjectExactCardinality" [toString card, env.objectPropertyExpression prop]
  | .objectMinCardinality card prop =>
    tuple "ObjectMinCardinality" [toString card, env.objectPropertyExpression prop]
  | .objectMaxCardinality card prop =>
    tuple "ObjectMaxCardinality" [toString card, env.objectPropertyExpression prop]
  | .dataSomeValuesFrom props range =>
    tuple "DataSomeValuesFrom" [vec (props.map env.fullIri), env.dataRange range]
  | .dataAllValuesFrom props range =>
    tuple "DataAllValuesFrom" [vec (props.map env.fullIri), env.dataRange range]
  | .dataHasValue prop value => tuple "DataHasValue" [env.fullIri prop, env.graphElement value]
  | .dataMinQualifiedCardinality card prop range =>
    tuple "DataMinQualifiedCardinality" [toString card, env.fullIri prop, env.dataRange range]
  | .dataMaxQualifiedCardinality card prop range =>
    tuple "DataMaxQualifiedCardinality" [toString card, env.fullIri prop, env.dataRange range]
  | .dataExactQualifiedCardinality card prop range =>
    tuple "DataExactQualifiedCardinality" [toString card, env.fullIri prop, env.dataRange range]
  | .dataMinCardinality card prop =>
    tuple "DataMinCardinality" [toString card, env.fullIri prop]
  | .dataMaxCardinality card prop =>
    tuple "DataMaxCardinality" [toString card, env.fullIri prop]
  | .dataExactCardinality card prop =>
    tuple "DataExactCardinality" [toString card, env.fullIri prop]

def classExpressions : List (ClassExpression N) → List String
  | [] => []
  | expr :: exprs => classExpression expr :: classExpressions exprs

end

example (env : DebugEnv N) : env.classExpression (.objectComplementOf (.className "ex:A")) =
    "ObjectComplementOf(ClassName(FullIri(IriReference(\"ex:A\"))))" := rfl

end DebugEnv

end RdfDatalog.Owl
