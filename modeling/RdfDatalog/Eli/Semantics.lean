import RdfDatalog.Eli.Extractor
import RdfDatalog.Datalog.PositiveRules

namespace RdfDatalog

namespace Owl

open Datalog (Term QuadPattern RuleHead RuleAtom Rule)

/-- A rule compiled from an ontology: no rule has a guard. -/
abbrev OwlRule := Rule Empty

def rdfType : IriReference := "http://www.w3.org/1999/02/22-rdf-syntax-ns#type"
def owlSameAs : IriReference := "http://www.w3.org/2002/07/owl#sameAs"

def getDefaultGraphPattern (subject predicate object : Term) : QuadPattern :=
  ⟨.resource defaultGraphElementId, subject, predicate, object⟩

end Owl

namespace Eli

open Owl Datalog

variable {N : NativeTypes}

def getTypePattern (var : String) (cls : Owl.Class) : Interning N QuadPattern := do
  let typeId ← addNodeResource (.iri rdfType)
  let classId ← addNodeResource (.iri cls)
  pure (getDefaultGraphPattern (.var var) (.resource typeId) (.resource classId))

def getAnonymousTypePattern (var : String) : Interning N QuadPattern := do
  let anon ← createUnnamedAnonResource
  let typeId ← addNodeResource (.iri rdfType)
  pure (getDefaultGraphPattern (.var var) (.resource typeId) (.resource anon))

def getRolePattern (roleId : GraphElementId) (subjectVar objectVar : String) : QuadPattern :=
  getDefaultGraphPattern (.var subjectVar) (.resource roleId) (.var objectVar)

def individualToId : Individual → Interning N GraphElementId
  | .namedIndividual iri => addNodeResource (.iri iri)
  | .anonymousIndividual id => getOrCreateNamedAnonResource (toString id)

def getRoleValuePattern (roleId : GraphElementId) (subjectVar : String)
    (individual : Individual) : Interning N QuadPattern := do
  let objId ← individualToId individual
  pure (getDefaultGraphPattern (.var subjectVar) (.resource roleId) (.resource objId))

def getSingleRolePattern : ObjectPropertyExpression → String → String →
    OptionT (Interning N) QuadPattern
  | .namedObjectProperty iri, subjectVar, objectVar => do
    let roleId ← OptionT.lift (addNodeResource (.iri iri))
    pure (getRolePattern roleId subjectVar objectVar)
  | .anonymousObjectProperty id, subjectVar, objectVar => do
    let roleId ← OptionT.lift (addNodeResource (.anonymousBlankNode id))
    pure (getRolePattern roleId subjectVar objectVar)
  | .inverseObjectProperty inner, subjectVar, objectVar =>
    getSingleRolePattern inner objectVar subjectVar
  | .objectPropertyChain _, _, _ => failure

def getSingleObjValuePattern (prop : ObjectPropertyExpression) (subjectVar : String)
    (individual : Individual) : OptionT (Interning N) QuadPattern :=
  let forward (role : RdfResource) : OptionT (Interning N) QuadPattern := do
    let roleId ← OptionT.lift (addNodeResource role)
    OptionT.lift (getRoleValuePattern roleId subjectVar individual)
  let backward (role : RdfResource) : OptionT (Interning N) QuadPattern := do
    let roleId ← OptionT.lift (addNodeResource role)
    let objId ← OptionT.lift (individualToId individual)
    pure (getDefaultGraphPattern (.resource objId) (.resource roleId) (.var subjectVar))
  match prop with
  | .namedObjectProperty iri => forward (.iri iri)
  | .anonymousObjectProperty id => forward (.anonymousBlankNode id)
  | .inverseObjectProperty (.namedObjectProperty iri) => backward (.iri iri)
  | .inverseObjectProperty (.anonymousObjectProperty id) => backward (.anonymousBlankNode id)
  | .inverseObjectProperty _ => failure
  | .objectPropertyChain _ => failure

mutual

/-- The join atoms that lead from `subjectVar` to `objectVar`. -/
def getObjPropPattern : ObjectPropertyExpression → String → String →
    OptionT (Interning N) (List QuadPattern)
  | .namedObjectProperty iri, subjectVar, objectVar => do
    let pattern ← getSingleRolePattern (.namedObjectProperty iri) subjectVar objectVar
    pure [pattern]
  | .anonymousObjectProperty id, subjectVar, objectVar => do
    let pattern ← getSingleRolePattern (.anonymousObjectProperty id) subjectVar objectVar
    pure [pattern]
  | .inverseObjectProperty (.objectPropertyChain _), _, _ => failure
  | .inverseObjectProperty inner, subjectVar, objectVar =>
    getObjPropPattern inner objectVar subjectVar
  | .objectPropertyChain props, subjectVar, objectVar =>
    buildPropChain props subjectVar objectVar
      (fun link var => getSingleRolePattern link var objectVar) 0 subjectVar

/-- The links of a chain from `curVar` on: free variables between them, and `finalLink` for the
last one. -/
def buildPropChain : List ObjectPropertyExpression → (subjectVar varHint : String) →
    (finalLink : ObjectPropertyExpression → String → OptionT (Interning N) QuadPattern) →
    (i : Nat) → (curVar : String) → OptionT (Interning N) (List QuadPattern)
  | [], _, _, _, _, _ => failure
  | [last], _, _, finalLink, _, curVar => do
    let pattern ← finalLink last curVar
    pure [pattern]
  | link :: props, subjectVar, varHint, finalLink, i, curVar => do
    let nextVar := subjectVar ++ "_" ++ varHint ++ "_chain" ++ toString i
    let patterns ← getObjPropPattern link curVar nextVar
    let rest ← buildPropChain props subjectVar varHint finalLink (i + 1) nextVar
    pure (patterns ++ rest)

end

/-- The join atoms that lead from `subjectVar` to the individual. -/
def getObjValuePattern (prop : ObjectPropertyExpression) (subjectVar : String)
    (individual : Individual) : OptionT (Interning N) (List QuadPattern) :=
  let single : OptionT (Interning N) (List QuadPattern) := do
    let pattern ← getSingleObjValuePattern prop subjectVar individual
    pure [pattern]
  match prop with
  | .namedObjectProperty _ => single
  | .anonymousObjectProperty _ => single
  | .inverseObjectProperty (.objectPropertyChain _) => failure
  | .inverseObjectProperty _ => single
  | .objectPropertyChain props =>
    buildPropChain props subjectVar "hv"
      (fun link var => getSingleObjValuePattern link var individual) 0 subjectVar

mutual

def translateEli : ComplexConcept → (varName : String) → (clause : Nat) →
    OptionT (Interning N) (List QuadPattern)
  | .atomicConcept iri, varName, _ => do
    let pattern ← OptionT.lift (getTypePattern varName iri)
    pure [pattern]
  | .intersection clauses, varName, _ => translateClauses clauses varName 1
  | .someValuesFrom role inner, varName, clause => do
    let newVar := varName ++ "_" ++ toString clause
    let roleTriples ← getObjPropPattern role varName newVar
    let conceptTriples ← translateEli inner newVar 1
    pure (roleTriples ++ conceptTriples)
  | .top, _, _ => pure []

/-- The clauses of an intersection, numbered from `i`. -/
def translateClauses : List ComplexConcept → (varName : String) → (i : Nat) →
    OptionT (Interning N) (List QuadPattern)
  | [], _, _ => pure []
  | clause :: clauses, varName, i => do
    let patterns ← translateEli clause varName i
    let rest ← translateClauses clauses varName (i + 1)
    pure (patterns ++ rest)

end

def positiveAtoms (patterns : List QuadPattern) : List (RuleAtom Empty) :=
  patterns.map .positivePattern

variable (subConjunction : List Owl.Class)

def typePatterns : Interning N (List QuadPattern) :=
  subConjunction.mapM (getTypePattern "X")

def translateSimpleSubclass (sub : ComplexConcept) (sup : Owl.Class) :
    OptionT (Interning N) OwlRule := do
  let head ← OptionT.lift (getTypePattern "X" sup)
  let body ← translateEli sub "X" 1
  pure ⟨.normalHead head, positiveAtoms body⟩

def translateEmptyIntersection (subConcepts : List Owl.Class) : OptionT (Interning N) OwlRule := do
  let body ← OptionT.lift (typePatterns subConcepts)
  pure ⟨.contradiction, positiveAtoms body⟩

def getAtomicNormalizedRule (conceptName : Owl.Class) : OptionT (Interning N) (List OwlRule) := do
  let head ← OptionT.lift (getTypePattern "X" conceptName)
  let body ← OptionT.lift (typePatterns subConjunction)
  pure [⟨.normalHead head, positiveAtoms body⟩]

def getAtomicAnonymousNormalizedRule : OptionT (Interning N) (List OwlRule) := do
  let head ← OptionT.lift (getAnonymousTypePattern "X")
  let body ← OptionT.lift (typePatterns subConjunction)
  pure [⟨.normalHead head, positiveAtoms body⟩]

def getUniversalNormalizedRule (prop : ObjectPropertyExpression)
    (conceptName : Owl.Class) : OptionT (Interning N) (List OwlRule) := do
  let roles ← getObjPropPattern prop "X" "Y"
  let head ← OptionT.lift (getTypePattern "Y" conceptName)
  let types ← OptionT.lift (typePatterns subConjunction)
  pure [⟨.normalHead head, positiveAtoms (types ++ roles)⟩]

def getAtMostOneNormalizedRule (prop : ObjectPropertyExpression) :
    OptionT (Interning N) (List OwlRule) := do
  let p₁ ← getObjPropPattern prop "X" "Y1"
  let p₂ ← getObjPropPattern prop "X" "Y2"
  let types ← OptionT.lift (typePatterns subConjunction)
  let sameAsRoleId ← OptionT.lift (addNodeResource (.iri owlSameAs))
  pure [⟨.normalHead (getRolePattern sameAsRoleId "Y1" "Y2"), positiveAtoms (types ++ p₁ ++ p₂)⟩]

def getAtMostZeroNormalizedRule (prop : ObjectPropertyExpression) :
    OptionT (Interning N) (List OwlRule) := do
  let roles ← getObjPropPattern prop "X" "Y"
  let types ← OptionT.lift (typePatterns subConjunction)
  pure [⟨.contradiction, positiveAtoms (types ++ roles)⟩]

/-- The last join atom is the head, the others join the body. -/
def getObjectHasValueNormalizedRule
    (prop : ObjectPropertyExpression) (individual : Individual) :
    OptionT (Interning N) (List OwlRule) := do
  let patterns ← getObjValuePattern prop "X" individual
  let headPattern ← OptionT.mk (pure patterns.getLast?)
  let types ← OptionT.lift (typePatterns subConjunction)
  pure [⟨.normalHead headPattern, positiveAtoms (types ++ patterns.dropLast)⟩]

def generateAxiomRl : Formula → OptionT (Interning N) (List OwlRule)
  | .directlyTranslatableConceptInclusion subclassDisjunction superclassConjunction =>
    (subclassDisjunction.flatMap fun sub => superclassConjunction.map fun sup => (sub, sup)).mapM
      fun p => translateSimpleSubclass p.1 p.2
  | .normalizedConceptInclusion subclassConjunction superclass =>
    match superclass with
    | .bottom => do
      let rule ← translateEmptyIntersection subclassConjunction
      pure [rule]
    | .atomicNamedConcept cls => getAtomicNormalizedRule subclassConjunction cls
    | .atomicAnonymousConcept => getAtomicAnonymousNormalizedRule subclassConjunction
    | .allValuesFrom prop cls => getUniversalNormalizedRule subclassConjunction prop cls
    | .objectHasValue prop individual =>
      getObjectHasValueNormalizedRule subclassConjunction prop individual
    | .atMostOneValueFrom prop => getAtMostOneNormalizedRule subclassConjunction prop
    | .atMostZeroValueFrom prop => getAtMostZeroNormalizedRule subclassConjunction prop

/-- The rules of all formulas, or none when one of them cannot be translated. -/
def generateTboxRl (formulas : List Formula) : OptionT (Interning N) (List OwlRule) := do
  let rules ← formulas.mapM generateAxiomRl
  pure rules.flatten

def owl2datalog (env : DebugEnv N) (classAxiom : ClassAxiom N) :
    OptionT (Interning N) (List OwlRule) :=
  match eliAxiomExtractor env classAxiom with
  | none => failure
  | some formulas => generateTboxRl formulas

end Eli

end RdfDatalog

namespace RdfDatalog.Eli

open Owl Datalog

variable {N : NativeTypes} {D : Type}

/-- What classes, properties and individuals stand for, and which elements count as the same. -/
structure Interpretation (D : Type) where
  cls : Owl.Class → D → Prop
  role : RdfResource → D → D → Prop
  ind : Individual → D → Prop
  same : D → D → Prop

namespace Interpretation

variable (I : Interpretation D)

mutual

def prop : ObjectPropertyExpression → D → D → Prop
  | .namedObjectProperty iri => I.role (.iri iri)
  | .anonymousObjectProperty id => I.role (.anonymousBlankNode id)
  | .inverseObjectProperty inner => fun x y => prop inner y x
  | .objectPropertyChain props => path props

def path : List ObjectPropertyExpression → D → D → Prop
  | [] => Eq
  | p :: props => fun x z => ∃ y, prop p x y ∧ path props y z

end

mutual

def concept : ComplexConcept → D → Prop
  | .top => fun _ => True
  | .atomicConcept cls => I.cls cls
  | .intersection clauses => clausesHold clauses
  | .someValuesFrom role inner => fun x => ∃ y, I.prop role x y ∧ concept inner y

def clausesHold : List ComplexConcept → D → Prop
  | [] => fun _ => True
  | clause :: clauses => fun x => concept clause x ∧ clausesHold clauses x

end

def normalized : NormalizedConcept → D → Prop
  | .bottom => fun _ => False
  | .atomicNamedConcept cls => I.cls cls
  | .atomicAnonymousConcept => fun _ => True
  | .objectHasValue prop individual => fun x => ∀ d, I.ind individual d → I.prop prop x d
  | .allValuesFrom prop cls => fun x => ∀ y, I.prop prop x y → I.cls cls y
  | .atMostOneValueFrom prop => fun x => ∀ y z, I.prop prop x y → I.prop prop x z → I.same y z
  | .atMostZeroValueFrom prop => fun x => ∀ y, ¬ I.prop prop x y

def formula : Formula → Prop
  | .directlyTranslatableConceptInclusion subs sups =>
    ∀ sub ∈ subs, ∀ sup ∈ sups, ∀ x, I.concept sub x → I.cls sup x
  | .normalizedConceptInclusion conj sup => ∀ x, (∀ c ∈ conj, I.cls c x) → I.normalized sup x

end Interpretation

/-- What a set of quads of the default graph says, under the ids of `m`. -/
def graphInterpretation (m : Resources N) (G : Set Quad) : Interpretation GraphElementId where
  cls cls x := ∃ t k, m.get t = some (.iri rdfType) ∧ m.get k = some (.iri cls) ∧
    ⟨defaultGraphElementId, x, t, k⟩ ∈ G
  role r x y := ∃ p, m.get p = some (.nodeOrEdge r) ∧ ⟨defaultGraphElementId, x, p, y⟩ ∈ G
  ind individual i := match individual with
    | .namedIndividual iri => m.get i = some (.iri iri)
    | .anonymousIndividual id => m.Denotes (toString id) i
  same x y := ∃ p, m.get p = some (.iri owlSameAs) ∧ ⟨defaultGraphElementId, x, p, y⟩ ∈ G

end RdfDatalog.Eli

namespace RdfDatalog.Owl.ObjectPropertyExpression

def isSingle : ObjectPropertyExpression → Bool
  | .namedObjectProperty _ => true
  | .anonymousObjectProperty _ => true
  | .inverseObjectProperty inner => inner.isSingle
  | .objectPropertyChain _ => false

/-- What `owl:hasValue` is translated for, chains apart. -/
def isSingleValue : ObjectPropertyExpression → Bool
  | .namedObjectProperty _ => true
  | .anonymousObjectProperty _ => true
  | .inverseObjectProperty (.namedObjectProperty _) => true
  | .inverseObjectProperty (.anonymousObjectProperty _) => true
  | _ => false

mutual

/-- The expression has join atoms. -/
def hasPattern : ObjectPropertyExpression → Bool
  | .namedObjectProperty _ => true
  | .anonymousObjectProperty _ => true
  | .inverseObjectProperty (.objectPropertyChain _) => false
  | .inverseObjectProperty inner => inner.hasPattern
  | .objectPropertyChain props => linksHavePatterns isSingle props

/-- Every link has join atoms, and the last one is `finalOk`. -/
def linksHavePatterns (finalOk : ObjectPropertyExpression → Bool) :
    List ObjectPropertyExpression → Bool
  | [] => false
  | [last] => finalOk last
  | link :: props => link.hasPattern && linksHavePatterns finalOk props

end

def hasValuePattern : ObjectPropertyExpression → Bool
  | .objectPropertyChain props => linksHavePatterns isSingleValue props
  | prop => prop.isSingleValue

end RdfDatalog.Owl.ObjectPropertyExpression

namespace RdfDatalog.Eli

open Owl

mutual

def ComplexConcept.hasPatterns : ComplexConcept → Bool
  | .top => true
  | .atomicConcept _ => true
  | .intersection clauses => clausesHavePatterns clauses
  | .someValuesFrom role inner => role.hasPattern && inner.hasPatterns

def clausesHavePatterns : List ComplexConcept → Bool
  | [] => true
  | clause :: clauses => clause.hasPatterns && clausesHavePatterns clauses

end

/-- The formula has rules: its property expressions have join atoms. -/
def Formula.translatable : Formula → Bool
  | .directlyTranslatableConceptInclusion subs sups =>
    sups.isEmpty || subs.all ComplexConcept.hasPatterns
  | .normalizedConceptInclusion _ sup =>
    match sup with
    | .bottom | .atomicNamedConcept _ | .atomicAnonymousConcept => true
    | .objectHasValue prop _ => prop.hasValuePattern
    | .allValuesFrom prop _ | .atMostOneValueFrom prop | .atMostZeroValueFrom prop =>
      prop.hasPattern

end RdfDatalog.Eli
