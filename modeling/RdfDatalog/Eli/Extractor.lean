import RdfDatalog.Owl.Axioms

namespace RdfDatalog.Eli

open Owl

variable {N : NativeTypes}

/-- The class expressions of sub-concept positions. -/
inductive ComplexConcept where
  | top
  | atomicConcept (cls : Owl.Class)
  | intersection (clauses : List ComplexConcept)
  | someValuesFrom (role : ObjectPropertyExpression) (inner : ComplexConcept)

/-- What a conjunction of named classes can be included in. -/
inductive NormalizedConcept where
  | bottom
  | atomicNamedConcept (cls : Owl.Class)
  | atomicAnonymousConcept
  | objectHasValue (prop : ObjectPropertyExpression) (individual : Individual)
  | allValuesFrom (prop : ObjectPropertyExpression) (cls : Owl.Class)
  | atMostOneValueFrom (prop : ObjectPropertyExpression)
  | atMostZeroValueFrom (prop : ObjectPropertyExpression)

inductive Formula where
  | directlyTranslatableConceptInclusion (subclassDisjunction : List ComplexConcept)
    (superclassConjunction : List Owl.Class)
  | normalizedConceptInclusion (subclassConjunction : List Owl.Class) (superclass :
      NormalizedConcept)

def owlNothing : Owl.Class := "http://www.w3.org/2002/07/owl#Nothing"

def representativeIri (n : Nat) : Owl.Class :=
  "https://github.org/daghovland/DagSemTools/ConceptRepresentative/" ++ toString n

/-- The class that stands for a complex concept: it is named by the length of the printed form. -/
def conceptRepresentative (env : DebugEnv N) (concept : ClassExpression N) : Owl.Class :=
  representativeIri (env.classExpression concept).utf8ByteSize

mutual

def eliClassExtractor : ClassExpression N → Option ComplexConcept
  | .className cls => some (.atomicConcept cls)
  | .objectIntersectionOf classes => (eliClassExtractors classes).map .intersection
  | .objectSomeValuesFrom role cls => (eliClassExtractor cls).map (.someValuesFrom role)
  | .objectMinQualifiedCardinality card role cls =>
    if card = 1 then (eliClassExtractor cls).map (.someValuesFrom role) else none
  | _ => none

def eliClassExtractors : List (ClassExpression N) → Option (List ComplexConcept)
  | [] => some []
  | c :: cs =>
    match eliClassExtractor c, eliClassExtractors cs with
    | some concept, some concepts => some (concept :: concepts)
    | _, _ => none

end

mutual

/-- The concepts of an existential restriction, distributed over the unions of its filler. -/
def existentialExtractor (role : ObjectPropertyExpression) :
    ClassExpression N → List (Option ComplexConcept)
  | .objectUnionOf exprs => existentialExtractors role exprs
  | inner => [eliClassExtractor (.objectSomeValuesFrom role inner)]

def existentialExtractors (role : ObjectPropertyExpression) :
    List (ClassExpression N) → List (Option ComplexConcept)
  | [] => []
  | inner :: inners => existentialExtractor role inner ++ existentialExtractors role inners

end

mutual

def eliSubClassExtractor : ClassExpression N → List (Option ComplexConcept)
  | .objectUnionOf exprs => eliSubClassExtractors exprs
  | .objectSomeValuesFrom role inner => existentialExtractor role inner
  | .objectMinQualifiedCardinality card role inner =>
    if card = 1 then
      match inner with
      | .objectUnionOf exprs => existentialExtractors role exprs
      | inner => [eliClassExtractor (.objectMinQualifiedCardinality card role inner)]
    else [eliClassExtractor (.objectMinQualifiedCardinality card role inner)]
  | expr => [eliClassExtractor expr]

def eliSubClassExtractors : List (ClassExpression N) → List (Option ComplexConcept)
  | [] => []
  | expr :: exprs => eliSubClassExtractor expr ++ eliSubClassExtractors exprs

end

mutual

def eliSuperClassExtractor : ClassExpression N → Option (List Owl.Class)
  | .objectIntersectionOf exprs => eliSuperClassExtractors exprs
  | .className cls => some [cls]
  | _ => none

def eliSuperClassExtractors : List (ClassExpression N) → Option (List Owl.Class)
  | [] => some []
  | expr :: exprs =>
    match eliSuperClassExtractor expr, eliSuperClassExtractors exprs with
    | some classes, some rest => some (classes ++ rest)
    | _, _ => none

end

def flattenOptionList {α : Type} (opts : List (Option α)) : Option (List α) := opts.mapM id

section Normalization

variable (env : DebugEnv N)

/-- `concept`, when it has a successor `cls` through `objProp`. -/
def subConceptSomeValuesFrom (objProp : ObjectPropertyExpression)
    (cls concept : ClassExpression N) : List Formula :=
  [.normalizedConceptInclusion [conceptRepresentative env cls]
    (.allValuesFrom (.inverseObjectProperty objProp) (conceptRepresentative env concept))]

mutual

def conceptPositiveOccurrenceNormalization : ClassExpression N → List Formula
  | .objectComplementOf inner =>
    .normalizedConceptInclusion [conceptRepresentative env (.objectComplementOf inner),
      conceptRepresentative env inner] .bottom ::
    conceptNegativeOccurrenceNormalization inner
  | .objectIntersectionOf exprs =>
    exprs.map (fun e => .normalizedConceptInclusion
      [conceptRepresentative env (.objectIntersectionOf exprs)]
      (.atomicNamedConcept (conceptRepresentative env e))) ++
    positiveNormalizations exprs
  | .objectHasValue prop individual =>
    [.normalizedConceptInclusion [conceptRepresentative env (.objectHasValue prop individual)]
      (.objectHasValue prop individual)]
  | .className cls =>
    [.normalizedConceptInclusion [conceptRepresentative env (.className cls)]
      (.atomicNamedConcept cls)]
  | .anonymousClass id =>
    [.normalizedConceptInclusion [conceptRepresentative env (.anonymousClass id)]
      .atomicAnonymousConcept]
  | .objectAllValuesFrom prop inner =>
    -- the filler is handed on as a negative occurrence
    .normalizedConceptInclusion [conceptRepresentative env (.objectAllValuesFrom prop inner)]
      (.allValuesFrom prop (conceptRepresentative env inner)) ::
    conceptNegativeOccurrenceNormalization inner
  | .objectMaxCardinality card prop =>
    if card = 0 then
      [.normalizedConceptInclusion [conceptRepresentative env (.objectMaxCardinality card prop)]
        (.atMostZeroValueFrom prop)]
    else if card = 1 then
      [.normalizedConceptInclusion [conceptRepresentative env (.objectMaxCardinality card prop)]
        (.atMostOneValueFrom prop)]
    else []
  | _ => []

def conceptNegativeOccurrenceNormalization : ClassExpression N → List Formula
  | .objectUnionOf exprs =>
    exprs.map (fun e => .normalizedConceptInclusion [conceptRepresentative env e]
      (.atomicNamedConcept (conceptRepresentative env (.objectUnionOf exprs)))) ++
    negativeNormalizations exprs
  | .objectSomeValuesFrom prop inner =>
    -- the filler is handed on as a positive occurrence
    subConceptSomeValuesFrom env prop inner (.objectSomeValuesFrom prop inner) ++
    conceptPositiveOccurrenceNormalization inner
  | .objectMinQualifiedCardinality card prop inner =>
    if card = 1 then
      subConceptSomeValuesFrom env prop inner (.objectMinQualifiedCardinality card prop inner) ++
      conceptPositiveOccurrenceNormalization inner
    else []
  | .objectComplementOf inner =>
    .normalizedConceptInclusion [conceptRepresentative env (.objectComplementOf inner),
      conceptRepresentative env inner] .bottom ::
    conceptPositiveOccurrenceNormalization inner
  | .className cls =>
    [.normalizedConceptInclusion [cls]
      (.atomicNamedConcept (conceptRepresentative env (.className cls)))]
  | .anonymousClass id =>
    [.normalizedConceptInclusion [conceptRepresentative env (.anonymousClass id)]
      (.atomicNamedConcept (conceptRepresentative env (.anonymousClass id)))]
  | .objectIntersectionOf exprs =>
    .normalizedConceptInclusion (exprs.map (conceptRepresentative env))
      (.atomicNamedConcept (conceptRepresentative env (.objectIntersectionOf exprs))) ::
    negativeNormalizations exprs
  | _ => []

def positiveNormalizations : List (ClassExpression N) → List Formula
  | [] => []
  | e :: es => conceptPositiveOccurrenceNormalization e ++ positiveNormalizations es

def negativeNormalizations : List (ClassExpression N) → List Formula
  | [] => []
  | e :: es => conceptNegativeOccurrenceNormalization e ++ negativeNormalizations es

end

/-- The normalisation of an inclusion. The source calls it on inclusions only. -/
def subClassAxiomNormalization (sub sup : ClassExpression N) : List Formula :=
  .normalizedConceptInclusion [conceptRepresentative env sub]
    (.atomicNamedConcept (conceptRepresentative env sup)) ::
  (conceptPositiveOccurrenceNormalization env sup ++
    conceptNegativeOccurrenceNormalization env sub)

def subClassExtractor (sub sup : ClassExpression N) : List Formula :=
  match flattenOptionList (eliSubClassExtractor sub), eliSuperClassExtractor sup with
  | some subs, some sups => [.directlyTranslatableConceptInclusion subs sups]
  | _, _ => subClassAxiomNormalization env sub sup

/-- Each element with each later one. -/
def orderedPairs {α : Type} : List α → List (α × α)
  | [] => []
  | a :: as => as.map (fun b => (a, b)) ++ orderedPairs as

def eliAxiomExtractor : ClassAxiom N → Option (List Formula)
  | .subClassOf _ sub sup => some (subClassExtractor env sub sup)
  | .equivalentClasses _ classes =>
    let pairs := (orderedPairs classes).flatMap fun p =>
      subClassExtractor env p.1 p.2 ++ subClassExtractor env p.2 p.1
    if pairs.isEmpty then none else some pairs
  | .disjointClasses _ classes =>
    let disjoints := (orderedPairs classes).flatMap fun p =>
      subClassExtractor env (.objectIntersectionOf [p.1, p.2]) (.className owlNothing)
    if disjoints.isEmpty then none else some disjoints
  | .disjointUnion _ _ _ => none

end Normalization

end RdfDatalog.Eli
