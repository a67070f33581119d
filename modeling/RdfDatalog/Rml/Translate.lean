import RdfDatalog.Owl.Axioms
import RdfDatalog.Rml.Semantics

namespace RdfDatalog.Rml

variable {N : NativeTypes}

section Plans

structure LogicalScan where
  source : LogicalSourceRef
  referenceFormulation : ReferenceFormulation
  iterator : Option String
  deriving DecidableEq

structure JoinCondition where
  leftColumn : String
  rightColumn : String
  deriving DecidableEq

inductive JoinAlgorithm where
  | hashJoin
  | sqlPushdown
  deriving DecidableEq

inductive OutputAttr where
  | subject
  | predicate
  | object
  | graph
  deriving DecidableEq

inductive BuiltinFunction where
  | toUpperCase
  | toLowerCase
  | trim
  deriving DecidableEq

inductive ParamSource (N : NativeTypes) where
  | template (template : String)
  | reference (reference : String)
  | constant (elem : GraphElement N)

inductive TermPattern where
  | template (template : String)
  | reference (reference : String)
  deriving DecidableEq

structure FunctionCallLogic (N : NativeTypes) where
  function : BuiltinFunction
  params : List (IriReference × ParamSource N)
  termType : TermType
  language : Option String
  datatype : Option IriReference

structure FormatFunction where
  pattern : TermPattern
  termType : TermType
  language : Option String
  datatype : Option IriReference
  deriving DecidableEq

inductive GenerationLogic (N : NativeTypes) where
  | constant (elem : GraphElement N)
  | dynamic (ff : FormatFunction)
  | function (fc : FunctionCallLogic N)

inductive LogicalPlan (N : NativeTypes) where
  | scan (scan : LogicalScan)
  | projection (input : LogicalPlan N) (attrs : List (OutputAttr × GenerationLogic N))
  | join (left right : LogicalPlan N) (conditions : List JoinCondition)
    (algorithm : JoinAlgorithm)

end Plans

def rdfType : IriReference := "http://www.w3.org/1999/02/22-rdf-syntax-ns#type"

def grelNs : String := "https://users.ugent.be/~bjdmeest/function/grel.ttl#"

def resolveBuiltin (iri : IriReference) : Option BuiltinFunction :=
  if iri = grelNs ++ "toUpperCase" then some .toUpperCase
  else if iri = grelNs ++ "toLowerCase" then some .toLowerCase
  else if iri = grelNs ++ "string_trim" then some .trim
  else none

section Translate

variable (env : Owl.DebugEnv N)

def chooseJoinAlgorithm (childSource parentSource : LogicalSourceRef) : JoinAlgorithm :=
  match childSource, parentSource with
  | .sql c, .sql p => if c.connection = p.connection then .sqlPushdown else .hashJoin
  | _, _ => .hashJoin

def makeScan (tm : TriplesMap N) : LogicalPlan N :=
  .scan ⟨tm.logicalSource.source, tm.logicalSource.referenceFormulation,
    tm.logicalSource.iterator⟩

def termMapToParamSource : TermMap N → Except RmlError (ParamSource N)
  | .constant elem => .ok (.constant elem)
  | .template t => .ok (.template t)
  | .reference r => .ok (.reference r)
  | .functionCall functionIri _ => .error (.unknownFunction
      ("nested function composition is not supported (parameter value depends on " ++
        functionIri ++ ")"))

def functionCallToLogic (functionIri : IriReference)
    (parameters : List (IriReference × TermMap N)) (termType : TermType)
    (language : Option String) (datatype : Option IriReference) :
    Except RmlError (GenerationLogic N) := do
  match resolveBuiltin functionIri with
  | none => .error (.unknownFunction functionIri)
  | some function =>
    let params ← parameters.mapM fun p => do
      let source ← termMapToParamSource p.2
      return (p.1, source)
    return .function ⟨function, params, termType, language, datatype⟩

def termMapToLogic (termMap : TermMap N) (termType : TermType) (om : Option (ObjectMap N)) :
    Except RmlError (GenerationLogic N) :=
  let language := om.bind (·.language)
  let datatype := om.bind (·.datatype)
  match termMap with
  | .constant elem => .ok (.constant elem)
  | .template t => .ok (.dynamic ⟨.template t, termType, language, datatype⟩)
  | .reference r => .ok (.dynamic ⟨.reference r, termType, language, datatype⟩)
  | .functionCall functionIri parameters =>
    functionCallToLogic functionIri parameters termType language datatype

abbrev ParentById (N : NativeTypes) := AList (fun _ : IriReference => TriplesMap N)

/-- Later triples maps replace earlier ones of the same id. -/
def parentById (mapping : MappingDocument N) : ParentById N :=
  mapping.triplesMaps.foldl (fun parents tm => parents.insert tm.id tm) ∅

def objectInput (parents : ParentById N) (tm : TriplesMap N) (objMap : ObjectMap N) :
    Except RmlError (LogicalPlan N × GenerationLogic N) := do
  match objMap.parentTriplesMap with
  | some parentId =>
    match parents.lookup parentId with
    | none => .error (.mappingParse ("unknown rml:parentTriplesMap " ++
        Owl.DebugEnv.tuple "IriReference" [env.str parentId]))
    | some parentTm =>
      let conditions := objMap.joinConditions.map fun jc => ⟨jc.child, jc.parent⟩
      let logic ← termMapToLogic parentTm.subjectMap.termMap parentTm.subjectMap.termType none
      let algorithm := chooseJoinAlgorithm tm.logicalSource.source parentTm.logicalSource.source
      return (.join (makeScan tm) (makeScan parentTm) conditions algorithm, logic)
  | none =>
    let logic ← termMapToLogic objMap.termMap objMap.termType (some objMap)
    return (makeScan tm, logic)

/-- The graph of the subject map or of the predicate-object map: the first one wins. -/
def graphAttrs (graphMaps : List (GraphMap N)) :
    Except RmlError (List (OutputAttr × GenerationLogic N)) := do
  match graphMaps.head? with
  | none => return []
  | some gm =>
    let logic ← termMapToLogic gm.termMap .iri none
    return [(.graph, logic)]

def translatePair (parents : ParentById N) (tm : TriplesMap N) (pom : PredicateObjectMap N)
    (subjectLogic predLogic : GenerationLogic N) (objMap : ObjectMap N) :
    Except RmlError (LogicalPlan N) := do
  let (input, objLogic) ← objectInput env parents tm objMap
  let graph ← graphAttrs (tm.subjectMap.graphMaps ++ pom.graphMaps)
  return .projection input
    ([(.subject, subjectLogic), (.predicate, predLogic), (.object, objLogic)] ++ graph)

def translatePredicate (parents : ParentById N) (tm : TriplesMap N) (pom : PredicateObjectMap N)
    (subjectLogic : GenerationLogic N) (predMap : TermMap N × TermType) :
    Except RmlError (List (LogicalPlan N)) := do
  let predLogic ← termMapToLogic predMap.1 predMap.2 none
  pom.objectMaps.mapM (translatePair env parents tm pom subjectLogic predLogic)

def classPlan (tm : TriplesMap N) (subjectLogic : GenerationLogic N) (classIri : IriReference) :
    LogicalPlan N :=
  .projection (makeScan tm) [(.subject, subjectLogic), (.predicate, .constant (.iri rdfType)),
    (.object, .constant (.iri classIri))]

def translateTriplesMap (parents : ParentById N) (tm : TriplesMap N) :
    Except RmlError (List (LogicalPlan N)) := do
  let subjectLogic ← termMapToLogic tm.subjectMap.termMap tm.subjectMap.termType none
  let pairPlans ← tm.predicateObjectMaps.mapM fun pom =>
    pom.predicateMaps.mapM (translatePredicate env parents tm pom subjectLogic)
  return pairPlans.flatten.flatten ++ tm.subjectMap.classes.map (classPlan tm subjectLogic)

def translate (mapping : MappingDocument N) : Except RmlError (List (LogicalPlan N)) := do
  let plans ← mapping.triplesMaps.mapM (translateTriplesMap env (parentById mapping))
  return plans.flatten

end Translate

section ConstantFold

def foldLogic (logic : GenerationLogic N) : GenerationLogic N :=
  match logic with
  | .dynamic ff =>
    match ff.pattern with
    | .template t =>
      -- only an IRI without placeholder is folded
      if '{' ∈ t.toList then logic
      else if ff.termType = .iri then .constant (.iri t) else logic
    | .reference _ => logic
  | _ => logic

def foldPlan : LogicalPlan N → LogicalPlan N
  | .projection input attrs => .projection input (attrs.map fun a => (a.1, foldLogic a.2))
  | plan => plan

def constantFold (plans : List (LogicalPlan N)) : List (LogicalPlan N) := plans.map foldPlan

end ConstantFold

end RdfDatalog.Rml
