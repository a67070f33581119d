import RdfDatalog.Eli.Semantics

namespace RdfDatalog.Owl

open Datalog

variable {N : NativeTypes}

def rdfTypeId : Interning N GraphElementId := addNodeResource (.iri rdfType)

def typePattern (var : String) (classId : GraphElementId) : Interning N QuadPattern := do
  let typeId ← rdfTypeId
  pure (getDefaultGraphPattern (.var var) (.resource typeId) (.resource classId))

/-- The pattern of a property or of an inverse; a chain has none. -/
def getObjPropPattern : ObjectPropertyExpression → (subjectVar objectVar : String) →
    OptionT (Interning N) QuadPattern
  | .namedObjectProperty iri, subjectVar, objectVar => do
    let roleId ← OptionT.lift (addNodeResource (.iri iri))
    pure (getDefaultGraphPattern (.var subjectVar) (.resource roleId) (.var objectVar))
  | .anonymousObjectProperty id, subjectVar, objectVar => do
    let roleId ← OptionT.lift (addNodeResource (.anonymousBlankNode id))
    pure (getDefaultGraphPattern (.var subjectVar) (.resource roleId) (.var objectVar))
  | .inverseObjectProperty inner, subjectVar, objectVar =>
    getObjPropPattern inner objectVar subjectVar
  | .objectPropertyChain _, _, _ => failure

mutual

def getClassExpressionIds : ClassExpression N → Interning N (List GraphElementId)
  | .className iri => do
    let id ← addNodeResource (.iri iri)
    pure [id]
  | .anonymousClass id => do
    let id ← addNodeResource (.anonymousBlankNode id)
    pure [id]
  | .objectIntersectionOf classes => getAllClassExpressionIds classes
  | _ => pure []

def getAllClassExpressionIds : List (ClassExpression N) → Interning N (List GraphElementId)
  | [] => pure []
  | c :: cs => do
    let ids ← getClassExpressionIds c
    let rest ← getAllClassExpressionIds cs
    pure (ids ++ rest)

end

/-- The rules of an axiom; one that cannot be translated has none. -/
def orNoRules (rules : OptionT (Interning N) (List OwlRule)) : Interning N (List OwlRule) := do
  match ← rules.run with
  | some rules => pure rules
  | none => pure []

/-- One rule for each class of `expr`: what `var` stands for in `bodyQuad` is a member. -/
def membershipRules (bodyQuad : QuadPattern) (var : String) (expr : ClassExpression N) :
    Interning N (List OwlRule) := do
  let classIds ← getClassExpressionIds expr
  classIds.mapM fun classId => do
    let head ← typePattern var classId
    pure ⟨.normalHead head, [.positivePattern bodyQuad]⟩

def objectPropertyDomain (prop : ObjectPropertyExpression) (domain : ClassExpression N) :
    Interning N (List OwlRule) := orNoRules do
  let bodyQuad ← getObjPropPattern prop "x" "y"
  OptionT.lift (membershipRules bodyQuad "x" domain)

def objectPropertyRange (prop : ObjectPropertyExpression) (range : ClassExpression N) :
    Interning N (List OwlRule) := orNoRules do
  let bodyQuad ← getObjPropPattern prop "x" "y"
  OptionT.lift (membershipRules bodyQuad "y" range)

def symmetricObjectProperty (prop : ObjectPropertyExpression) : Interning N (List OwlRule) :=
  orNoRules do
    let bodyQuad ← getObjPropPattern prop "x" "y"
    let headQuad ← getObjPropPattern prop "y" "x"
    pure [⟨.normalHead headQuad, [.positivePattern bodyQuad]⟩]

def transitiveObjectProperty (prop : ObjectPropertyExpression) : Interning N (List OwlRule) :=
  orNoRules do
    let xy ← getObjPropPattern prop "x" "y"
    let yz ← getObjPropPattern prop "y" "z"
    let xz ← getObjPropPattern prop "x" "z"
    pure [⟨.normalHead xz, [.positivePattern xy, .positivePattern yz]⟩]

def chainVar (i : Nat) : String := "x" ++ toString i

/-- The atoms of the links of a chain, from link `i` on. -/
def chainAtoms : List ObjectPropertyExpression → (i : Nat) →
    OptionT (Interning N) (List (RuleAtom Empty))
  | [], _ => pure []
  | prop :: chain, i => do
    let atom ← getObjPropPattern prop (chainVar i) (chainVar (i + 1))
    let rest ← chainAtoms chain (i + 1)
    pure (.positivePattern atom :: rest)

def propertyExpressionChainRule (chain : List ObjectPropertyExpression)
    (superProp : ObjectPropertyExpression) : Interning N (List OwlRule) :=
  if chain.isEmpty then pure []
  else orNoRules do
    let body ← chainAtoms chain 0
    let headQuad ← getObjPropPattern superProp (chainVar 0) (chainVar chain.length)
    pure [⟨.normalHead headQuad, body⟩]

def subObjectPropertyOf (subProp : SubPropertyExpression) (superProp : ObjectPropertyExpression) :
    Interning N (List OwlRule) :=
  match subProp with
  | .subObjectPropertyExpression prop => orNoRules do
    let bodyQuad ← getObjPropPattern prop "x" "y"
    let headQuad ← getObjPropPattern superProp "x" "y"
    pure [⟨.normalHead headQuad, [.positivePattern bodyQuad]⟩]
  | .propertyExpressionChain chain => propertyExpressionChainRule chain superProp

def objectPropertyAxiom2datalog : ObjectPropertyAxiom N → Interning N (List OwlRule)
  | .objectPropertyDomain _ prop domain => objectPropertyDomain prop domain
  | .objectPropertyRange _ prop range => objectPropertyRange prop range
  | .subObjectPropertyOf _ subProp superProp => subObjectPropertyOf subProp superProp
  | .symmetricObjectProperty _ prop => symmetricObjectProperty prop
  | .transitiveObjectProperty _ prop => transitiveObjectProperty prop
  | _ => pure []

def propertyPattern (propId : GraphElementId) : QuadPattern :=
  getDefaultGraphPattern (.var "x") (.resource propId) (.var "y")

def dataPropertyDomain (propIri : IriReference) (domain : ClassExpression N) :
    Interning N (List OwlRule) := do
  let propId ← addNodeResource (.iri propIri)
  membershipRules (propertyPattern propId) "x" domain

def dataPropertyRange (propIri : IriReference) (range : DataRange N) :
    Interning N (List OwlRule) := do
  let propId ← addNodeResource (.iri propIri)
  match range with
  | .namedDataRange datatype => do
    let rangeId ← addNodeResource (.iri datatype)
    let head ← typePattern "y" rangeId
    pure [⟨.normalHead head, [.positivePattern (propertyPattern propId)]⟩]
  | _ => pure []

def subDataPropertyOf (subProp superProp : IriReference) : Interning N (List OwlRule) := do
  let subId ← addNodeResource (.iri subProp)
  let superId ← addNodeResource (.iri superProp)
  pure [⟨.normalHead (propertyPattern superId), [.positivePattern (propertyPattern subId)]⟩]

def dataPropertyAxiom2datalog : DataPropertyAxiom N → Interning N (List OwlRule)
  | .dataPropertyDomain _ iri domain => dataPropertyDomain iri domain
  | .dataPropertyRange _ iri range => dataPropertyRange iri range
  | .subDataPropertyOf _ subIri superIri => subDataPropertyOf subIri superIri
  | _ => pure []

def classAxiom2datalog (env : DebugEnv N) (classAxiom : ClassAxiom N) :
    Interning N (List OwlRule) :=
  orNoRules (Eli.owl2datalog env classAxiom)

def axiom2datalog (env : DebugEnv N) : Axiom N → Interning N (List OwlRule)
  | .axiomObjectPropertyAxiom a => objectPropertyAxiom2datalog a
  | .axiomClassAxiom a => classAxiom2datalog env a
  | .axiomDataPropertyAxiom a => dataPropertyAxiom2datalog a
  | _ => pure []

section Equality

def owlSameAsId : Interning N GraphElementId := addNodeResource (.iri owlSameAs)

def varPattern (subject predicate object : String) : QuadPattern :=
  getDefaultGraphPattern (.var subject) (.var predicate) (.var object)

def sameAsPattern (sameAs : GraphElementId) (subject object : String) : QuadPattern :=
  getDefaultGraphPattern (.var subject) (.resource sameAs) (.var object)

def getSymmetryAxiom : Interning N OwlRule := do
  let sameAs ← owlSameAsId
  pure ⟨.normalHead (sameAsPattern sameAs "y" "x"),
    [.positivePattern (sameAsPattern sameAs "x" "y")]⟩

def getTransitivityAxiom : Interning N OwlRule := do
  let sameAs ← owlSameAsId
  pure ⟨.normalHead (sameAsPattern sameAs "x" "z"),
    [.positivePattern (sameAsPattern sameAs "x" "y"),
      .positivePattern (sameAsPattern sameAs "y" "z")]⟩

def getSubjectEqualityAxiom : Interning N OwlRule := do
  let sameAs ← owlSameAsId
  pure ⟨.normalHead (varPattern "s2" "p" "o"),
    [.positivePattern (sameAsPattern sameAs "s1" "s2"),
      .positivePattern (varPattern "s1" "p" "o")]⟩

def getObjectEqualityAxiom : Interning N OwlRule := do
  let sameAs ← owlSameAsId
  pure ⟨.normalHead (varPattern "s" "p" "o2"),
    [.positivePattern (sameAsPattern sameAs "o1" "o2"),
      .positivePattern (varPattern "s" "p" "o1")]⟩

def getEqualityAxioms : Interning N (List OwlRule) := do
  let symmetry ← getSymmetryAxiom
  let subjectEquality ← getSubjectEqualityAxiom
  let objectEquality ← getObjectEqualityAxiom
  let transitivity ← getTransitivityAxiom
  pure [symmetry, subjectEquality, objectEquality, transitivity]

end Equality

section Order

instance instOrdEmpty : Ord Empty := ⟨fun e => nomatch e⟩

deriving instance Ord for Term, QuadPattern, RuleHead, RuleAtom, Rule

def sortUnstable (rules : List OwlRule) : List OwlRule :=
  rules.mergeSort fun r r' => (compare r r').isLE

/-- Drop each element that equals the next one. -/
def dedup : List OwlRule → List OwlRule
  | [] => []
  | [r] => [r]
  | r :: r' :: rules => if r = r' then dedup (r' :: rules) else r :: dedup (r' :: rules)

theorem mem_dedup {r : OwlRule} {rules : List OwlRule} : r ∈ dedup rules ↔ r ∈ rules := by
  induction rules with
  | nil => rfl
  | cons a rules ih =>
    cases rules with
    | nil => rfl
    | cons b rules =>
      rw [dedup]
      split_ifs with h
      · rw [ih, h]
        simp
      · rw [List.mem_cons, ih]
        exact List.mem_cons.symm

theorem mem_dedup_sortUnstable {r : OwlRule} {rules : List OwlRule} :
    r ∈ dedup (sortUnstable rules) ↔ r ∈ rules := by
  rw [mem_dedup, sortUnstable, List.mem_mergeSort]

end Order

/-- The rules of all axioms and of equality, sorted and without repetitions. -/
def owl2datalog (env : DebugEnv N) (ontology : Ontology N) : Interning N (List OwlRule) := do
  let rules ← ontology.allAxioms.mapM (axiom2datalog env)
  let equality ← getEqualityAxioms
  pure (dedup (sortUnstable (rules.flatten ++ equality)))

end RdfDatalog.Owl
