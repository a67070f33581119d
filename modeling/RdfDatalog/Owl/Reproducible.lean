import RdfDatalog.Owl.Rules

namespace RdfDatalog

open GrowingState Datalog Owl

variable {N : NativeTypes}

namespace GrowingState

variable {σ α : Type} [Preorder σ]

theorem Settles.lift {f : StateM σ α} (hf : Settles f) : Settles (OptionT.lift f).run :=
  hf.bind fun a => .pure (some a)

theorem Settles.failure : Settles (failure : OptionT (StateM σ) α).run := .pure none

theorem Settles.some (a : α) : Settles (Pure.pure a : OptionT (StateM σ) α).run :=
  .pure (Option.some a)

end GrowingState

namespace Eli

theorem settles_getTypePattern (var : String) (cls : Owl.Class) :
    Settles (getTypePattern var cls : Interning N QuadPattern) :=
  (settles_addNodeResource _).bind fun _ => (settles_addNodeResource _).bind fun _ => .pure _

theorem settles_typePatterns (classes : List Owl.Class) :
    Settles (typePatterns classes : Interning N (List QuadPattern)) :=
  .mapM fun cls _ => settles_getTypePattern "X" cls

theorem settles_individualToId (individual : Individual) :
    Settles (individualToId individual : Interning N GraphElementId) := by
  cases individual with
  | namedIndividual iri => exact settles_addNodeResource _
  | anonymousIndividual id => exact settles_getOrCreateNamed _

theorem settles_getSingleRolePattern (prop : ObjectPropertyExpression) (s o : String) :
    Settles (getSingleRolePattern prop s o : OptionT (Interning N) QuadPattern).run := by
  fun_induction getSingleRolePattern prop s o with
  | case1 | case2 => exact (settles_addNodeResource _).lift.optionBind fun _ => .some _
  | case3 _ _ _ ih => exact ih
  | case4 => exact .failure

theorem settles_getSingleObjValuePattern (prop : ObjectPropertyExpression) (s : String)
    (individual : Individual) :
    Settles (getSingleObjValuePattern prop s individual :
      OptionT (Interning N) QuadPattern).run := by
  have hforward (role : RdfResource) : Settles (do
      let roleId ← OptionT.lift (addNodeResource role)
      OptionT.lift (getRoleValuePattern roleId s individual) :
        OptionT (Interning N) QuadPattern).run :=
    (settles_addNodeResource role).lift.optionBind fun _ =>
      ((settles_individualToId individual).bind fun _ => .pure _).lift
  have hbackward (role : RdfResource) : Settles (do
      let roleId ← OptionT.lift (addNodeResource role)
      let objId ← OptionT.lift (individualToId individual)
      pure (getDefaultGraphPattern (.resource objId) (.resource roleId) (.var s)) :
        OptionT (Interning N) QuadPattern).run :=
    (settles_addNodeResource role).lift.optionBind fun _ =>
      (settles_individualToId individual).lift.optionBind fun _ => .some _
  unfold getSingleObjValuePattern
  split
  · exact hforward _
  · exact hforward _
  · exact hbackward _
  · exact hbackward _
  · exact .failure
  · exact .failure

mutual

theorem settles_getObjPropPattern : (prop : ObjectPropertyExpression) → (s o : String) →
    Settles (getObjPropPattern prop s o : OptionT (Interning N) (List QuadPattern)).run
  | .namedObjectProperty iri, s, o =>
    (settles_getSingleRolePattern (.namedObjectProperty iri) s o).optionBind fun _ => .some _
  | .anonymousObjectProperty id, s, o =>
    (settles_getSingleRolePattern (.anonymousObjectProperty id) s o).optionBind fun _ => .some _
  | .inverseObjectProperty (.objectPropertyChain _), _, _ => .failure
  | .inverseObjectProperty (.namedObjectProperty iri), s, o =>
    settles_getObjPropPattern (.namedObjectProperty iri) o s
  | .inverseObjectProperty (.anonymousObjectProperty id), s, o =>
    settles_getObjPropPattern (.anonymousObjectProperty id) o s
  | .inverseObjectProperty (.inverseObjectProperty inner), s, o =>
    settles_getObjPropPattern (.inverseObjectProperty inner) o s
  | .objectPropertyChain props, s, o =>
    settles_buildPropChain props s o _ 0 s fun link var => settles_getSingleRolePattern link var o

theorem settles_buildPropChain : (props : List ObjectPropertyExpression) → (s hint : String) →
    (finalLink : ObjectPropertyExpression → String → OptionT (Interning N) QuadPattern) →
    (i : Nat) → (cur : String) → (∀ link var, Settles (finalLink link var).run) →
    Settles (buildPropChain props s hint finalLink i cur).run
  | [], _, _, _, _, _, _ => .failure
  | [last], _, _, _, _, cur, h => (h last cur).optionBind fun _ => .some _
  | link :: next :: props, s, hint, finalLink, i, cur, h =>
    (settles_getObjPropPattern link cur _).optionBind fun _ =>
      (settles_buildPropChain (next :: props) s hint finalLink (i + 1) _ h).optionBind fun _ =>
        .some _

end

theorem settles_getObjValuePattern (prop : ObjectPropertyExpression) (s : String)
    (individual : Individual) :
    Settles (getObjValuePattern prop s individual :
      OptionT (Interning N) (List QuadPattern)).run := by
  have hsingle (prop : ObjectPropertyExpression) : Settles (do
      let pattern ← getSingleObjValuePattern prop s individual
      pure [pattern] : OptionT (Interning N) (List QuadPattern)).run :=
    (settles_getSingleObjValuePattern prop s individual).optionBind fun _ => .some _
  unfold getObjValuePattern
  split
  · exact hsingle _
  · exact hsingle _
  · exact .failure
  · exact hsingle _
  · exact settles_buildPropChain _ _ _ _ _ _ fun link var =>
      settles_getSingleObjValuePattern link var individual

mutual

theorem settles_translateEli : (concept : ComplexConcept) → (var : String) → (clause : Nat) →
    Settles (translateEli concept var clause : OptionT (Interning N) (List QuadPattern)).run
  | .atomicConcept iri, var, _ => (settles_getTypePattern var iri).lift.optionBind fun _ => .some _
  | .intersection clauses, var, _ => settles_translateClauses clauses var 1
  | .someValuesFrom role inner, var, _ =>
    (settles_getObjPropPattern role var _).optionBind fun _ =>
      (settles_translateEli inner _ 1).optionBind fun _ => .some _
  | .top, _, _ => .some _

theorem settles_translateClauses : (clauses : List ComplexConcept) → (var : String) → (i : Nat) →
    Settles (translateClauses clauses var i : OptionT (Interning N) (List QuadPattern)).run
  | [], _, _ => .some _
  | clause :: clauses, var, i =>
    (settles_translateEli clause var i).optionBind fun _ =>
      (settles_translateClauses clauses var (i + 1)).optionBind fun _ => .some _

end

/-- The formula gives its members an anonymous class. -/
def Formula.mintsClass : Formula → Bool
  | .normalizedConceptInclusion _ .atomicAnonymousConcept => true
  | _ => false

theorem settles_generateAxiomRl {f : Formula} (h : f.mintsClass = false) :
    Settles (generateAxiomRl f : OptionT (Interning N) (List OwlRule)).run := by
  cases f with
  | directlyTranslatableConceptInclusion subs sups =>
    refine .optionMapM fun p _ => ?_
    exact (settles_getTypePattern "X" p.2).lift.optionBind fun _ =>
      (settles_translateEli p.1 "X" 1).optionBind fun _ => .some _
  | normalizedConceptInclusion conj sup =>
    have htypes := settles_typePatterns (N := N) conj
    cases sup with
    | bottom =>
      exact (htypes.lift.optionBind fun _ => .some _).optionBind fun _ => .some _
    | atomicNamedConcept cls =>
      exact (settles_getTypePattern "X" cls).lift.optionBind fun _ =>
        htypes.lift.optionBind fun _ => .some _
    | atomicAnonymousConcept => cases h
    | objectHasValue prop individual =>
      exact (settles_getObjValuePattern prop "X" individual).optionBind fun _ =>
        (Settles.pure _).optionBind fun _ => htypes.lift.optionBind fun _ => .some _
    | allValuesFrom prop cls =>
      exact (settles_getObjPropPattern prop "X" "Y").optionBind fun _ =>
        (settles_getTypePattern "Y" cls).lift.optionBind fun _ =>
          htypes.lift.optionBind fun _ => .some _
    | atMostOneValueFrom prop =>
      exact (settles_getObjPropPattern prop "X" "Y1").optionBind fun _ =>
        (settles_getObjPropPattern prop "X" "Y2").optionBind fun _ =>
          htypes.lift.optionBind fun _ =>
            (settles_addNodeResource _).lift.optionBind fun _ => .some _
    | atMostZeroValueFrom prop =>
      exact (settles_getObjPropPattern prop "X" "Y").optionBind fun _ =>
        htypes.lift.optionBind fun _ => .some _

theorem settles_generateTboxRl {formulas : List Formula}
    (h : ∀ f ∈ formulas, f.mintsClass = false) :
    Settles (generateTboxRl formulas : OptionT (Interning N) (List OwlRule)).run :=
  (Settles.optionMapM fun f hf => settles_generateAxiomRl (h f hf)).optionBind fun _ => .some _

end Eli

namespace Owl

theorem settles_typePattern (var : String) (classId : GraphElementId) :
    Settles (typePattern var classId : Interning N QuadPattern) :=
  (settles_addNodeResource _).bind fun _ => .pure _

theorem settles_getObjPropPattern (prop : ObjectPropertyExpression) (s o : String) :
    Settles (getObjPropPattern prop s o : OptionT (Interning N) QuadPattern).run := by
  fun_induction getObjPropPattern prop s o with
  | case1 | case2 => exact (settles_addNodeResource _).lift.optionBind fun _ => .some _
  | case3 _ _ _ ih => exact ih
  | case4 => exact .failure

mutual

theorem settles_getClassExpressionIds :
    (expr : ClassExpression N) → Settles (getClassExpressionIds expr)
  | .className _ => (settles_addNodeResource _).bind fun _ => .pure _
  | .anonymousClass _ => (settles_addNodeResource _).bind fun _ => .pure _
  | .objectIntersectionOf classes => settles_getAllClassExpressionIds classes
  | .objectUnionOf _ | .objectComplementOf _ | .objectOneOf _ | .objectSomeValuesFrom _ _
  | .objectAllValuesFrom _ _ | .objectHasValue _ _ | .objectHasSelf _
  | .objectMinQualifiedCardinality _ _ _ | .objectMaxQualifiedCardinality _ _ _
  | .objectExactQualifiedCardinality _ _ _ | .objectExactCardinality _ _
  | .objectMinCardinality _ _ | .objectMaxCardinality _ _ | .dataSomeValuesFrom _ _
  | .dataAllValuesFrom _ _ | .dataHasValue _ _ | .dataMinQualifiedCardinality _ _ _
  | .dataMaxQualifiedCardinality _ _ _ | .dataExactQualifiedCardinality _ _ _
  | .dataMinCardinality _ _ | .dataMaxCardinality _ _ | .dataExactCardinality _ _ => .pure _

theorem settles_getAllClassExpressionIds :
    (exprs : List (ClassExpression N)) → Settles (getAllClassExpressionIds exprs)
  | [] => .pure _
  | c :: cs => (settles_getClassExpressionIds c).bind fun _ =>
    (settles_getAllClassExpressionIds cs).bind fun _ => .pure _

end

theorem settles_orNoRules {rules : OptionT (Interning N) (List OwlRule)}
    (h : Settles rules.run) : Settles (orNoRules rules) := by
  refine h.bind fun o => ?_
  cases o with
  | none | some => exact .pure _

theorem settles_membershipRules (bodyQuad : QuadPattern) (var : String)
    (expr : ClassExpression N) : Settles (membershipRules bodyQuad var expr) :=
  (settles_getClassExpressionIds expr).bind fun _ => .mapM fun _ _ =>
    (settles_typePattern var _).bind fun _ => .pure _

theorem settles_chainAtoms (chain : List ObjectPropertyExpression) (i : Nat) :
    Settles (chainAtoms chain i : OptionT (Interning N) (List (RuleAtom Empty))).run := by
  induction chain generalizing i with
  | nil => exact .some _
  | cons prop chain ih =>
    exact (settles_getObjPropPattern prop _ _).optionBind fun _ =>
      (ih (i + 1)).optionBind fun _ => .some _

theorem settles_subObjectPropertyOf (sub : SubPropertyExpression)
    (sup : ObjectPropertyExpression) :
    Settles (subObjectPropertyOf sub sup : Interning N (List OwlRule)) := by
  cases sub with
  | subObjectPropertyExpression prop =>
    exact settles_orNoRules ((settles_getObjPropPattern prop _ _).optionBind fun _ =>
      (settles_getObjPropPattern sup _ _).optionBind fun _ => .some _)
  | propertyExpressionChain chain =>
    rw [subObjectPropertyOf, propertyExpressionChainRule]
    split
    · exact .pure _
    · exact settles_orNoRules ((settles_chainAtoms chain 0).optionBind fun _ =>
        (settles_getObjPropPattern sup _ _).optionBind fun _ => .some _)

theorem settles_objectPropertyAxiom2datalog (a : ObjectPropertyAxiom N) :
    Settles (objectPropertyAxiom2datalog a) := by
  cases a with
  | objectPropertyDomain _ prop domain =>
    exact settles_orNoRules ((settles_getObjPropPattern prop _ _).optionBind fun _ =>
      (settles_membershipRules _ _ domain).lift)
  | objectPropertyRange _ prop range =>
    exact settles_orNoRules ((settles_getObjPropPattern prop _ _).optionBind fun _ =>
      (settles_membershipRules _ _ range).lift)
  | subObjectPropertyOf _ sub sup => exact settles_subObjectPropertyOf sub sup
  | symmetricObjectProperty _ prop =>
    exact settles_orNoRules ((settles_getObjPropPattern prop _ _).optionBind fun _ =>
      (settles_getObjPropPattern prop _ _).optionBind fun _ => .some _)
  | transitiveObjectProperty _ prop =>
    exact settles_orNoRules ((settles_getObjPropPattern prop _ _).optionBind fun _ =>
      (settles_getObjPropPattern prop _ _).optionBind fun _ =>
        (settles_getObjPropPattern prop _ _).optionBind fun _ => .some _)
  | _ => exact .pure _

theorem settles_dataPropertyAxiom2datalog (a : DataPropertyAxiom N) :
    Settles (dataPropertyAxiom2datalog a) := by
  cases a with
  | dataPropertyDomain _ iri domain =>
    exact (settles_addNodeResource _).bind fun _ => settles_membershipRules _ _ domain
  | dataPropertyRange _ iri range =>
    refine (settles_addNodeResource _).bind fun _ => ?_
    cases range with
    | namedDataRange datatype =>
      exact (settles_addNodeResource _).bind fun _ =>
        (settles_typePattern "y" _).bind fun _ => .pure _
    | _ => exact .pure _
  | subDataPropertyOf _ sub sup =>
    exact (settles_addNodeResource _).bind fun _ =>
      (settles_addNodeResource _).bind fun _ => .pure _
  | _ => exact .pure _

/-- The normal form of the axiom has a formula with an anonymous class. -/
def Axiom.mintsClass (env : DebugEnv N) : Axiom N → Prop
  | .axiomClassAxiom a => ∃ formulas, Eli.eliAxiomExtractor env a = some formulas ∧
    ∃ f ∈ formulas, f.mintsClass = true
  | _ => False

theorem settles_axiom2datalog {env : DebugEnv N} {a : Axiom N} (h : ¬ a.mintsClass env) :
    Settles (axiom2datalog env a) := by
  cases a with
  | axiomObjectPropertyAxiom a => exact settles_objectPropertyAxiom2datalog a
  | axiomDataPropertyAxiom a => exact settles_dataPropertyAxiom2datalog a
  | axiomClassAxiom a =>
    apply settles_orNoRules
    rw [Eli.owl2datalog]
    cases hformulas : Eli.eliAxiomExtractor env a with
    | none => exact .failure
    | some formulas =>
      refine Eli.settles_generateTboxRl fun f hf => ?_
      rw [← Bool.not_eq_true]
      exact fun hmints => h ⟨formulas, hformulas, f, hf, hmints⟩
  | _ => exact .pure _

theorem settles_getEqualityAxioms : Settles (getEqualityAxioms : Interning N (List OwlRule)) := by
  have hrule (rule : GraphElementId → OwlRule) :
      Settles (owlSameAsId >>= fun id => pure (rule id) : Interning N OwlRule) :=
    (settles_addNodeResource _).bind fun id => .pure (rule id)
  exact (hrule _).bind fun _ => (hrule _).bind fun _ => (hrule _).bind fun _ =>
    (hrule _).bind fun _ => .pure _

end Owl

end RdfDatalog
