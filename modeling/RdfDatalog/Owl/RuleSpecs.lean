import RdfDatalog.Eli.RuleSpecs

namespace RdfDatalog

open GrowingState Datalog Owl

variable {N : NativeTypes}

namespace Owl

/-- Only positive patterns in the body, and a variable in the head. -/
def OpenRule (r : OwlRule) : Prop :=
  r.Plain ∧ ∀ h, r.head = .normalHead h → h.getVariables ≠ []

theorem plain_positiveAtoms (head : RuleHead) (ps : List QuadPattern) :
    (⟨head, Eli.positiveAtoms ps⟩ : OwlRule).Plain := by
  intro a ha
  obtain ⟨p, -, rfl⟩ := List.mem_map.mp ha
  exact ⟨p, rfl⟩

theorem openRule_normalHead {head : QuadPattern} (h : head.getVariables ≠ [])
    (ps : List QuadPattern) : OpenRule ⟨.normalHead head, Eli.positiveAtoms ps⟩ :=
  ⟨plain_positiveAtoms _ ps, fun _ hh => by cases hh; exact h⟩

theorem openRule_contradiction (ps : List QuadPattern) :
    OpenRule ⟨.contradiction, Eli.positiveAtoms ps⟩ :=
  ⟨plain_positiveAtoms _ ps, nofun⟩

theorem getDefaultGraphPattern_subjectVar (v : String) (p o : Term) :
    (getDefaultGraphPattern (.var v) p o).getVariables ≠ [] :=
  List.cons_ne_nil _ _

end Owl

namespace Eli

variable {m : Resources N} {r : OwlRule} {rules : List OwlRule}

theorem IsTypePattern.hasVariable {v : String} {cls : Owl.Class} {p : QuadPattern}
    (h : IsTypePattern m v cls p) : p.getVariables ≠ [] := by
  obtain ⟨t, k, -, -, rfl⟩ := h
  exact getDefaultGraphPattern_subjectVar _ _ _

theorem IsNormalizedRule.openRule {types : List QuadPattern} {sup : NormalizedConcept}
    (h : IsNormalizedRule m types sup r) : OpenRule r := by
  cases sup with
  | bottom =>
    cases h
    exact openRule_contradiction _
  | atomicNamedConcept cls =>
    obtain ⟨head, hhead, rfl⟩ := h
    exact openRule_normalHead hhead.hasVariable _
  | atomicAnonymousConcept =>
    obtain ⟨t, b, rfl⟩ := h
    exact openRule_normalHead (getDefaultGraphPattern_subjectVar _ _ _) _
  | objectHasValue prop individual =>
    obtain ⟨head, init, rfl, hhead, -⟩ := h
    exact openRule_normalHead hhead _
  | allValuesFrom prop cls =>
    obtain ⟨roles, head, hhead, rfl, -⟩ := h
    exact openRule_normalHead hhead.hasVariable _
  | atMostOneValueFrom prop =>
    obtain ⟨p₁, p₂, k, -, rfl, -⟩ := h
    exact openRule_normalHead (getDefaultGraphPattern_subjectVar _ _ _) _
  | atMostZeroValueFrom prop =>
    obtain ⟨roles, rfl, -⟩ := h
    exact openRule_contradiction _

theorem FormulaRules.openRule {f : Formula} (h : FormulaRules m f rules) (hr : r ∈ rules) :
    OpenRule r := by
  cases f with
  | directlyTranslatableConceptInclusion subs sups =>
    obtain ⟨p, -, hp⟩ := FallibleFold.forall₂_exists_left h hr
    obtain ⟨head, body, hhead, -, rfl⟩ := hp
    exact openRule_normalHead hhead.hasVariable _
  | normalizedConceptInclusion conj sup =>
    obtain ⟨r', types, rfl, -, hr'⟩ := h
    rw [List.mem_singleton.mp hr]
    exact hr'.openRule

def FormulasRules (m : Resources N) (formulas : List Formula) (rules : List OwlRule) : Prop :=
  ∃ parts, rules = parts.flatten ∧ List.Forall₂ (FormulaRules m) formulas parts

theorem succeeds_generateTboxRl (formulas : List Formula) :
    Succeeds (generateTboxRl formulas : OptionT (Interning N) (List OwlRule))
      (formulas.all Formula.translatable) fun m rules => FormulasRules m formulas rules :=
  (Succeeds.mapM fun f _ => succeeds_generateAxiomRl f).andThen fun parts =>
    .pure fun _ h => ⟨parts, rfl, h⟩

theorem FormulasRules.openRule {formulas : List Formula} (h : FormulasRules m formulas rules)
    (hr : r ∈ rules) : OpenRule r := by
  obtain ⟨parts, rfl, hparts⟩ := h
  obtain ⟨part, hpart, hr⟩ := List.mem_flatten.mp hr
  obtain ⟨f, -, hf⟩ := FallibleFold.forall₂_exists_left hparts hpart
  exact hf.openRule hr

end Eli

namespace Owl

variable {f : OptionT (Interning N) (List OwlRule)}

theorem yields_orNoRules {ok : Bool} {Q : Resources N → List OwlRule → Prop} (h : Succeeds f ok Q) :
    Yields (orNoRules f) fun m rules => ok = true ∧ Q m rules ∨ ok = false ∧ rules = [] := by
  refine Yields.bind h fun o => ?_
  cases o with
  | none => exact .pure fun _ h => .inr ⟨h.1.symm, rfl⟩
  | some rules => exact .pure fun _ h => .inl ⟨h.1.symm, h.2 rules rfl⟩

def OnlyOpen (f : Interning N (List OwlRule)) : Prop :=
  Yields f fun _ rules => ∀ r ∈ rules, OpenRule r

theorem onlyOpen_nil : OnlyOpen (N := N) (pure []) := .pure nofun

theorem onlyOpen_orNoRules {ok : Bool} (h : Succeeds f ok fun _ rules => ∀ r ∈ rules, OpenRule r) :
    OnlyOpen (orNoRules f) := by
  refine (yields_orNoRules h).weaken fun _ rules hrules => ?_
  rcases hrules with ⟨-, hopen⟩ | ⟨-, rfl⟩
  · exact hopen
  · exact nofun

theorem onlyOpen_rule {head : QuadPattern} (h : head.getVariables ≠ []) (ps : List QuadPattern) :
    ∀ r ∈ [(⟨.normalHead head, Eli.positiveAtoms ps⟩ : OwlRule)], OpenRule r := by
  intro r hr
  rw [List.mem_singleton.mp hr]
  exact openRule_normalHead h ps

theorem succeeds_getObjPropPattern (prop : ObjectPropertyExpression) (s o : String) :
    Succeeds (getObjPropPattern prop s o : OptionT (Interning N) QuadPattern) prop.isSingle
      fun _ p => p.getVariables ≠ [] := by
  fun_induction getObjPropPattern prop s o with
  | case1 | case2 =>
    exact (Succeeds.lift (yields_addNodeResource _)).andThen fun k =>
      .pure fun _ _ => getDefaultGraphPattern_subjectVar _ _ _
  | case3 _ _ _ ih => exact ih
  | case4 => exact .failure

theorem grows_getClassExpressionIds (expr : ClassExpression N) :
    Yields (getClassExpressionIds expr) fun _ _ => True :=
  fun s => ⟨(settles_getClassExpressionIds expr).grows s, fun _ _ => trivial⟩

theorem yields_typePattern (var : String) (classId : GraphElementId) :
    Yields (typePattern var classId : Interning N QuadPattern) fun _ p => p.getVariables ≠ [] :=
  (yields_addNodeResource _).bind fun _ => .pure fun _ _ =>
    getDefaultGraphPattern_subjectVar _ _ _

theorem onlyOpen_membershipRules (bodyQuad : QuadPattern) (var : String)
    (expr : ClassExpression N) : OnlyOpen (membershipRules bodyQuad var expr) := by
  refine (grows_getClassExpressionIds expr).bind fun ids => ?_
  have hrule (classId : GraphElementId) : Yields (do
      let head ← typePattern var classId
      pure ⟨.normalHead head, [.positivePattern bodyQuad]⟩ : Interning N OwlRule)
      fun _ r => OpenRule r :=
    (yields_typePattern var classId).bind fun head => .pure fun _ h =>
      openRule_normalHead h [bodyQuad]
  refine (Yields.mapM fun classId _ => hrule classId).weaken fun _ rules h _ r hr => ?_
  obtain ⟨_, -, hopen⟩ := FallibleFold.forall₂_exists_left h hr
  exact hopen

theorem succeeds_chainAtoms (chain : List ObjectPropertyExpression) (i : Nat) :
    Succeeds (chainAtoms chain i : OptionT (Interning N) (List (RuleAtom Empty)))
      (chain.all ObjectPropertyExpression.isSingle) fun _ atoms =>
        ∃ ps, atoms = Eli.positiveAtoms ps := by
  induction chain generalizing i with
  | nil => exact .pure fun _ => ⟨[], rfl⟩
  | cons prop chain ih =>
    refine (succeeds_getObjPropPattern prop _ _).bind fun atom => (ih (i + 1)).andThen fun rest =>
      .pure fun _ hrest _ => ?_
    obtain ⟨ps, rfl⟩ := hrest
    exact ⟨atom :: ps, rfl⟩

theorem onlyOpen_subObjectPropertyOf (sub : SubPropertyExpression)
    (sup : ObjectPropertyExpression) : OnlyOpen (N := N) (subObjectPropertyOf sub sup) := by
  cases sub with
  | subObjectPropertyExpression prop =>
    exact onlyOpen_orNoRules ((succeeds_getObjPropPattern prop _ _).bind fun body =>
      (succeeds_getObjPropPattern sup _ _).andThen fun head =>
        .pure fun _ h _ => onlyOpen_rule h [body])
  | propertyExpressionChain chain =>
    rw [subObjectPropertyOf, propertyExpressionChainRule]
    split
    · exact onlyOpen_nil
    · refine onlyOpen_orNoRules ((succeeds_chainAtoms chain 0).bind fun atoms =>
        (succeeds_getObjPropPattern sup _ _).andThen fun head => .pure fun _ h hatoms => ?_)
      obtain ⟨ps, rfl⟩ := hatoms
      exact onlyOpen_rule h ps

theorem onlyOpen_objectPropertyAxiom2datalog (a : ObjectPropertyAxiom N) :
    OnlyOpen (objectPropertyAxiom2datalog a) := by
  cases a with
  | objectPropertyDomain _ prop domain =>
    exact onlyOpen_orNoRules ((succeeds_getObjPropPattern prop _ _).andThen fun body =>
      .lift ((onlyOpen_membershipRules body "x" domain).weaken fun _ _ h _ => h))
  | objectPropertyRange _ prop range =>
    exact onlyOpen_orNoRules ((succeeds_getObjPropPattern prop _ _).andThen fun body =>
      .lift ((onlyOpen_membershipRules body "y" range).weaken fun _ _ h _ => h))
  | subObjectPropertyOf _ sub sup => exact onlyOpen_subObjectPropertyOf sub sup
  | symmetricObjectProperty _ prop =>
    exact onlyOpen_orNoRules ((succeeds_getObjPropPattern prop _ _).bind fun body =>
      (succeeds_getObjPropPattern prop _ _).andThen fun head =>
        .pure fun _ h _ => onlyOpen_rule h [body])
  | transitiveObjectProperty _ prop =>
    exact onlyOpen_orNoRules ((succeeds_getObjPropPattern prop _ _).bind fun xy =>
      (succeeds_getObjPropPattern prop _ _).bind fun yz =>
        (succeeds_getObjPropPattern prop _ _).andThen fun head =>
          .pure fun _ h _ _ => onlyOpen_rule h [xy, yz])
  | _ => exact onlyOpen_nil

theorem onlyOpen_dataPropertyAxiom2datalog (a : DataPropertyAxiom N) :
    OnlyOpen (dataPropertyAxiom2datalog a) := by
  cases a with
  | dataPropertyDomain _ iri domain =>
    exact (yields_addNodeResource _).bind fun k =>
      (onlyOpen_membershipRules _ "x" domain).weaken fun _ _ h _ => h
  | dataPropertyRange _ iri range =>
    refine (yields_addNodeResource _).bind fun k => ?_
    cases range with
    | namedDataRange datatype =>
      exact (yields_addNodeResource _).bind fun rangeId =>
        (yields_typePattern "y" rangeId).bind fun head =>
          .pure fun _ h _ _ => onlyOpen_rule h [propertyPattern k]
    | _ => exact onlyOpen_nil.weaken fun _ _ h _ => h
  | subDataPropertyOf _ sub sup =>
    exact (yields_addNodeResource _).bind fun subId =>
      (yields_addNodeResource _).bind fun superId =>
      .pure fun _ _ _ => onlyOpen_rule (getDefaultGraphPattern_subjectVar _ _ _)
        [propertyPattern subId]
  | _ => exact onlyOpen_nil

/-- The axiom is a class axiom whose formulas all have rules. -/
def Axiom.compilesTo (env : DebugEnv N) : Axiom N → List Eli.Formula → Prop
  | .axiomClassAxiom classAxiom, formulas =>
    Eli.eliAxiomExtractor env classAxiom = some formulas ∧
      formulas.all Eli.Formula.translatable = true
  | _, _ => False

theorem yields_classAxiom2datalog (env : DebugEnv N) (classAxiom : ClassAxiom N) :
    Yields (classAxiom2datalog env classAxiom) fun m rules =>
      (∃ formulas, Axiom.compilesTo env (.axiomClassAxiom classAxiom) formulas ∧
        Eli.FormulasRules m formulas rules) ∨
      (∀ formulas, ¬ Axiom.compilesTo env (.axiomClassAxiom classAxiom) formulas) ∧ rules = [] := by
  cases hformulas : Eli.eliAxiomExtractor env classAxiom with
  | none =>
    have hrun : classAxiom2datalog env classAxiom = orNoRules failure := by
      rw [classAxiom2datalog, Eli.owl2datalog, hformulas]
    rw [hrun]
    refine (yields_orNoRules (Succeeds.failure (Q := fun _ _ => True))).weaken fun _ rules h => ?_
    rcases h with ⟨h, -⟩ | ⟨-, rfl⟩
    · cases h
    · refine .inr ⟨fun formulas h => ?_, rfl⟩
      obtain ⟨h, -⟩ := h
      rw [hformulas] at h
      cases h
  | some formulas =>
    have hrun : classAxiom2datalog env classAxiom = orNoRules (Eli.generateTboxRl formulas) := by
      rw [classAxiom2datalog, Eli.owl2datalog, hformulas]
    rw [hrun]
    refine (yields_orNoRules (Eli.succeeds_generateTboxRl formulas)).weaken fun _ rules h => ?_
    rcases h with ⟨hok, hrules⟩ | ⟨hok, rfl⟩
    · exact .inl ⟨formulas, ⟨hformulas, hok⟩, hrules⟩
    · refine .inr ⟨fun formulas' h => ?_, rfl⟩
      obtain ⟨h, hall⟩ := h
      rw [hformulas] at h
      cases h
      rw [hok] at hall
      cases hall

theorem onlyOpen_axiom2datalog (env : DebugEnv N) (a : Axiom N) :
    OnlyOpen (axiom2datalog env a) := by
  cases a with
  | axiomClassAxiom a =>
    refine (yields_classAxiom2datalog env a).weaken fun _ rules h r hr => ?_
    rcases h with ⟨formulas, -, hrules⟩ | ⟨-, rfl⟩
    · exact hrules.openRule hr
    · cases hr
  | axiomObjectPropertyAxiom a => exact onlyOpen_objectPropertyAxiom2datalog a
  | axiomDataPropertyAxiom a => exact onlyOpen_dataPropertyAxiom2datalog a
  | _ => exact onlyOpen_nil

end Owl

end RdfDatalog
