import RdfDatalog.Owl.Reproducible

namespace RdfDatalog

open GrowingState Datalog Owl

variable {N : NativeTypes}

namespace Eli

section Patterns

variable (m : Resources N)

/-- `p` says that `v` is a member of `cls`. -/
def IsTypePattern (v : String) (cls : Owl.Class) (p : QuadPattern) : Prop :=
  ∃ t k, m.get t = some (.iri rdfType) ∧ m.get k = some (.iri cls) ∧
    p = getDefaultGraphPattern (.var v) (.resource t) (.resource k)

/-- `p` says that a property without chains leads from `s` to `o`. -/
def IsRolePattern (s o : String) : ObjectPropertyExpression → QuadPattern → Prop
  | .namedObjectProperty iri, p => ∃ k, m.get k = some (.iri iri) ∧ p = getRolePattern k s o
  | .anonymousObjectProperty id, p =>
    ∃ k, m.get k = some (.nodeOrEdge (.anonymousBlankNode id)) ∧ p = getRolePattern k s o
  | .inverseObjectProperty inner, p => IsRolePattern o s inner p
  | .objectPropertyChain _, _ => False

def Individual.IsId (individual : Individual) (i : GraphElementId) : Prop :=
  match individual with
  | .namedIndividual iri => m.get i = some (.iri iri)
  | .anonymousIndividual id => m.Denotes (toString id) i

/-- `p` says that a property leads from `s` to the individual. -/
def IsValuePattern (s : String) (individual : Individual) :
    ObjectPropertyExpression → QuadPattern → Prop
  | .namedObjectProperty iri, p => ∃ k i, m.get k = some (.iri iri) ∧
    Individual.IsId m individual i ∧ p = getDefaultGraphPattern (.var s) (.resource k) (.resource i)
  | .anonymousObjectProperty id, p => ∃ k i,
    m.get k = some (.nodeOrEdge (.anonymousBlankNode id)) ∧ Individual.IsId m individual i ∧
    p = getDefaultGraphPattern (.var s) (.resource k) (.resource i)
  | .inverseObjectProperty (.namedObjectProperty iri), p => ∃ k i, m.get k = some (.iri iri) ∧
    Individual.IsId m individual i ∧ p = getDefaultGraphPattern (.resource i) (.resource k) (.var s)
  | .inverseObjectProperty (.anonymousObjectProperty id), p => ∃ k i,
    m.get k = some (.nodeOrEdge (.anonymousBlankNode id)) ∧ Individual.IsId m individual i ∧
    p = getDefaultGraphPattern (.resource i) (.resource k) (.var s)
  | _, _ => False

mutual

/-- The join atoms of a concept; those of a chain are left open. -/
def IsConceptPatterns : ComplexConcept → (var : String) → (clause : Nat) →
    List QuadPattern → Prop
  | .top, _, _, ps => ps = []
  | .atomicConcept cls, v, _, ps => ∃ p, ps = [p] ∧ IsTypePattern m v cls p
  | .intersection clauses, v, _, ps => AreClausePatterns clauses v 1 ps
  | .someValuesFrom role inner, v, clause, ps => ∃ roles rest, ps = roles ++ rest ∧
    (role.isSingle = true →
      ∃ p, roles = [p] ∧ IsRolePattern m v (v ++ "_" ++ toString clause) role p) ∧
    IsConceptPatterns inner (v ++ "_" ++ toString clause) 1 rest

def AreClausePatterns : List ComplexConcept → (var : String) → (i : Nat) →
    List QuadPattern → Prop
  | [], _, _, ps => ps = []
  | clause :: clauses, v, i, ps => ∃ first rest, ps = first ++ rest ∧
    IsConceptPatterns clause v i first ∧ AreClausePatterns clauses v (i + 1) rest

end

def IsSubclassRule (sub : ComplexConcept) (sup : Owl.Class) (r : OwlRule) : Prop :=
  ∃ head body, IsTypePattern m "X" sup head ∧ IsConceptPatterns m sub "X" 1 body ∧
    r = ⟨.normalHead head, positiveAtoms body⟩

/-- What the rule of a normalised inclusion adds to the memberships `types` of its body. -/
def IsNormalizedRule (types : List QuadPattern) : NormalizedConcept → OwlRule → Prop
  | .bottom, r => r = ⟨.contradiction, positiveAtoms types⟩
  | .atomicNamedConcept cls, r =>
    ∃ head, IsTypePattern m "X" cls head ∧ r = ⟨.normalHead head, positiveAtoms types⟩
  | .atomicAnonymousConcept, r =>
    ∃ t b, r = ⟨.normalHead (getDefaultGraphPattern (.var "X") (.resource t) (.resource b)),
      positiveAtoms types⟩
  | .objectHasValue prop individual, r => ∃ head init,
    r = ⟨.normalHead head, positiveAtoms (types ++ init)⟩ ∧ head.getVariables ≠ [] ∧
    (prop.isSingleValue = true → init = [] ∧ IsValuePattern m "X" individual prop head)
  | .allValuesFrom prop cls, r => ∃ roles head, IsTypePattern m "Y" cls head ∧
    r = ⟨.normalHead head, positiveAtoms (types ++ roles)⟩ ∧
    (prop.isSingle = true → ∃ p, roles = [p] ∧ IsRolePattern m "X" "Y" prop p)
  | .atMostOneValueFrom prop, r => ∃ p₁ p₂ k, m.get k = some (.iri owlSameAs) ∧
    r = ⟨.normalHead (getRolePattern k "Y1" "Y2"), positiveAtoms (types ++ p₁ ++ p₂)⟩ ∧
    (prop.isSingle = true → (∃ p, p₁ = [p] ∧ IsRolePattern m "X" "Y1" prop p) ∧
      ∃ p, p₂ = [p] ∧ IsRolePattern m "X" "Y2" prop p)
  | .atMostZeroValueFrom prop, r => ∃ roles,
    r = ⟨.contradiction, positiveAtoms (types ++ roles)⟩ ∧
    (prop.isSingle = true → ∃ p, roles = [p] ∧ IsRolePattern m "X" "Y" prop p)

def FormulaRules : Formula → List OwlRule → Prop
  | .directlyTranslatableConceptInclusion subs sups, rules =>
    List.Forall₂ (fun p r => IsSubclassRule m p.1 p.2 r)
      (subs.flatMap fun sub => sups.map fun sup => (sub, sup)) rules
  | .normalizedConceptInclusion conj sup, rules => ∃ r types, rules = [r] ∧
    List.Forall₂ (IsTypePattern m "X") conj types ∧ IsNormalizedRule m types sup r

end Patterns

theorem yields_getTypePattern (var : String) (cls : Owl.Class) :
    Yields (getTypePattern var cls : Interning N QuadPattern)
      fun m p => IsTypePattern m var cls p :=
  (yields_addNodeResource _).bind fun t => (yields_addNodeResource _).bind fun k =>
    .pure fun _ hk ht => ⟨t, k, ht, hk, rfl⟩

theorem yields_typePatterns (classes : List Owl.Class) :
    Yields (typePatterns classes : Interning N (List QuadPattern))
      fun m ps => List.Forall₂ (IsTypePattern m "X") classes ps :=
  .mapM fun cls _ => yields_getTypePattern "X" cls

theorem yields_individualToId (individual : Individual) :
    Yields (individualToId individual : Interning N GraphElementId)
      fun m i => Individual.IsId m individual i := by
  cases individual with
  | namedIndividual iri => exact yields_addNodeResource _
  | anonymousIndividual id => exact yields_getOrCreateNamed _

theorem succeeds_getSingleRolePattern (prop : ObjectPropertyExpression) (s o : String) :
    Succeeds (getSingleRolePattern prop s o : OptionT (Interning N) QuadPattern) prop.isSingle
      fun m p => IsRolePattern m s o prop p := by
  fun_induction getSingleRolePattern prop s o with
  | case1 | case2 =>
    exact (Succeeds.lift (yields_addNodeResource _)).andThen fun k =>
      .pure fun _ hk => ⟨k, hk, rfl⟩
  | case3 _ _ _ ih => exact ih
  | case4 => exact .failure

theorem succeeds_getSingleObjValuePattern (prop : ObjectPropertyExpression) (s : String)
    (individual : Individual) :
    Succeeds (getSingleObjValuePattern prop s individual : OptionT (Interning N) QuadPattern)
      prop.isSingleValue fun m p => IsValuePattern m s individual prop p := by
  have hforward (role : RdfResource) : Succeeds (do
      let roleId ← OptionT.lift (addNodeResource role)
      OptionT.lift (getRoleValuePattern roleId s individual) : OptionT (Interning N) QuadPattern)
      true fun m p => ∃ k i, m.get k = some (.nodeOrEdge role) ∧ Individual.IsId m individual i ∧
        p = getDefaultGraphPattern (.var s) (.resource k) (.resource i) :=
    (Succeeds.lift (yields_addNodeResource role)).andThen fun k =>
      .lift ((yields_individualToId individual).bind fun i => .pure fun _ hi hk =>
        ⟨k, i, hk, hi, rfl⟩)
  have hbackward (role : RdfResource) : Succeeds (do
      let roleId ← OptionT.lift (addNodeResource role)
      let objId ← OptionT.lift (individualToId individual)
      pure (getDefaultGraphPattern (.resource objId) (.resource roleId) (.var s)) :
        OptionT (Interning N) QuadPattern)
      true fun m p => ∃ k i, m.get k = some (.nodeOrEdge role) ∧ Individual.IsId m individual i ∧
        p = getDefaultGraphPattern (.resource i) (.resource k) (.var s) :=
    (Succeeds.lift (yields_addNodeResource role)).andThen fun k =>
      (Succeeds.lift (yields_individualToId individual)).andThen fun i => .pure fun _ hi hk =>
        ⟨k, i, hk, hi, rfl⟩
  unfold getSingleObjValuePattern
  split
  · exact hforward _
  · exact hforward _
  · exact hbackward _
  · exact hbackward _
  · rename_i inner hnamed hanonymous
    cases inner with
    | namedObjectProperty iri => exact absurd rfl (hnamed iri)
    | anonymousObjectProperty id => exact absurd rfl (hanonymous id)
    | inverseObjectProperty | objectPropertyChain => exact .failure
  · exact .failure

theorem IsRolePattern.hasVariable {m : Resources N} {s o : String}
    {prop : ObjectPropertyExpression} {p : QuadPattern} (h : IsRolePattern m s o prop p) :
    p.getVariables ≠ [] := by
  fun_induction IsRolePattern m s o prop p with
  | case1 | case2 =>
    obtain ⟨k, -, rfl⟩ := h
    exact List.cons_ne_nil _ _
  | case3 _ _ _ _ ih => exact ih h
  | case4 => exact h.elim

theorem IsValuePattern.hasVariable {m : Resources N} {s : String} {individual : Individual}
    {prop : ObjectPropertyExpression} {p : QuadPattern}
    (h : IsValuePattern m s individual prop p) : p.getVariables ≠ [] := by
  unfold IsValuePattern at h
  split at h
  · obtain ⟨k, i, -, -, rfl⟩ := h
    exact List.cons_ne_nil _ _
  · obtain ⟨k, i, -, -, rfl⟩ := h
    exact List.cons_ne_nil _ _
  · obtain ⟨k, i, -, -, rfl⟩ := h
    exact List.cons_ne_nil _ _
  · obtain ⟨k, i, -, -, rfl⟩ := h
    exact List.cons_ne_nil _ _
  · exact h.elim

def SinglePattern (m : Resources N) (s o : String) (prop : ObjectPropertyExpression)
    (ps : List QuadPattern) : Prop :=
  prop.isSingle = true → ∃ p, ps = [p] ∧ IsRolePattern m s o prop p

mutual

theorem succeeds_getObjPropPattern : (prop : ObjectPropertyExpression) → (s o : String) →
    Succeeds (getObjPropPattern prop s o : OptionT (Interning N) (List QuadPattern))
      prop.hasPattern fun m ps => SinglePattern m s o prop ps
  | .namedObjectProperty iri, s, o =>
    (succeeds_getSingleRolePattern (.namedObjectProperty iri) s o).andThen fun p =>
      .pure fun _ hp _ => ⟨p, rfl, hp⟩
  | .anonymousObjectProperty id, s, o =>
    (succeeds_getSingleRolePattern (.anonymousObjectProperty id) s o).andThen fun p =>
      .pure fun _ hp _ => ⟨p, rfl, hp⟩
  | .inverseObjectProperty (.objectPropertyChain _), _, _ => .failure
  | .inverseObjectProperty (.namedObjectProperty iri), s, o =>
    succeeds_getObjPropPattern (.namedObjectProperty iri) o s
  | .inverseObjectProperty (.anonymousObjectProperty id), s, o =>
    succeeds_getObjPropPattern (.anonymousObjectProperty id) o s
  | .inverseObjectProperty (.inverseObjectProperty inner), s, o =>
    succeeds_getObjPropPattern (.inverseObjectProperty inner) o s
  | .objectPropertyChain props, s, o =>
    (succeeds_buildPropChain props s o _ ObjectPropertyExpression.isSingle (fun _ _ _ _ => True) 0 s
      fun link var => (succeeds_getSingleRolePattern link var o).weaken fun _ _ _ => trivial).weaken
      nofun

theorem succeeds_buildPropChain : (props : List ObjectPropertyExpression) → (s hint : String) →
    (finalLink : ObjectPropertyExpression → String → OptionT (Interning N) QuadPattern) →
    (finalOk : ObjectPropertyExpression → Bool) →
    (Q : ObjectPropertyExpression → String → Resources N → QuadPattern → Prop) →
    (i : Nat) → (cur : String) →
    (∀ link var, Succeeds (finalLink link var) (finalOk link) (Q link var)) →
    Succeeds (buildPropChain props s hint finalLink i cur)
      (ObjectPropertyExpression.linksHavePatterns finalOk props)
      fun m ps => ∃ init p link var, ps = init ++ [p] ∧ Q link var m p
  | [], _, _, _, _, _, _, _, _ => .failure
  | [last], _, _, _, _, _, _, cur, h =>
    (h last cur).andThen fun p => .pure fun _ hp => ⟨[], p, last, cur, rfl, hp⟩
  | link :: next :: props, s, hint, finalLink, finalOk, Q, i, cur, h =>
    (succeeds_getObjPropPattern link cur _).bind fun patterns =>
      (succeeds_buildPropChain (next :: props) s hint finalLink finalOk Q (i + 1) _ h).andThen
        fun rest => .pure fun _ hrest _ => by
          obtain ⟨init, p, link', var, rfl, hp⟩ := hrest
          exact ⟨patterns ++ init, p, link', var, (List.append_assoc _ _ _).symm, hp⟩

end

theorem succeeds_getObjValuePattern (prop : ObjectPropertyExpression) (s : String)
    (individual : Individual) :
    Succeeds (getObjValuePattern prop s individual : OptionT (Interning N) (List QuadPattern))
      prop.hasValuePattern fun m ps => ∃ init p, ps = init ++ [p] ∧ p.getVariables ≠ [] ∧
        (prop.isSingleValue = true → init = [] ∧ IsValuePattern m s individual prop p) := by
  have hsingle (prop : ObjectPropertyExpression) : Succeeds (do
      let pattern ← getSingleObjValuePattern prop s individual
      pure [pattern] : OptionT (Interning N) (List QuadPattern)) prop.isSingleValue
      fun m ps => ∃ init p, ps = init ++ [p] ∧ p.getVariables ≠ [] ∧
        (prop.isSingleValue = true → init = [] ∧ IsValuePattern m s individual prop p) :=
    (succeeds_getSingleObjValuePattern prop s individual).andThen fun p =>
      .pure fun _ hp => ⟨[], p, rfl, hp.hasVariable, fun _ => ⟨rfl, hp⟩⟩
  unfold getObjValuePattern
  split
  · exact hsingle _
  · exact hsingle _
  · exact .failure
  · exact hsingle _
  · refine (succeeds_buildPropChain _ _ _ _ ObjectPropertyExpression.isSingleValue
      (fun _ _ _ p => p.getVariables ≠ []) _ _ ?_).weaken ?_
    · intro link var
      exact (succeeds_getSingleObjValuePattern link var individual).weaken
        fun _ _ h => h.hasVariable
    · intro m ps h
      obtain ⟨init, p, -, -, hps, hp⟩ := h
      exact ⟨init, p, hps, hp, nofun⟩

mutual

theorem succeeds_translateEli : (concept : ComplexConcept) → (var : String) → (clause : Nat) →
    Succeeds (translateEli concept var clause : OptionT (Interning N) (List QuadPattern))
      concept.hasPatterns fun m ps => IsConceptPatterns m concept var clause ps
  | .atomicConcept iri, var, _ =>
    (Succeeds.lift (yields_getTypePattern var iri)).andThen fun p => .pure fun _ hp => ⟨p, rfl, hp⟩
  | .intersection clauses, var, _ => succeeds_translateClauses clauses var 1
  | .someValuesFrom role inner, var, _ =>
    (succeeds_getObjPropPattern role var _).bind fun roles =>
      (succeeds_translateEli inner _ 1).andThen fun rest => .pure fun _ hrest hroles =>
        ⟨roles, rest, rfl, hroles, hrest⟩
  | .top, _, _ => .pure fun _ => rfl

theorem succeeds_translateClauses : (clauses : List ComplexConcept) → (var : String) →
    (i : Nat) → Succeeds (translateClauses clauses var i : OptionT (Interning N) (List QuadPattern))
      (clausesHavePatterns clauses) fun m ps => AreClausePatterns m clauses var i ps
  | [], _, _ => .pure fun _ => rfl
  | clause :: clauses, var, i =>
    (succeeds_translateEli clause var i).bind fun first =>
      (succeeds_translateClauses clauses var (i + 1)).andThen fun rest =>
        .pure fun _ hrest hfirst => ⟨first, rest, rfl, hfirst, hrest⟩

end

theorem succeeds_generateAxiomRl (f : Formula) :
    Succeeds (generateAxiomRl f : OptionT (Interning N) (List OwlRule)) f.translatable
      fun m rules => FormulaRules m f rules := by
  cases f with
  | directlyTranslatableConceptInclusion subs sups =>
    have hall : (subs.flatMap fun sub => sups.map fun sup => (sub, sup)).all
        (fun p => p.1.hasPatterns) =
        Formula.translatable (.directlyTranslatableConceptInclusion subs sups) := by
      rw [Bool.eq_iff_iff]
      cases sups with
      | nil => simp [Formula.translatable]
      | cons sup sups =>
        simp only [Formula.translatable, List.all_flatMap, List.all_map, List.all_eq_true,
          List.isEmpty_cons, Bool.false_or]
        exact ⟨fun h sub hsub => h sub hsub sup (.head _), fun h sub hsub _ _ => h sub hsub⟩
    rw [← hall]
    refine Succeeds.mapM fun p _ => ?_
    exact (Succeeds.lift (yields_getTypePattern "X" p.2)).bind fun head =>
      (succeeds_translateEli p.1 "X" 1).andThen fun body => .pure fun _ hbody hhead =>
        ⟨head, body, hhead, hbody, rfl⟩
  | normalizedConceptInclusion conj sup =>
    have htypes := Succeeds.lift (yields_typePatterns (N := N) conj)
    cases sup with
    | bottom =>
      have hrule : Succeeds (translateEmptyIntersection conj : OptionT (Interning N) OwlRule) true
          fun m r => ∃ types, List.Forall₂ (IsTypePattern m "X") conj types ∧
            IsNormalizedRule m types .bottom r :=
        htypes.andThen fun types => .pure fun _ h => ⟨types, h, rfl⟩
      refine hrule.andThen fun r => .pure fun _ h => ?_
      obtain ⟨types, ht, hr⟩ := h
      exact ⟨r, types, rfl, ht, hr⟩
    | atomicNamedConcept cls =>
      refine (Succeeds.lift (yields_getTypePattern "X" cls)).andThen fun head =>
        htypes.andThen fun types => .pure fun _ ht hh => ?_
      exact ⟨_, types, rfl, ht, head, hh, rfl⟩
    | atomicAnonymousConcept =>
      have hhead : Yields (getAnonymousTypePattern "X" : Interning N QuadPattern) fun _ p =>
          ∃ t b, p = getDefaultGraphPattern (.var "X") (.resource t) (.resource b) := by
        refine Yields.bind (Q := fun _ _ => True) ?_ fun b => ?_
        · exact fun m => ⟨le_createUnnamed m, fun _ _ => trivial⟩
        · exact (yields_addNodeResource _).bind fun t => .pure fun _ _ _ => ⟨t, b, rfl⟩
      refine (Succeeds.lift hhead).andThen fun head => htypes.andThen fun types =>
        .pure fun _ ht hh => ?_
      obtain ⟨t, b, rfl⟩ := hh
      exact ⟨_, types, rfl, ht, t, b, rfl⟩
    | objectHasValue prop individual =>
      refine (succeeds_getObjValuePattern prop "X" individual).andThenOf fun patterns => ?_
      cases hlast : patterns.getLast? with
      | none =>
        refine Yields.pure fun _ h => ?_
        obtain ⟨init, p, rfl, -⟩ := h
        rw [List.getLast?_concat] at hlast
        cases hlast
      | some head =>
        have htail : Succeeds (do
            let types ← OptionT.lift (typePatterns conj)
            pure [⟨.normalHead head, positiveAtoms (types ++ patterns.dropLast)⟩] :
              OptionT (Interning N) (List OwlRule)) true fun m rules =>
            (∃ init p, patterns = init ++ [p] ∧ p.getVariables ≠ [] ∧
              (prop.isSingleValue = true → init = [] ∧
                IsValuePattern m "X" individual prop p)) →
            FormulaRules m (.normalizedConceptInclusion conj (.objectHasValue prop individual))
              rules := by
          refine htypes.andThen fun types => .pure fun m ht h => ?_
          obtain ⟨init, p, rfl, hp, hsingle⟩ := h
          rw [List.getLast?_concat] at hlast
          cases hlast
          refine ⟨_, types, rfl, ht, head, init, ?_, hp, hsingle⟩
          rw [List.dropLast_concat]
        exact Yields.weaken htail fun _ _ ho h => ⟨ho.1, fun rules hr => ho.2 rules hr h⟩
    | allValuesFrom prop cls =>
      refine (succeeds_getObjPropPattern prop "X" "Y").andThen fun roles =>
        (Succeeds.lift (yields_getTypePattern "Y" cls)).andThen fun head =>
          htypes.andThen fun types => .pure fun _ ht hh hroles => ?_
      exact ⟨_, types, rfl, ht, roles, head, hh, rfl, hroles⟩
    | atMostOneValueFrom prop =>
      have hlast (p₁ p₂ : List QuadPattern) : Succeeds (do
          let types ← OptionT.lift (typePatterns conj)
          let sameAsRoleId ← OptionT.lift (addNodeResource (.iri owlSameAs))
          pure [⟨.normalHead (getRolePattern sameAsRoleId "Y1" "Y2"),
            positiveAtoms (types ++ p₁ ++ p₂)⟩] : OptionT (Interning N) (List OwlRule)) true
          fun m rules => SinglePattern m "X" "Y2" prop p₂ → SinglePattern m "X" "Y1" prop p₁ →
            FormulaRules m (.normalizedConceptInclusion conj (.atMostOneValueFrom prop)) rules := by
        refine htypes.andThen fun types =>
          (Succeeds.lift (yields_addNodeResource _)).andThen fun k => .pure fun _ hk ht h₂ h₁ => ?_
        exact ⟨_, types, rfl, ht, p₁, p₂, k, hk, rfl, fun h => ⟨h₁ h, h₂ h⟩⟩
      have h := (succeeds_getObjPropPattern (N := N) prop "X" "Y1").bind fun p₁ =>
        (succeeds_getObjPropPattern prop "X" "Y2").andThen fun p₂ => hlast p₁ p₂
      rwa [Bool.and_self] at h
    | atMostZeroValueFrom prop =>
      refine (succeeds_getObjPropPattern prop "X" "Y").andThen fun roles =>
        htypes.andThen fun types => .pure fun _ ht hroles => ?_
      exact ⟨_, types, rfl, ht, roles, rfl, hroles⟩

end Eli

end RdfDatalog
