import RdfDatalog.Datalog.Types

namespace RdfDatalog.Datalog

variable {Expr : Type}

def emptySubstitution : Substitution := fun _ => none

variable (r : Rule Expr)

def isFact : Bool := r.body.isEmpty

def constantQuadPattern (q : Quad) : QuadPattern :=
  ⟨.resource q.tripleId, .resource q.subject, .resource q.predicate, .resource q.obj⟩

def Term.toRw : Term → ResourceOrWildcard
  | .var _ => .wildcard
  | .resource r => .resource r

/-- The index key of a body atom. -/
def directWildcardPattern (p : QuadPattern) : QuadWildcard :=
  ⟨p.graph.toRw, p.subject.toRw, p.predicate.toRw, p.object.toRw⟩

def Term.expand : Term → List ResourceOrWildcard
  | .var _ => [.wildcard]
  | .resource r => [.resource r, .wildcard]

/-- All index keys a pattern is looked up under. -/
def wildcardQuadPattern (p : QuadPattern) : List QuadWildcard :=
  p.graph.expand.flatMap fun g => p.subject.expand.flatMap fun s =>
    p.predicate.expand.flatMap fun pr => p.object.expand.map fun o => ⟨g, s, pr, o⟩

def getUnsafeHeadVariables : List String :=
  r.head.getVariables.filter (fun v => v ∉ r.body.flatMap RuleAtom.getVariables)

/-- Errors of the reasoner, each with the rule its message prints. -/
inductive ReasoningError (Expr : Type) where
  | contradiction (rule : Rule Expr)
  | notStratifiable (rule : Rule Expr)
  | dependedOn (rule dependent : Rule Expr)
  | unsafeRule (vars : List String) (rule : Rule Expr)
  deriving DecidableEq

def isSafeRule : Except (ReasoningError Expr) Unit :=
  let unsafeVars := getUnsafeHeadVariables r
  if unsafeVars.isEmpty then .ok () else .error (.unsafeRule unsafeVars r)

/-- Extend `sub` so that `term` denotes `resource`. -/
def getSubstitution (resource : GraphElementId) (term : Term) (sub : Substitution) :
    Option Substitution :=
  match term with
  | .resource r => if r = resource then some sub else none
  | .var v =>
    match sub v with
    | some r => if r = resource then some sub else none
    | none => some (Function.update sub v (some resource))

variable (sub : Substitution)

/-- Extend `sub` so that `pattern` denotes `fact`. -/
def getSubstitutions (fact : Quad) (pattern : QuadPattern) : Option Substitution :=
  (getSubstitution fact.tripleId pattern.graph sub).bind fun s =>
    (getSubstitution fact.subject pattern.subject s).bind fun s =>
      (getSubstitution fact.predicate pattern.predicate s).bind fun s =>
        getSubstitution fact.obj pattern.object s

/-- `none` where the source panics: the variable is not in the substitution. -/
def applySubstitutionResource : Term → Option GraphElementId
  | .resource r => some r
  | .var v => sub v

def applySubstitutionQuad (pattern : QuadPattern) : Option Quad :=
  (applySubstitutionResource sub pattern.graph).bind fun g =>
    (applySubstitutionResource sub pattern.subject).bind fun s =>
      (applySubstitutionResource sub pattern.predicate).bind fun p =>
        (applySubstitutionResource sub pattern.object).map fun o => ⟨g, s, p, o⟩

/-- The positive atoms of a rule under a substitution, as a derivation records them. -/
def Rule.bodyWitnesses : Option (List Quad) :=
  r.positivePatterns.mapM (applySubstitutionQuad sub)

def getMappedResource : Term → Term
  | .resource r => .resource r
  | .var v =>
    match sub v with
    | some r => .resource r
    | none => .var v

def getMappedPattern (p : QuadPattern) : QuadPattern :=
  ⟨getMappedResource sub p.graph, getMappedResource sub p.subject,
    getMappedResource sub p.predicate, getMappedResource sub p.object⟩

/-- The lookup that `evaluate_pattern` chooses from the bound positions. -/
def candidateQuads (rdf : QuadTable) (p : QuadPattern) : List Quad :=
  match p.graph, p.subject, p.predicate, p.object with
  | .resource g, .resource s, .var _, .var _ => rdf.getQuadsWithIdSubject g s
  | .resource g, .var _, .resource p, .var _ => rdf.getQuadsWithIdPredicate g p
  | .resource g, .var _, .var _, .resource o => rdf.getQuadsWithIdObject g o
  | .resource g, .resource s, .resource p, .var _ => rdf.getQuadsWithIdSubjectPredicate g s p
  | .resource g, .var _, .resource p, .resource o => rdf.getQuadsWithIdObjectPredicate g o p
  | .resource g, .resource s, .resource p, .resource o =>
    if rdf.contains ⟨g, s, p, o⟩ then [⟨g, s, p, o⟩] else []
  | .resource g, .resource s, .var _, .resource o => rdf.getQuadsWithIdSubjectObject g s o
  | .resource g, .var _, .var _, .var _ => rdf.getGraph g
  | .var _, .resource s, .var _, .var _ => rdf.getQuadsWithSubject s
  | .var _, .var _, .resource p, .var _ => rdf.getQuadsWithPredicate p
  | .var _, .var _, .var _, .resource o => rdf.getQuadsWithObject o
  | .var _, .resource s, .resource p, .var _ => rdf.getQuadsWithSubjectPredicate s p
  | .var _, .var _, .resource p, .resource o => rdf.getQuadsWithObjectPredicate o p
  | .var _, .resource s, .resource p, .resource o =>
    (rdf.getQuadsWithSubjectPredicate s p).filter (fun q => q.obj = o)
  | .var _, .resource s, .var _, .resource o => rdf.getQuadsWithSubjectObject s o
  | .var _, .var _, .var _, .var _ => rdf.getAllQuads

/-- The extensions of `sub` under which `pattern` denotes a stored quad. -/
def evaluatePattern (rdf : QuadStore) (pattern : QuadPattern) (sub : Substitution) :
    List Substitution :=
  let mapped := getMappedPattern sub pattern
  (candidateQuads rdf.table mapped).filterMap (fun q => getSubstitutions sub q mapped)

def evaluatePatterns (rdf : QuadStore) (patterns : List QuadPattern) (subs : List Substitution) :
    List Substitution :=
  patterns.foldl (fun subs pattern => subs.flatMap (evaluatePattern rdf pattern)) subs

def evaluatePositive (rdf : QuadStore) (m : PartialRuleMatch Expr) : List Substitution :=
  evaluatePatterns rdf m.partialRule.rule.positivePatterns [m.substitution]

/-- Code outside the reasoner that it calls, and the iteration order of its hash sets. -/
structure ReasonerEnv (Expr : Type) where
  evalExprAsFilter : Expr → Substitution → QuadStore → Bool
  quadOrder : List Quad → List Quad
  quadOrder_perm : ∀ quads, (quadOrder quads).Perm quads
  ruleOrder : List (Rule Expr) → List (Rule Expr)
  ruleOrder_perm : ∀ rules, (ruleOrder rules).Perm rules

def notEqualsHolds (pair : Term × Term) : Bool :=
  match applySubstitutionResource sub pair.1, applySubstitutionResource sub pair.2 with
  | some a, some b => a ≠ b
  | _, _ => true

def guardsHold (env : ReasonerEnv Expr) (rdf : QuadStore) (r : Rule Expr) (sub : Substitution) :
    Bool :=
  r.notEquals.all (notEqualsHolds sub) &&
    r.filterExprs.all (fun e => env.evalExprAsFilter e sub rdf)

/-- The complete matches of a rule body: positive atoms, then guards, then negated atoms. -/
def evaluate (env : ReasonerEnv Expr) (rdf : QuadStore) (m : PartialRuleMatch Expr) :
    List Substitution :=
  let r := m.partialRule.rule
  (evaluatePositive rdf m).filter fun sub =>
    guardsHold env rdf r sub &&
      r.notPatterns.all (fun p => (evaluatePattern rdf p sub).isEmpty)

/-- The match of a fact with the triggering atom of a partial rule, if there is one. -/
def getMatchesForRule (fact : Quad) (pr : PartialRule Expr) : List (PartialRuleMatch Expr) :=
  match getSubstitutions emptySubstitution fact pr.matchPattern with
  | some s => [⟨pr, s⟩]
  | none => []

/-- `sub'` binds everything `sub` binds, to the same ids. -/
def Substitution.ExtendedBy (sub sub' : Substitution) : Prop :=
  ∀ v r, sub v = some r → sub' v = some r

namespace Substitution.ExtendedBy

variable {a b c : Substitution}

theorem refl (a : Substitution) : a.ExtendedBy a := fun _ _ h => h

theorem trans (h : a.ExtendedBy b) (h' : b.ExtendedBy c) : a.ExtendedBy c :=
  fun v r hv => h' v r (h v r hv)

theorem empty (a : Substitution) : emptySubstitution.ExtendedBy a := nofun

theorem applyResource (h : a.ExtendedBy b) {t : Term} {x : GraphElementId}
    (ht : applySubstitutionResource a t = some x) : applySubstitutionResource b t = some x := by
  cases t with
  | resource r => exact ht
  | var v => exact h v x ht

end Substitution.ExtendedBy

variable {p : QuadPattern} {q : Quad} {a b : Substitution} {x : GraphElementId} {rdf : QuadStore}

theorem applySubstitutionQuad_eq_some {sub : Substitution} :
    applySubstitutionQuad sub p = some q ↔
      applySubstitutionResource sub p.graph = some q.tripleId ∧
      applySubstitutionResource sub p.subject = some q.subject ∧
      applySubstitutionResource sub p.predicate = some q.predicate ∧
      applySubstitutionResource sub p.object = some q.obj := by
  unfold applySubstitutionQuad
  simp only [Option.bind_eq_some_iff, Option.map_eq_some_iff]
  constructor
  · rintro ⟨g, hg, s, hs, p, hp, o, ho, rfl⟩
    exact ⟨hg, hs, hp, ho⟩
  · intro ⟨hg, hs, hp, ho⟩
    exact ⟨_, hg, _, hs, _, hp, _, ho, rfl⟩

theorem Substitution.ExtendedBy.applyQuad (h : a.ExtendedBy b)
    (hp : applySubstitutionQuad a p = some q) :
    applySubstitutionQuad b p = some q := by
  rw [applySubstitutionQuad_eq_some] at hp ⊢
  exact ⟨h.applyResource hp.1, h.applyResource hp.2.1, h.applyResource hp.2.2.1,
    h.applyResource hp.2.2.2⟩

variable {t : Term} {v : String} {m : PartialRuleMatch Expr}

theorem getSubstitution_spec (h : getSubstitution x t a = some b) :
    applySubstitutionResource b t = some x ∧ a.ExtendedBy b ∧
      ∀ v, v ∉ t.getVariables → b v = a v := by
  cases t with
  | resource r =>
    simp only [getSubstitution, Option.ite_none_right_eq_some, Option.some.injEq] at h
    obtain ⟨rfl, rfl⟩ := h
    exact ⟨rfl, .refl _, fun _ _ => rfl⟩
  | var v =>
    unfold getSubstitution at h
    cases hv : a v with
    | some r =>
      simp only [hv, Option.ite_none_right_eq_some, Option.some.injEq] at h
      obtain ⟨rfl, rfl⟩ := h
      exact ⟨hv, .refl _, fun _ _ => rfl⟩
    | none =>
      simp only [hv, Option.some.injEq] at h
      subst h
      refine ⟨Function.update_self .., ?_, ?_⟩
      · intro w r hw
        have hne : w ≠ v := by
          rintro rfl
          rw [hv] at hw
          cases hw
        rw [Function.update_of_ne hne, hw]
      · intro w hw
        have hne : w ≠ v := by simpa [Term.getVariables] using hw
        exact Function.update_of_ne hne _ _

theorem exists_getSubstitution {c : Substitution} (hac : a.ExtendedBy c)
    (h : applySubstitutionResource c t = some x) :
    ∃ b, getSubstitution x t a = some b ∧ b.ExtendedBy c := by
  cases t with
  | resource r =>
    cases h
    exact ⟨a, by simp [getSubstitution], hac⟩
  | var v =>
    unfold getSubstitution
    cases hv : a v with
    | some r =>
      have hr : r = x := Option.some.inj ((hac v r hv).symm.trans h)
      exact ⟨a, by simp [hv, hr], hac⟩
    | none =>
      refine ⟨Function.update a v (some x), by simp [hv], ?_⟩
      intro w r hw
      by_cases hwv : w = v
      · subst hwv
        rw [Function.update_self] at hw
        cases hw
        exact h
      · rw [Function.update_of_ne hwv] at hw
        exact hac w r hw

theorem mem_getVariables :
    v ∈ p.getVariables ↔ v ∈ p.graph.getVariables ∨ v ∈ p.subject.getVariables ∨
      v ∈ p.predicate.getVariables ∨ v ∈ p.object.getVariables := by
  simp [QuadPattern.getVariables]

theorem getSubstitutions_spec (h : getSubstitutions a q p = some b) :
    applySubstitutionQuad b p = some q ∧ a.ExtendedBy b ∧
      ∀ v, v ∉ p.getVariables → b v = a v := by
  unfold getSubstitutions at h
  simp only [Option.bind_eq_some_iff] at h
  obtain ⟨s₁, h₁, s₂, h₂, s₃, h₃, h₄⟩ := h
  obtain ⟨ha₁, he₁, hv₁⟩ := getSubstitution_spec h₁
  obtain ⟨ha₂, he₂, hv₂⟩ := getSubstitution_spec h₂
  obtain ⟨ha₃, he₃, hv₃⟩ := getSubstitution_spec h₃
  obtain ⟨ha₄, he₄, hv₄⟩ := getSubstitution_spec h₄
  have he₂₄ : s₂.ExtendedBy b := he₃.trans he₄
  have he₁₄ : s₁.ExtendedBy b := he₂.trans he₂₄
  refine ⟨applySubstitutionQuad_eq_some.mpr ⟨he₁₄.applyResource ha₁, he₂₄.applyResource ha₂,
    he₄.applyResource ha₃, ha₄⟩, he₁.trans he₁₄, ?_⟩
  intro v hv
  rw [mem_getVariables, not_or, not_or, not_or] at hv
  rw [hv₄ v hv.2.2.2, hv₃ v hv.2.2.1, hv₂ v hv.2.1, hv₁ v hv.1]

theorem exists_getSubstitutions {c : Substitution} (hac : a.ExtendedBy c)
    (h : applySubstitutionQuad c p = some q) :
    ∃ b, getSubstitutions a q p = some b ∧ b.ExtendedBy c := by
  obtain ⟨hg, hs, hp, ho⟩ := applySubstitutionQuad_eq_some.mp h
  obtain ⟨s₁, h₁, he₁⟩ := exists_getSubstitution hac hg
  obtain ⟨s₂, h₂, he₂⟩ := exists_getSubstitution he₁ hs
  obtain ⟨s₃, h₃, he₃⟩ := exists_getSubstitution he₂ hp
  obtain ⟨s₄, h₄, he₄⟩ := exists_getSubstitution he₃ ho
  exact ⟨s₄, by simp [getSubstitutions, h₁, h₂, h₃, h₄], he₄⟩

theorem isSome_of_applySubstitutionQuad {sub : Substitution}
    (h : applySubstitutionQuad sub p = some q) (hv : v ∈ p.getVariables) :
    (sub v).isSome := by
  have hterm : ∀ {t : Term} {x : GraphElementId}, applySubstitutionResource sub t = some x →
      v ∈ t.getVariables → (sub v).isSome := by
    intro t x ht hvt
    cases t with
    | resource r => cases hvt
    | var w =>
      obtain rfl : v = w := by simpa [Term.getVariables] using hvt
      change sub v = some x at ht
      simp [ht]
  obtain ⟨hg, hs, hp, ho⟩ := applySubstitutionQuad_eq_some.mp h
  rcases mem_getVariables.mp hv with h | h | h | h
  · exact hterm hg h
  · exact hterm hs h
  · exact hterm hp h
  · exact hterm ho h

theorem applySubstitutionQuad_isSome_iff {sub : Substitution} :
    (applySubstitutionQuad sub p).isSome ↔ ∀ v ∈ p.getVariables, (sub v).isSome := by
  constructor
  · intro h v hv
    obtain ⟨q, hq⟩ := Option.isSome_iff_exists.mp h
    exact isSome_of_applySubstitutionQuad hq hv
  · intro h
    have hterm (t : Term) (ht : ∀ v ∈ t.getVariables, v ∈ p.getVariables) :
        ∃ x, applySubstitutionResource sub t = some x := by
      cases t with
      | resource r => exact ⟨r, rfl⟩
      | var v => exact Option.isSome_iff_exists.mp (h v (ht v List.mem_cons_self))
    obtain ⟨g, hg⟩ := hterm p.graph fun v hv => mem_getVariables.mpr (.inl hv)
    obtain ⟨s, hs⟩ := hterm p.subject fun v hv => mem_getVariables.mpr (.inr (.inl hv))
    obtain ⟨r, hr⟩ := hterm p.predicate fun v hv => mem_getVariables.mpr (.inr (.inr (.inl hv)))
    obtain ⟨o, ho⟩ := hterm p.object fun v hv => mem_getVariables.mpr (.inr (.inr (.inr hv)))
    rw [applySubstitutionQuad_eq_some (q := ⟨g, s, r, o⟩) |>.mpr ⟨hg, hs, hr, ho⟩]
    rfl

theorem Substitution.ExtendedBy.eq_of_isSome (h : a.ExtendedBy b) (hv : (a v).isSome) :
    a v = b v := by
  obtain ⟨r, hr⟩ := Option.isSome_iff_exists.mp hv
  rw [hr, h v r hr]

/-- `pattern` denotes `q` under some extension of `sub`. -/
def Matches (pattern : QuadPattern) (q : Quad) : Prop :=
  ∃ sub', sub.ExtendedBy sub' ∧ applySubstitutionQuad sub' pattern = some q

theorem getSubstitutions_isSome :
    (getSubstitutions a q p).isSome ↔ Matches a p q := by
  rw [Option.isSome_iff_exists]
  constructor
  · intro ⟨b, hb⟩
    obtain ⟨hp, he, -⟩ := getSubstitutions_spec hb
    exact ⟨b, he, hp⟩
  · intro ⟨c, he, hp⟩
    obtain ⟨b, hb, -⟩ := exists_getSubstitutions he hp
    exact ⟨b, hb⟩

theorem getSubstitution_mapped (h : a.ExtendedBy b) :
    getSubstitution x (getMappedResource a t) b = getSubstitution x t b := by
  cases t with
  | resource r => rfl
  | var v =>
    cases hv : a v with
    | none => simp [getMappedResource, hv]
    | some r => simp [getMappedResource, getSubstitution, hv, h v r hv]

theorem getSubstitutions_mapped (q : Quad) (p : QuadPattern) :
    getSubstitutions sub q (getMappedPattern sub p) = getSubstitutions sub q p := by
  unfold getSubstitutions getMappedPattern
  rw [getSubstitution_mapped (.refl sub)]
  refine Option.bind_congr fun s₁ h₁ => ?_
  have e₁ := (getSubstitution_spec h₁).2.1
  rw [getSubstitution_mapped e₁]
  refine Option.bind_congr fun s₂ h₂ => ?_
  have e₂ := e₁.trans (getSubstitution_spec h₂).2.1
  rw [getSubstitution_mapped e₂]
  refine Option.bind_congr fun s₃ h₃ => ?_
  exact getSubstitution_mapped (e₂.trans (getSubstitution_spec h₃).2.1)

/-- The resource of a term, if it has one, is `x`. -/
def Term.Admits : Term → GraphElementId → Prop
  | .resource r, x => x = r
  | .var _, _ => True

theorem Term.Admits.of_apply (h : a.ExtendedBy b) (ht : applySubstitutionResource b t = some x) :
    (getMappedResource a t).Admits x := by
  cases t with
  | resource r => exact (Option.some.inj ht).symm
  | var v =>
    cases hv : a v with
    | none => simp [getMappedResource, hv, Term.Admits]
    | some r =>
      have hr : x = r := Option.some.inj (ht.symm.trans (h v r hv))
      simpa [getMappedResource, hv, Term.Admits] using hr

theorem mem_candidateQuads (rdf : QuadStore) (p : QuadPattern) (q : Quad) :
    q ∈ candidateQuads rdf.table p ↔ q ∈ rdf ∧ p.graph.Admits q.tripleId ∧
      p.subject.Admits q.subject ∧ p.predicate.Admits q.predicate ∧ p.object.Admits q.obj := by
  have hl := rdf.wellFormed.exactLookups
  have hc := rdf.contains_iff
  obtain ⟨g, s, pr, o⟩ := p
  cases g <;> cases s <;> cases pr <;> cases o <;>
    simp only [candidateQuads, Term.Admits, true_and, and_true, QuadStore.mem_def,
      (hl.withSubject _).mem, (hl.withObject _).mem, (hl.withPredicate _).mem, (hl.graph _).mem,
      (hl.withSubjectPredicate _ _).mem, (hl.withObjectPredicate _ _).mem,
      (hl.withSubjectObject _ _).mem, (hl.withIdSubject _ _).mem, (hl.withIdPredicate _ _).mem,
      (hl.withIdObject _ _).mem, (hl.withIdSubjectPredicate _ _ _).mem,
      (hl.withIdSubjectObject _ _ _).mem, (hl.withIdObjectPredicate _ _ _).mem,
      List.mem_filter, decide_eq_true_eq, QuadTable.getAllQuads]
  case resource.resource.resource.resource g s pr o =>
    have hq : rdf.table.contains ⟨g, s, pr, o⟩ = true ↔ (⟨g, s, pr, o⟩ : Quad) ∈ rdf := hc _
    by_cases h : (⟨g, s, pr, o⟩ : Quad) ∈ rdf
    · rw [if_pos (hq.mpr h), List.mem_singleton]
      constructor
      · rintro rfl
        exact ⟨h, rfl, rfl, rfl, rfl⟩
      · intro ⟨_, hg, hs, hp, ho⟩
        exact Quad.ext hg hs hp ho
    · rw [if_neg (fun hh => h (hq.mp hh))]
      constructor
      · intro hh; cases hh
      · intro ⟨hm, hg, hs, hp, ho⟩
        have heq : q = ⟨g, s, pr, o⟩ := Quad.ext hg hs hp ho
        exact absurd (heq ▸ hm) h
  all_goals tauto

theorem mem_evaluatePattern :
    b ∈ evaluatePattern rdf p a ↔ ∃ q ∈ rdf, getSubstitutions a q p = some b := by
  unfold evaluatePattern
  simp only [List.mem_filterMap, getSubstitutions_mapped, mem_candidateQuads]
  constructor
  · intro ⟨q, hq, hb⟩
    exact ⟨q, hq.1, hb⟩
  · intro ⟨q, hq, hb⟩
    obtain ⟨hp, he, -⟩ := getSubstitutions_spec hb
    obtain ⟨hg, hs, hpr, ho⟩ := applySubstitutionQuad_eq_some.mp hp
    exact ⟨q, ⟨hq, .of_apply he hg, .of_apply he hs, .of_apply he hpr, .of_apply he ho⟩, hb⟩

theorem evaluatePattern_isEmpty :
    (evaluatePattern rdf p a).isEmpty = true ↔ ∀ q ∈ rdf, ¬ Matches a p q := by
  rw [List.isEmpty_iff, List.eq_nil_iff_forall_not_mem]
  constructor
  · intro h q hq hm
    obtain ⟨b, hb⟩ := Option.isSome_iff_exists.mp (getSubstitutions_isSome.mpr hm)
    exact h b (mem_evaluatePattern.mpr ⟨q, hq, hb⟩)
  · intro h b hb
    obtain ⟨q, hq, hb⟩ := mem_evaluatePattern.mp hb
    exact h q hq (getSubstitutions_isSome.mp (by simp [hb]))

theorem mem_evaluatePatterns {ps : List QuadPattern} {subs : List Substitution} :
    b ∈ evaluatePatterns rdf ps subs ↔ ∃ a ∈ subs, a.ExtendedBy b ∧
      (∀ p ∈ ps, ∃ q ∈ rdf, applySubstitutionQuad b p = some q) ∧
      ∀ v, (∀ p ∈ ps, v ∉ p.getVariables) → b v = a v := by
  unfold evaluatePatterns
  induction ps generalizing subs with
  | nil =>
    simp only [List.foldl_nil, List.not_mem_nil, false_imp_iff, implies_true, true_and,
      true_imp_iff]
    constructor
    · intro h
      exact ⟨b, h, .refl b, fun _ => rfl⟩
    · intro ⟨a, ha, _, hv⟩
      rwa [show b = a from funext hv]
  | cons p ps ih =>
    rw [List.foldl_cons, ih]
    constructor
    · intro ⟨s, hs, hsb, hps, hv⟩
      obtain ⟨a, ha, hs⟩ := List.mem_flatMap.mp hs
      obtain ⟨q, hq, hs⟩ := mem_evaluatePattern.mp hs
      obtain ⟨hp, has, hvs⟩ := getSubstitutions_spec hs
      refine ⟨a, ha, has.trans hsb, ?_, ?_⟩
      · intro p' hp'
        rcases List.mem_cons.mp hp' with rfl | hp'
        · exact ⟨q, hq, hsb.applyQuad hp⟩
        · exact hps p' hp'
      · intro v hno
        rw [hv v fun p' hp' => hno p' (.tail p hp'), hvs v (hno p (.head ps))]
    · intro ⟨a, ha, hab, hps, hv⟩
      obtain ⟨q, hq, hbq⟩ := hps p (.head ps)
      obtain ⟨s, hs, hsb⟩ := exists_getSubstitutions hab hbq
      obtain ⟨hsp, -, hvs⟩ := getSubstitutions_spec hs
      refine ⟨s, List.mem_flatMap.mpr ⟨a, ha, mem_evaluatePattern.mpr ⟨q, hq, hs⟩⟩, hsb,
        fun p' hp' => hps p' (.tail p hp'), ?_⟩
      intro v hno
      by_cases hvp : v ∈ p.getVariables
      · exact (hsb.eq_of_isSome (isSome_of_applySubstitutionQuad hsp hvp)).symm
      · rw [hvs v hvp]
        refine hv v fun p' hp' => ?_
        rcases List.mem_cons.mp hp' with rfl | hp'
        · exact hvp
        · exact hno p' hp'

theorem mem_evaluate {env : ReasonerEnv Expr} :
    b ∈ evaluate env rdf m ↔ m.substitution.ExtendedBy b ∧
      (∀ p ∈ m.partialRule.rule.positivePatterns,
        ∃ q ∈ rdf, applySubstitutionQuad b p = some q) ∧
      (∀ v, (∀ p ∈ m.partialRule.rule.positivePatterns, v ∉ p.getVariables) →
        b v = m.substitution v) ∧
      guardsHold env rdf m.partialRule.rule b = true ∧
      ∀ p ∈ m.partialRule.rule.notPatterns, ∀ q ∈ rdf, ¬ Matches b p q := by
  unfold evaluate
  simp only [List.mem_filter, evaluatePositive, mem_evaluatePatterns, List.mem_singleton,
    exists_eq_left, Bool.and_eq_true, List.all_eq_true, evaluatePattern_isEmpty, and_assoc]

theorem mem_getMatchesForRule {fact : Quad} {pr : PartialRule Expr} :
    m ∈ getMatchesForRule fact pr ↔ m.partialRule = pr ∧
      getSubstitutions emptySubstitution fact pr.matchPattern = some m.substitution := by
  unfold getMatchesForRule
  cases h : getSubstitutions emptySubstitution fact pr.matchPattern with
  | none => simp
  | some s =>
    simp only [List.mem_singleton, Option.some.injEq]
    constructor
    · rintro rfl
      exact ⟨rfl, rfl⟩
    · rintro ⟨rfl, rfl⟩
      rfl

end RdfDatalog.Datalog
