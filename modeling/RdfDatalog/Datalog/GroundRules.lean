import RdfDatalog.Datalog.Matching
import RdfDatalog.Math.GroundProgram
import RdfDatalog.Math.FallibleFold

namespace RdfDatalog.Datalog

open GroundProgram FallibleFold

variable {Expr : Type}

/-- No FILTER guard reads the quads of the store. -/
def ReasonerEnv.FixedFilters (env : ReasonerEnv Expr) : Prop :=
  ∀ e sub rdf, env.evalExprAsFilter e sub rdf = env.evalExprAsFilter e sub .new

theorem ReasonerEnv.FixedFilters.guardsHold {env : ReasonerEnv Expr} (h : env.FixedFilters)
    (rdf : QuadStore) (r : Rule Expr) (sub : Substitution) :
    guardsHold env rdf r sub = guardsHold env .new r sub := by
  have hf : (fun e => env.evalExprAsFilter e sub rdf) = fun e =>
      env.evalExprAsFilter e sub .new := funext fun e => h e sub rdf
  rw [Datalog.guardsHold, Datalog.guardsHold, hf]

namespace Rule

/-- `sub` is a ground instance of `r` that evaluation considers: it binds exactly the variables
of the positive atoms and passes the guards. -/
structure Grounds (env : ReasonerEnv Expr) (r : Rule Expr) (sub : Substitution) : Prop where
  evaluated : r.positivePatterns ≠ [] ∨ r.body = []
  dom : ∀ v, (sub v).isSome ↔ ∃ p ∈ r.positivePatterns, v ∈ p.getVariables
  guards : guardsHold env .new r sub = true

def headQuad (r : Rule Expr) (sub : Substitution) : Option Quad :=
  match r.head with
  | .normalHead p => applySubstitutionQuad sub p
  | .contradiction => none

/-- The quads the positive atoms denote. -/
def witnesses (r : Rule Expr) (sub : Substitution) : Set Quad :=
  {q | ∃ p ∈ r.positivePatterns, applySubstitutionQuad sub p = some q}

/-- The quads that a negated atom matches. -/
def blockers (r : Rule Expr) (sub : Substitution) : Set Quad :=
  {q | ∃ p ∈ r.notPatterns, Matches sub p q}

/-- The body holds in `M`. -/
def ActiveIn (r : Rule Expr) (sub : Substitution) (M : Set Quad) : Prop :=
  r.witnesses sub ⊆ M ∧ ∀ b ∈ r.blockers sub, b ∉ M

def clause (r : Rule Expr) (sub : Substitution) (head : Quad) : Clause Quad :=
  ⟨head, r.witnesses sub, r.blockers sub⟩

def clauses (env : ReasonerEnv Expr) (r : Rule Expr) : Set (Clause Quad) :=
  {c | ∃ sub h, r.Grounds env sub ∧ r.headQuad sub = some h ∧ c = r.clause sub h}

theorem headQuad_matches {r : Rule Expr} {sub : Substitution} {h : Quad}
    (hh : r.headQuad sub = some h) :
    ∃ p, r.head = .normalHead p ∧ Matches emptySubstitution p h := by
  unfold headQuad at hh
  cases hr : r.head with
  | contradiction => rw [hr] at hh; cases hh
  | normalHead p =>
    rw [hr] at hh
    exact ⟨p, rfl, sub, .empty sub, hh⟩

theorem witnesses_matches {r : Rule Expr} {sub : Substitution} {q : Quad}
    (hq : q ∈ r.witnesses sub) : ∃ p ∈ r.positivePatterns, Matches emptySubstitution p q := by
  obtain ⟨p, hp, hq⟩ := hq
  exact ⟨p, hp, sub, .empty sub, hq⟩

theorem blockers_matches {r : Rule Expr} {sub : Substitution} {q : Quad}
    (hq : q ∈ r.blockers sub) : ∃ p ∈ r.notPatterns, Matches emptySubstitution p q := by
  obtain ⟨p, hp, sub', -, hq⟩ := hq
  exact ⟨p, hp, sub', .empty sub', hq⟩

variable {env : ReasonerEnv Expr} {r : Rule Expr} {sub : Substitution}

theorem Grounds.exists_witness (h : r.Grounds env sub) {p : QuadPattern}
    (hp : p ∈ r.positivePatterns) : ∃ q, applySubstitutionQuad sub p = some q :=
  Option.isSome_iff_exists.mp (applySubstitutionQuad_isSome_iff.mpr fun v hv =>
    (h.dom v).mpr ⟨p, hp, hv⟩)

theorem mem_bodyWitnesses {ws : List Quad} (h : r.bodyWitnesses sub = some ws) (q : Quad) :
    q ∈ ws ↔ q ∈ r.witnesses sub :=
  mem_of_forall₂ (mapM_eq_some_iff.mp h) q

theorem Grounds.bodyWitnesses (h : r.Grounds env sub) : ∃ ws, r.bodyWitnesses sub = some ws := by
  have hall : ∀ ps : List QuadPattern, (∀ p ∈ ps, p ∈ r.positivePatterns) →
      ∃ ws, List.Forall₂ (fun p q => applySubstitutionQuad sub p = some q) ps ws := by
    intro ps hps
    induction ps with
    | nil => exact ⟨[], .nil⟩
    | cons p ps ih =>
      obtain ⟨q, hq⟩ := h.exists_witness (hps p (.head ps))
      obtain ⟨ws, hws⟩ := ih fun p hp => hps p (.tail _ hp)
      exact ⟨q :: ws, .cons hq hws⟩
  obtain ⟨ws, hws⟩ := hall r.positivePatterns fun _ hp => hp
  exact ⟨ws, mapM_eq_some_iff.mpr hws⟩

theorem grounds_fact (env : ReasonerEnv Expr) (h : r.body = []) :
    r.Grounds env emptySubstitution := by
  have hp : r.positivePatterns = [] := by simp [positivePatterns, h]
  refine ⟨.inr h, ?_, ?_⟩
  · intro v
    simp [hp, emptySubstitution]
  · simp [guardsHold, notEquals, filterExprs, h]

theorem Grounds.eq_empty (h : r.Grounds env sub) (hr : r.body = []) : sub = emptySubstitution := by
  have hp : r.positivePatterns = [] := by simp [positivePatterns, hr]
  funext v
  have hv := h.dom v
  simp only [hp, List.not_mem_nil, false_and, exists_false, iff_false,
    Option.not_isSome_iff_eq_none] at hv
  exact hv

theorem activeIn_fact (h : r.body = []) (sub : Substitution) (M : Set Quad) :
    r.ActiveIn sub M := by
  have hp : r.positivePatterns = [] := by simp [positivePatterns, h]
  have hn : r.notPatterns = [] := by simp [notPatterns, h]
  constructor
  · intro q ⟨p, hmem, _⟩
    rw [hp] at hmem
    cases hmem
  · intro b ⟨p, hmem, _⟩
    rw [hn] at hmem
    cases hmem

end Rule

def clausesOf (env : ReasonerEnv Expr) (rules : List (Rule Expr)) : Set (Clause Quad) :=
  {c | ∃ r ∈ rules, c ∈ r.clauses env}

/-- Every instance active in `M` has a head quad: no contradiction and no unbound head variable. -/
def Consistent (env : ReasonerEnv Expr) (rules : List (Rule Expr)) (M : Set Quad) : Prop :=
  ∀ r ∈ rules, ∀ sub, r.Grounds env sub → r.ActiveIn sub M → (r.headQuad sub).isSome

/-- The two patterns denote a common quad. -/
def Overlap (p p' : QuadPattern) : Prop :=
  ∃ q, Matches emptySubstitution p q ∧ Matches emptySubstitution p' q

/-- A head quad of `producer` can match a positive atom of `r`. -/
def FeedsPositive (producer r : Rule Expr) : Prop :=
  ∃ h, producer.head = .normalHead h ∧ ∃ p ∈ r.positivePatterns, Overlap h p

/-- A head quad of `producer` can match a negated atom of `r`. -/
def FeedsNegative (producer r : Rule Expr) : Prop :=
  ∃ h, producer.head = .normalHead h ∧ ∃ p ∈ r.notPatterns, Overlap h p

/-- No rule of `rules` reads a head of `later`. -/
def RunsBefore (rules later : List (Rule Expr)) : Prop :=
  ∀ r ∈ rules, ∀ producer ∈ later, ¬ FeedsPositive producer r ∧ ¬ FeedsNegative producer r

/-- The order of the strata respects every dependency between rules that a quad can realise. -/
structure OrderedStrata (strata : List (List (Rule Expr))) : Prop where
  negation : ∀ rules ∈ strata, ∀ r ∈ rules, ∀ producer ∈ rules, ¬ FeedsNegative producer r
  order : strata.Pairwise RunsBefore

/-- Stratum numbers respect the dependencies: a rule stands no later than a rule that reads its
head, and earlier than a rule that negates it. -/
def ValidOrder (strata : List (List (Rule Expr))) : Prop :=
  ∀ (i j : Nat) (A B : List (Rule Expr)), strata[i]? = some A → strata[j]? = some B →
    ∀ a ∈ A, ∀ b ∈ B, (FeedsPositive a b → i ≤ j) ∧ (FeedsNegative a b → i < j)

variable {strata : List (List (Rule Expr))} {sub sub' : Substitution} {producer r : Rule Expr}
  {rules : List (Rule Expr)}

theorem validOrder_iff :
    ValidOrder strata ↔ OrderedStrata strata := by
  constructor
  · intro h
    constructor
    · intro rules hrules r hr producer hp hfeeds
      obtain ⟨i, hi⟩ := List.mem_iff_getElem?.mp hrules
      have hlt := (h i i rules rules hi hi producer hp r hr).2 hfeeds
      omega
    · rw [List.pairwise_iff_getElem]
      intro i j hi hj hij r hr producer hp
      have hno := h j i _ _ (List.getElem?_eq_getElem hj) (List.getElem?_eq_getElem hi)
        producer hp r hr
      exact ⟨fun hfeeds => by have := hno.1 hfeeds; omega,
        fun hfeeds => by have := hno.2 hfeeds; omega⟩
  · intro h i j A B hi hj a ha b hb
    have hlater : j < i → ¬ FeedsPositive a b ∧ ¬ FeedsNegative a b := by
      intro hji
      obtain ⟨hi', rfl⟩ := List.getElem?_eq_some_iff.mp hi
      obtain ⟨hj', rfl⟩ := List.getElem?_eq_some_iff.mp hj
      exact List.pairwise_iff_getElem.mp h.order j i hj' hi' hji b hb a ha
    constructor
    · intro hfeeds
      by_contra hlt
      exact (hlater (not_le.mp hlt)).1 hfeeds
    · intro hfeeds
      by_contra hle
      rcases lt_or_eq_of_le (not_lt.mp hle) with hlt | rfl
      · exact (hlater hlt).2 hfeeds
      · rw [hi] at hj
        cases hj
        exact h.negation A (List.mem_of_getElem? hi) b hb a ha hfeeds

/-- A syntactic test that two patterns denote no common quad: different ids at one position. -/
def Term.clash : Term → Term → Bool
  | .resource a, .resource b => a ≠ b
  | _, _ => false

def QuadPattern.clash (p p' : QuadPattern) : Bool :=
  p.graph.clash p'.graph || p.subject.clash p'.subject || p.predicate.clash p'.predicate ||
    p.object.clash p'.object

theorem Term.clash_eq_false {t t' : Term} {x : GraphElementId}
    (h : applySubstitutionResource sub t = some x) (h' : applySubstitutionResource sub' t' = some x)
    : t.clash t' = false := by
  cases t with
  | var v => rfl
  | resource a =>
    cases t' with
    | var v => rfl
    | resource b =>
      have hab : a = b := Option.some.inj (h.trans h'.symm)
      simp [clash, hab]

theorem not_overlap_of_clash {p p' : QuadPattern} (h : p.clash p' = true) : ¬ Overlap p p' := by
  intro ⟨q, ⟨sub, _, hq⟩, ⟨sub', _, hq'⟩⟩
  obtain ⟨hg, hs, hp, ho⟩ := applySubstitutionQuad_eq_some.mp hq
  obtain ⟨hg', hs', hp', ho'⟩ := applySubstitutionQuad_eq_some.mp hq'
  rw [QuadPattern.clash, Term.clash_eq_false hg hg', Term.clash_eq_false hs hs',
    Term.clash_eq_false hp hp', Term.clash_eq_false ho ho'] at h
  cases h

def RuleHead.clashAll (head : RuleHead) (patterns : List QuadPattern) : Bool :=
  match head with
  | .normalHead h => patterns.all h.clash
  | .contradiction => true

theorem RuleHead.not_overlap {head : RuleHead} {patterns : List QuadPattern}
    (h : head.clashAll patterns = true) :
    ¬ ∃ p, head = .normalHead p ∧ ∃ p' ∈ patterns, Overlap p p' := by
  rintro ⟨p, rfl, p', hp', hover⟩
  exact not_overlap_of_clash (List.all_eq_true.mp h p' hp') hover

/-- A sufficient test for `OrderedStrata`. -/
def strataClash (strata : List (List (Rule Expr))) : Bool :=
  strata.all (fun rules => rules.all fun r => rules.all fun producer =>
    producer.head.clashAll r.notPatterns) &&
  decide (strata.Pairwise fun rules later => ∀ r ∈ rules, ∀ producer ∈ later,
    producer.head.clashAll (r.positivePatterns ++ r.notPatterns) = true)

theorem not_feeds_of_clash (h : producer.head.clashAll (r.positivePatterns ++ r.notPatterns) = true)
    :
    ¬ FeedsPositive producer r ∧ ¬ FeedsNegative producer r := by
  have hno := RuleHead.not_overlap h
  constructor
  · intro ⟨h, hh, p, hp, ho⟩
    exact hno ⟨h, hh, p, List.mem_append_left _ hp, ho⟩
  · intro ⟨h, hh, p, hp, ho⟩
    exact hno ⟨h, hh, p, List.mem_append_right _ hp, ho⟩

theorem OrderedStrata.of_clash (h : strataClash strata = true) :
    OrderedStrata strata := by
  obtain ⟨hneg, horder⟩ := Bool.and_eq_true_iff.mp h
  simp only [List.all_eq_true] at hneg
  refine ⟨fun rules hr r hmem producer hp =>
    RuleHead.not_overlap (hneg rules hr r hmem producer hp), ?_⟩
  refine (of_decide_eq_true horder).imp ?_
  intro rules later hclash r hr producer hp
  exact not_feeds_of_clash (hclash r hr producer hp)

theorem feedsPositive_of_head {h : Quad} (hh : producer.headQuad sub = some h)
    (hw : h ∈ r.witnesses sub') :
    FeedsPositive producer r := by
  obtain ⟨p, hp, hm⟩ := Rule.headQuad_matches hh
  obtain ⟨p', hp', hm'⟩ := Rule.witnesses_matches hw
  exact ⟨p, hp, p', hp', h, hm, hm'⟩

theorem feedsNegative_of_head {h : Quad} (hh : producer.headQuad sub = some h)
    (hb : h ∈ r.blockers sub') :
    FeedsNegative producer r := by
  obtain ⟨p, hp, hm⟩ := Rule.headQuad_matches hh
  obtain ⟨p', hp', hm'⟩ := Rule.blockers_matches hb
  exact ⟨p, hp, p', hp', h, hm, hm'⟩

theorem RunsBefore.precedes {later : List (Rule Expr)} (h : RunsBefore rules later)
    (env : ReasonerEnv Expr) : Precedes (clausesOf env rules) (clausesOf env later) := by
  rintro _ ⟨r, hr, sub, q, -, -, rfl⟩ _ ⟨producer, hp, sub', q', -, hh, rfl⟩
  exact ⟨fun hw => (h r hr producer hp).1 (feedsPositive_of_head hh hw),
    fun hb => (h r hr producer hp).2 (feedsNegative_of_head hh hb)⟩

theorem negationFree_clausesOf (h : ∀ r ∈ rules, ∀ producer ∈ rules, ¬ FeedsNegative producer r)
    (env : ReasonerEnv Expr) :
    NegationFree (clausesOf env rules) := by
  rintro _ ⟨r, hr, sub, q, -, -, rfl⟩ _ ⟨producer, hp, sub', q', -, hh, rfl⟩ hb
  exact h r hr producer hp (feedsNegative_of_head hh hb)

theorem OrderedStrata.stratified (h : OrderedStrata strata) (env : ReasonerEnv Expr) :
    Stratified (strata.map (clausesOf env)) := by
  constructor
  · intro P hP
    obtain ⟨rules, hr, rfl⟩ := List.mem_map.mp hP
    exact negationFree_clausesOf (h.negation rules hr) env
  · exact List.pairwise_map.mpr (h.order.imp fun hrl => hrl.precedes env)

theorem head_mem_of_stable {env : ReasonerEnv Expr} {E M : Set Quad}
    (hM : IsStable (clausesOf env rules) E M) (hr : r ∈ rules) {h : Quad} (hg : r.Grounds env sub)
    (hh : r.headQuad sub = some h) (hact : r.ActiveIn sub M) : h ∈ M :=
  hM.head_mem ⟨r, hr, sub, h, hg, hh, rfl⟩ hact

theorem union_map_clausesOf (env : ReasonerEnv Expr) (strata : List (List (Rule Expr))) :
    union (strata.map (clausesOf env)) = clausesOf env strata.flatten := by
  ext c
  simp only [union, clausesOf, List.mem_map, Set.mem_ofPred_eq, List.mem_flatten]
  constructor
  · rintro ⟨_, ⟨rules, hr, rfl⟩, r, hmem, hc⟩
    exact ⟨r, ⟨rules, hr, hmem⟩, hc⟩
  · rintro ⟨r, ⟨rules, hr, hmem⟩, hc⟩
    exact ⟨_, ⟨rules, hr, rfl⟩, r, hmem, hc⟩

/-- The matches that evaluation finds for a triggering fact are the active ground instances in
which the triggering atom denotes it. -/
theorem mem_evaluate_match {env : ReasonerEnv Expr} (hf : env.FixedFilters) (rdf : QuadStore)
    {fact : Quad} {pr : PartialRule Expr} (hpr : pr.matchPattern ∈ pr.rule.positivePatterns)
    {m : PartialRuleMatch Expr} (hm : m ∈ getMatchesForRule fact pr) (sub : Substitution) :
    sub ∈ evaluate env rdf m ↔ pr.rule.Grounds env sub ∧
      applySubstitutionQuad sub pr.matchPattern = some fact ∧ pr.rule.ActiveIn sub rdf.quads := by
  obtain ⟨rfl, hs⟩ := mem_getMatchesForRule.mp hm
  obtain ⟨hsp, -, hsv⟩ := getSubstitutions_spec hs
  rw [mem_evaluate, hf.guardsHold]
  constructor
  · intro ⟨hext, hpos, hoff, hguard, hneg⟩
    refine ⟨⟨.inl (List.ne_nil_of_mem hpr), ?_, hguard⟩, hext.applyQuad hsp, ?_, ?_⟩
    · intro v
      constructor
      · intro hv
        by_contra hno
        have hno' : ∀ p ∈ m.partialRule.rule.positivePatterns, v ∉ p.getVariables :=
          fun p hp hvp => hno ⟨p, hp, hvp⟩
        rw [hoff v hno', hsv v (hno' _ hpr)] at hv
        cases hv
      · intro ⟨p, hp, hv⟩
        obtain ⟨q, -, hq⟩ := hpos p hp
        exact isSome_of_applySubstitutionQuad hq hv
    · intro q ⟨p, hp, hq⟩
      obtain ⟨q', hq', hpq⟩ := hpos p hp
      rw [hq, Option.some.injEq] at hpq
      exact hpq ▸ hq'
    · intro b ⟨p, hp, hb⟩ hmem
      exact hneg p hp b hmem hb
  · intro ⟨hg, hfact, hpos, hneg⟩
    obtain ⟨s, hs', hsub⟩ := exists_getSubstitutions (.empty sub) hfact
    obtain rfl : s = m.substitution := Option.some.inj (hs'.symm.trans hs)
    refine ⟨hsub, ?_, ?_, hg.guards, fun p hp q hq hmatch => hneg q ⟨p, hp, hmatch⟩ hq⟩
    · intro p hp
      obtain ⟨q, hq⟩ := hg.exists_witness hp
      exact ⟨q, hpos ⟨p, hp, hq⟩, hq⟩
    · intro v hno
      have hsv' : sub v = none := by
        rw [← Option.not_isSome_iff_eq_none, hg.dom v]
        exact fun ⟨p, hp, hv⟩ => hno p hp hv
      rw [hsv', hsv v (hno _ hpr)]
      rfl

end RdfDatalog.Datalog
