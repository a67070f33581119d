import RdfDatalog.Datalog.Reasoner
import RdfDatalog.Datalog.GroundRules
import Mathlib.Data.Finset.Prod

namespace RdfDatalog.Datalog

open GroundProgram FallibleFold Materialisation DatalogProgram

variable {Expr : Type}

variable {sub : Substitution}

theorem toRw_mem_expand {t : Term} {x : GraphElementId}
    (h : applySubstitutionResource sub t = some x) : t.toRw ∈ (Term.resource x).expand := by
  cases t with
  | resource r =>
    obtain rfl : r = x := Option.some.inj h
    exact .head _
  | var v => exact .tail _ (.head _)

theorem directWildcardPattern_mem {p : QuadPattern} {q : Quad}
    (h : applySubstitutionQuad sub p = some q) :
    directWildcardPattern p ∈ wildcardQuadPattern (constantQuadPattern q) := by
  obtain ⟨hg, hs, hp, ho⟩ := applySubstitutionQuad_eq_some.mp h
  unfold wildcardQuadPattern
  simp only [List.mem_flatMap, List.mem_map]
  exact ⟨_, toRw_mem_expand hg, _, toRw_mem_expand hs, _, toRw_mem_expand hp, _,
    toRw_mem_expand ho, rfl⟩

namespace DatalogProgram

variable {p : DatalogProgram Expr} {r : Rule Expr}

theorem mem_getRulesForFact {fact : Quad} {m : PartialRuleMatch Expr} : m ∈ p.getRulesForFact fact ↔
      p.Enabled m.partialRule.ruleId m.partialRule.rule ∧
      m.partialRule.matchPattern ∈ m.partialRule.rule.positivePatterns ∧
      m ∈ getMatchesForRule fact m.partialRule := by
  unfold getRulesForFact Enabled
  simp only [List.mem_flatMap, List.mem_filter, p.ruleMap_exact, decide_eq_true_eq]
  constructor
  · rintro ⟨pr, ⟨⟨wc, -, hr, hp, -⟩, hd⟩, hm⟩
    obtain ⟨rfl, -⟩ := mem_getMatchesForRule.mp hm
    exact ⟨⟨hr, hd⟩, hp, hm⟩
  · rintro ⟨⟨hr, hd⟩, hp, hm⟩
    obtain ⟨-, hs⟩ := mem_getMatchesForRule.mp hm
    have hkey := directWildcardPattern_mem (getSubstitutions_spec hs).1
    exact ⟨m.partialRule, ⟨⟨_, hkey, hr, hp, rfl⟩, hd⟩, hm⟩

theorem mem_negativelyTriggeredRules {fact : Quad} {id : Nat} {pattern : QuadPattern}
    (hm : Matches emptySubstitution pattern fact) :
    (id, pattern) ∈ p.negativelyTriggeredRules fact ↔
      ∃ r, p.Enabled id r ∧ pattern ∈ r.notPatterns := by
  unfold negativelyTriggeredRules Enabled
  simp only [List.mem_flatMap, List.mem_filter, p.negRuleMap_exact, decide_eq_true_eq]
  constructor
  · rintro ⟨⟨wc, -, r, hr, hp, -⟩, hd⟩
    exact ⟨r, ⟨hr, hd⟩, hp⟩
  · rintro ⟨r, ⟨hr, hd⟩, hp⟩
    obtain ⟨sub, -, hs⟩ := hm
    exact ⟨⟨_, directWildcardPattern_mem hs, r, hr, hp, rfl⟩, hd⟩

def activeRules (p : DatalogProgram Expr) : List (Rule Expr) :=
  (p.rules.zipIdx.filter (fun e => decide (e.2 ∉ p.disabledRules))).map Prod.fst

theorem mem_activeRules :
    r ∈ p.activeRules ↔ ∃ id, p.Enabled id r := by
  unfold activeRules Enabled
  simp only [List.mem_map, List.mem_filter, Prod.exists, List.mem_zipIdx_iff_getElem?,
    decide_eq_true_eq, exists_and_right, exists_eq_right]

theorem mem_factRules :
    r ∈ p.factRules ↔ r ∈ p.activeRules ∧ r.body = [] := by
  rw [mem_activeRules]
  unfold factRules Enabled isFact
  simp only [List.mem_map, List.mem_filter, Prod.exists, List.mem_zipIdx_iff_getElem?,
    Bool.and_eq_true, decide_eq_true_eq, List.isEmpty_iff]
  constructor
  · rintro ⟨r', id, ⟨hr, hb, hd⟩, rfl⟩
    exact ⟨⟨id, hr, hd⟩, hb⟩
  · rintro ⟨⟨id, hr, hd⟩, hb⟩
    exact ⟨r, id, ⟨hr, hb, hd⟩, rfl⟩

theorem factOfRule_eq_ok {q : Quad} :
    factOfRule r = .ok q ↔ r.headQuad emptySubstitution = some q := by
  unfold factOfRule Rule.headQuad
  cases r.head with
  | contradiction => simp
  | normalHead h => cases hp : applySubstitutionQuad emptySubstitution h <;> simp [hp]

theorem factOfRule_error {f : Fault Expr} (h : factOfRule r = .error f) :
    r.headQuad emptySubstitution = none ∧ f ≠ .outOfFuel := by
  unfold factOfRule at h
  unfold Rule.headQuad
  cases hr : r.head with
  | contradiction =>
    rw [hr] at h
    cases h
    exact ⟨rfl, by simp⟩
  | normalHead p =>
    rw [hr] at h
    cases hp : applySubstitutionQuad emptySubstitution p with
    | some q => simp [hp] at h
    | none =>
      simp only [hp, Except.error.injEq] at h
      subst h
      exact ⟨hp, by simp⟩

theorem getFacts_ok {facts : List Quad} (h : p.getFacts = .ok facts) :
    (∀ q, q ∈ facts ↔ ∃ r ∈ p.activeRules, r.body = [] ∧
      r.headQuad emptySubstitution = some q) ∧
    ∀ r ∈ p.activeRules, r.body = [] → (r.headQuad emptySubstitution).isSome := by
  have hf := mapM_eq_ok_iff.mp h
  simp only [factOfRule_eq_ok] at hf
  constructor
  · intro q
    rw [mem_of_forall₂ hf]
    simp only [mem_factRules, and_assoc]
  · intro r hr hb
    obtain ⟨i, hi, rfl⟩ := List.mem_iff_getElem.mp (mem_factRules.mpr ⟨hr, hb⟩)
    have hlen : i < facts.length := hf.length_eq ▸ hi
    have hq := hf.get hi hlen
    simp only [List.get_eq_getElem] at hq
    rw [hq]
    rfl

theorem getFacts_error {f : Fault Expr} (h : p.getFacts = .error f) :
    (∃ r ∈ p.activeRules, r.body = [] ∧ r.headQuad emptySubstitution = none) ∧
      f ≠ .outOfFuel := by
  obtain ⟨r, hr, he⟩ := exists_of_mapM_error h
  obtain ⟨hactive, hb⟩ := mem_factRules.mp hr
  obtain ⟨hnone, hfuel⟩ := factOfRule_error he
  exact ⟨⟨r, hactive, hb, hnone⟩, hfuel⟩

end DatalogProgram

namespace Materialisation

variable (m : Materialisation) (q h : Quad) (d derivation : Derivation)

@[simp] theorem mem_derive : q ∈ (m.derive h d).base ↔ q ∈ m.base ∨ q = h :=
  m.base.mem_addIntensionalQuad h q

@[simp] theorem recorded_derive : (m.derive h derivation).derivedFrom.Recorded q d ↔
    m.derivedFrom.Recorded q d ∨ (q = h ∧ d = derivation) :=
  m.derivedFrom.recorded_record q h d derivation

theorem quadList_derive : (m.derive h d).base.quadList =
    if h ∈ m.base then m.base.quadList else m.base.quadList ++ [h] :=
  m.base.quadList_addIntensionalQuad h

@[simp] theorem extensional_derive :
    (m.derive h d).base.Extensional q ↔ m.base.Extensional q := by
  change q ∈ m.base.addIntensionalQuad h ∧ ¬ (m.base.addIntensionalQuad h).Derived q ↔ _
  rw [QuadStore.mem_addIntensionalQuad, QuadStore.derived_addIntensionalQuad]
  constructor
  · intro ⟨hmem, hno⟩
    rw [not_or] at hno
    rcases hmem with hq | rfl
    · exact ⟨hq, hno.1⟩
    · by_contra hext
      exact hno.2 ⟨rfl, hext⟩
  · intro hq
    refine ⟨.inl hq.1, ?_⟩
    rintro (hd | ⟨rfl, hext⟩)
    · exact hq.2 hd
    · exact hext hq

theorem track_derive : (m.derive h d).track =
    m.track ++ if m.derivedFrom.Recorded h d then [] else [(h, d)] := by
  have hnew := m.derivedFrom.record_isNew h d
  unfold derive
  simp only [hnew]
  split_ifs <;> simp_all

end Materialisation

/-- One derivation step of a run: an enabled ground instance whose witnesses are stored and whose
blockers are outside `N`. -/
inductive Fires (env : ReasonerEnv Expr) (p : DatalogProgram Expr) (N : Set Quad) :
    Materialisation → Materialisation → Prop
  | fire {m : Materialisation} {id : Nat} {r : Rule Expr} {sub : Substitution} {h : Quad}
      {ws : List Quad} (henabled : p.Enabled id r) (hg : r.Grounds env sub)
      (hne : r.positivePatterns ≠ []) (hhead : r.headQuad sub = some h)
      (hws : r.bodyWitnesses sub = some ws) (hpos : r.witnesses sub ⊆ m.base.quads)
      (hneg : ∀ b ∈ r.blockers sub, b ∉ N) : Fires env p N m (m.derive h ⟨id, ws⟩)

/-- A run of derivation steps. -/
abbrev Reaches (env : ReasonerEnv Expr) (p : DatalogProgram Expr) (N : Set Quad) :
    Materialisation → Materialisation → Prop :=
  Relation.ReflTransGen (Fires env p N)

namespace Reaches

variable {env : ReasonerEnv Expr} {p : DatalogProgram Expr} {N : Set Quad}
  {m m' : Materialisation}

variable (h : Reaches env p N m m')

include h

theorem quads_subset : m.base.quads ⊆ m'.base.quads := by
  induction h with
  | refl => exact Set.Subset.rfl
  | tail _ hstep ih =>
    cases hstep with
    | fire => exact fun q hq => (mem_derive ..).mpr (.inl (ih hq))

theorem recorded {q : Quad} {d : Derivation}
    (hd : m.derivedFrom.Recorded q d) : m'.derivedFrom.Recorded q d := by
  induction h with
  | refl => exact hd
  | tail _ hstep ih =>
    cases hstep with
    | fire => exact (recorded_derive ..).mpr (.inl ih)

theorem quadList_isPrefix : m.base.quadList <+: m'.base.quadList := by
  induction h with
  | refl => exact List.prefix_rfl
  | tail _ hstep ih =>
    cases hstep with
    | fire =>
      rw [quadList_derive]
      split_ifs
      · exact ih
      · exact ih.trans (List.prefix_append _ _)

theorem extensional (q : Quad) :
    m'.base.Extensional q ↔ m.base.Extensional q := by
  induction h with
  | refl => rfl
  | tail _ hstep ih =>
    cases hstep with
    | fire => rw [extensional_derive, ih]

theorem track_mem : ∀ e ∈ m'.track, e ∈ m.track ∨ e.1 ∈ m'.base := by
  induction h with
  | refl => exact fun e he => .inl he
  | tail _ hstep ih =>
    cases hstep with
    | fire =>
      intro e he
      rw [track_derive, List.mem_append] at he
      rcases he with he | he
      · exact (ih e he).imp id fun hb => (mem_derive ..).mpr (.inl hb)
      · split_ifs at he
        · cases he
        · obtain rfl := List.mem_singleton.mp he
          exact .inr ((mem_derive ..).mpr (.inr rfl))

theorem sound {E : Set Quad}
    (hE : m.base.quads ⊆ closure (clausesOf env p.activeRules) N E) :
    m'.base.quads ⊆ closure (clausesOf env p.activeRules) N E := by
  induction h with
  | refl => exact hE
  | tail _ hstep ih =>
    cases hstep with
    | @fire id r sub h ws henabled hg hne hhead hws hpos hneg =>
      intro q hq
      rcases (mem_derive ..).mp hq with hq | rfl
      · exact ih hq
      · have hc : r.clause sub q ∈ clausesOf env p.activeRules :=
          ⟨r, mem_activeRules.mpr ⟨id, henabled⟩, sub, q, hg, hhead, rfl⟩
        exact head_mem_closure hc (hpos.trans ih) hneg

omit h

end Reaches

/-- The derivation of an instance is on record and its head is stored. -/
def Done (m : Materialisation) (id : Nat) (r : Rule Expr) (sub : Substitution) : Prop :=
  ∃ h ws, r.headQuad sub = some h ∧ r.bodyWitnesses sub = some ws ∧ h ∈ m.base ∧
    m.derivedFrom.Recorded h ⟨id, ws⟩

theorem Done.mono {env : ReasonerEnv Expr} {p : DatalogProgram Expr} {N : Set Quad}
    {m m' : Materialisation} {id : Nat} {r : Rule Expr} (hd : Done m id r sub)
    (h : Reaches env p N m m') : Done m' id r sub := by
  obtain ⟨q, ws, hq, hws, hmem, hrec⟩ := hd
  exact ⟨q, ws, hq, hws, h.quads_subset hmem, h.recorded hrec⟩

/-- An enabled instance without a head quad holds: a contradiction, or an unbound variable. -/
def Stuck (env : ReasonerEnv Expr) (p : DatalogProgram Expr) (N : Set Quad) (S : Set Quad) :
    Prop :=
  ∃ r ∈ p.activeRules, ∃ sub, r.Grounds env sub ∧ r.headQuad sub = none ∧
    r.witnesses sub ⊆ S ∧ ∀ b ∈ r.blockers sub, b ∉ N

section Steps

variable {env : ReasonerEnv Expr} (hf : env.FixedFilters) {p : DatalogProgram Expr}
  {N : Set Quad} {m m' : Materialisation} {f : Fault Expr}

variable {ruleMatch : PartialRuleMatch Expr} {head : QuadPattern} {fact : Quad}

theorem applyRuleMatch_of_contradiction (h : ruleMatch.partialRule.rule.head = .contradiction) :
    applyRuleMatch env m ruleMatch = if (evaluate env m.base ruleMatch).isEmpty then .ok m
      else .error (.reasoning (.contradiction ruleMatch.partialRule.rule), m) := by
  simp only [applyRuleMatch, h]

theorem applyRuleMatch_of_normalHead (h : ruleMatch.partialRule.rule.head = .normalHead head) :
    applyRuleMatch env m ruleMatch =
      (evaluate env m.base ruleMatch).foldlM (fireMatch ruleMatch.partialRule head) m := by
  simp only [applyRuleMatch, h]

theorem fireMatch_ok {pr : PartialRule Expr} {sub : Substitution}
    (hhead : pr.rule.head = .normalHead head) (h : fireMatch pr head m sub = .ok m') :
    ∃ q ws, pr.rule.headQuad sub = some q ∧ pr.rule.bodyWitnesses sub = some ws ∧
      m' = m.derive q ⟨pr.ruleId, ws⟩ := by
  unfold fireMatch at h
  unfold Rule.headQuad
  rw [hhead]
  cases hq : applySubstitutionQuad sub head with
  | none => simp [hq] at h
  | some q =>
    cases hws : pr.rule.bodyWitnesses sub with
    | none => simp [hq, hws] at h
    | some ws =>
      simp only [hq, hws, Except.ok.injEq] at h
      exact ⟨q, ws, hq, rfl, h.symm⟩

theorem fireMatch_error {pr : PartialRule Expr} {sub : Substitution}
    (hhead : pr.rule.head = .normalHead head) (hg : pr.rule.Grounds env sub)
    (h : fireMatch pr head m sub = .error (f, m')) :
    pr.rule.headQuad sub = none ∧ m' = m ∧ f ≠ .outOfFuel := by
  obtain ⟨ws, hws⟩ := hg.bodyWitnesses
  unfold fireMatch at h
  unfold Rule.headQuad
  rw [hhead]
  cases hq : applySubstitutionQuad sub head with
  | some q => simp [hq, hws] at h
  | none =>
    simp only [hq, Except.error.injEq, Prod.mk.injEq] at h
    exact ⟨hq, h.2.symm, by simp [← h.1]⟩

include hf

variable (hN : N ⊆ m.base.quads)

include hN

/-- What evaluating one triggered rule does: it fires instances that hold, and every instance
that holds at that moment ends up done. -/
theorem applyRuleMatch_ok (hm : ruleMatch ∈ p.getRulesForFact fact)
    (h : applyRuleMatch env m ruleMatch = .ok m') :
    Reaches env p N m m' ∧ ∀ sub, ruleMatch.partialRule.rule.Grounds env sub →
      applySubstitutionQuad sub ruleMatch.partialRule.matchPattern = some fact →
      ruleMatch.partialRule.rule.ActiveIn sub m.base.quads →
      Done m' ruleMatch.partialRule.ruleId ruleMatch.partialRule.rule sub := by
  obtain ⟨henabled, hpat, hmatch⟩ := mem_getRulesForFact.mp hm
  have heval := mem_evaluate_match hf m.base hpat hmatch
  cases hhead : ruleMatch.partialRule.rule.head with
  | contradiction =>
    rw [applyRuleMatch_of_contradiction hhead] at h
    split_ifs at h with hempty
    · cases h
      refine ⟨.refl, ?_⟩
      intro sub hg hfact hact
      have hsub := (heval sub).mpr ⟨hg, hfact, hact⟩
      rw [List.isEmpty_iff.mp hempty] at hsub
      cases hsub
  | normalHead head =>
    rw [applyRuleMatch_of_normalHead hhead] at h
    have hrun := foldlM_ok (R := Reaches env p N)
      (Q := fun sub s => Done s ruleMatch.partialRule.ruleId ruleMatch.partialRule.rule sub)
      (fun _ => .refl) (fun h h' => h.trans h') (fun hd hr => hd.mono hr) ?_ h
    · refine ⟨hrun.1, ?_⟩
      intro sub hg hfact hact
      exact hrun.2 sub ((heval sub).mpr ⟨hg, hfact, hact⟩)
    · intro s t sub hsub hs hst
      obtain ⟨hg, -, hact⟩ := (heval sub).mp hsub
      obtain ⟨q, ws, hq, hws, rfl⟩ := fireMatch_ok hhead hst
      have hstep : Fires env p N s (s.derive q ⟨ruleMatch.partialRule.ruleId, ws⟩) :=
        .fire henabled hg (List.ne_nil_of_mem hpat) hq hws (hact.1.trans hs.quads_subset)
          fun b hb hbN => hact.2 b hb (hN hbN)
      refine ⟨.single hstep, q, ws, hq, hws, ?_, ?_⟩
      · exact (mem_derive ..).mpr (.inr rfl)
      · exact (recorded_derive ..).mpr (.inr ⟨rfl, rfl⟩)

theorem applyRuleMatch_error (hm : ruleMatch ∈ p.getRulesForFact fact)
    (h : applyRuleMatch env m ruleMatch = .error (f, m')) :
    Reaches env p N m m' ∧ Stuck env p N m'.base.quads ∧ f ≠ .outOfFuel := by
  obtain ⟨henabled, hpat, hmatch⟩ := mem_getRulesForFact.mp hm
  have hactive := mem_activeRules.mpr ⟨_, henabled⟩
  have heval := mem_evaluate_match hf m.base hpat hmatch
  cases hhead : ruleMatch.partialRule.rule.head with
  | contradiction =>
    rw [applyRuleMatch_of_contradiction hhead] at h
    split_ifs at h with hempty
    cases h
    obtain ⟨sub, hsub⟩ := List.exists_mem_of_ne_nil _ (fun he => hempty (List.isEmpty_iff.mpr he))
    obtain ⟨hg, -, hact⟩ := (heval sub).mp hsub
    have hnone : ruleMatch.partialRule.rule.headQuad sub = none := by simp [Rule.headQuad, hhead]
    exact ⟨.refl, ⟨_, hactive, sub, hg, hnone, hact.1, fun b hb hbN => hact.2 b hb (hN hbN)⟩,
      by simp⟩
  | normalHead head =>
    rw [applyRuleMatch_of_normalHead hhead] at h
    have hstep : ∀ s t, ∀ sub ∈ evaluate env m.base ruleMatch, Reaches env p N m s →
        fireMatch ruleMatch.partialRule head s sub = .ok t → Reaches env p N s t := by
      intro s t sub hsub hs hst
      obtain ⟨hg, -, hact⟩ := (heval sub).mp hsub
      obtain ⟨q, ws, hq, hws, rfl⟩ := fireMatch_ok hhead hst
      exact .single (.fire henabled hg (List.ne_nil_of_mem hpat) hq hws
        (hact.1.trans hs.quads_subset) fun b hb hbN => hact.2 b hb (hN hbN))
    obtain ⟨s, hs, sub, hsub, hfail⟩ := foldlM_error (R := Reaches env p N) (fun _ => .refl)
      (fun h h' => h.trans h') hstep h
    obtain ⟨hg, -, hact⟩ := (heval sub).mp hsub
    obtain ⟨hnone, rfl, hfuel⟩ := fireMatch_error hhead hg hfail
    exact ⟨hs, ⟨_, hactive, sub, hg, hnone, hact.1.trans hs.quads_subset,
      fun b hb hbN => hact.2 b hb (hN hbN)⟩, hfuel⟩

theorem applyFact_ok
    (h : (p.getRulesForFact fact).foldlM (applyRuleMatch env) m = .ok m') :
    Reaches env p N m m' ∧ ∀ id r sub, p.Enabled id r → r.Grounds env sub →
      fact ∈ r.witnesses sub → r.witnesses sub ⊆ m.base.quads →
      (∀ b ∈ r.blockers sub, b ∉ m'.base) → Done m' id r sub := by
  have hrun := foldlM_ok (R := Reaches env p N)
    (Q := fun rm s => ∀ sub, rm.partialRule.rule.Grounds env sub →
      applySubstitutionQuad sub rm.partialRule.matchPattern = some fact →
      rm.partialRule.rule.witnesses sub ⊆ m.base.quads →
      (∀ b ∈ rm.partialRule.rule.blockers sub, b ∉ s.base) →
      Done s rm.partialRule.ruleId rm.partialRule.rule sub)
    (fun _ => .refl) (fun h h' => h.trans h') ?_ ?_ h
  · refine ⟨hrun.1, ?_⟩
    intro id r sub henabled hg hfact hpos hneg
    obtain ⟨pat, hpat, hp⟩ := hfact
    obtain ⟨s, hs, -⟩ := exists_getSubstitutions (.empty sub) hp
    let pr : PartialRule Expr := ⟨r, pat, id⟩
    have hmatch : (⟨pr, s⟩ : PartialRuleMatch Expr) ∈ getMatchesForRule fact pr :=
      mem_getMatchesForRule.mpr ⟨rfl, hs⟩
    have hmem : (⟨pr, s⟩ : PartialRuleMatch Expr) ∈ p.getRulesForFact fact :=
      mem_getRulesForFact.mpr ⟨henabled, hpat, hmatch⟩
    exact hrun.2 _ hmem sub hg hp hpos hneg
  · intro rm s t hQ hst sub hg hp hpos hneg
    exact (hQ sub hg hp hpos fun b hb hbs => hneg b hb (hst.quads_subset hbs)).mono hst
  · intro s t rm hrm hs hst
    obtain ⟨hR, hD⟩ := applyRuleMatch_ok hf (hN.trans hs.quads_subset) hrm hst
    refine ⟨hR, ?_⟩
    intro sub hg hp hpos hneg
    exact hD sub hg hp ⟨hpos.trans hs.quads_subset,
      fun b hb hbs => hneg b hb (hR.quads_subset hbs)⟩

theorem applyFact_error
    (h : (p.getRulesForFact fact).foldlM (applyRuleMatch env) m = .error (f, m')) :
    Reaches env p N m m' ∧ Stuck env p N m'.base.quads ∧ f ≠ .outOfFuel := by
  have hstep : ∀ s t, ∀ rm ∈ p.getRulesForFact fact, Reaches env p N m s →
      applyRuleMatch env s rm = .ok t → Reaches env p N s t :=
    fun s t rm hrm hs hst => (applyRuleMatch_ok hf (hN.trans hs.quads_subset) hrm hst).1
  obtain ⟨s, hs, rm, hrm, hfail⟩ := foldlM_error (R := Reaches env p N) (fun _ => .refl)
    (fun h h' => h.trans h') hstep h
  obtain ⟨hR, hstuck⟩ := applyRuleMatch_error hf (hN.trans hs.quads_subset) hrm hfail
  exact ⟨hs.trans hR, hstuck⟩

theorem materialiseDeltaIteration_ok {delta : List Quad}
    (h : p.materialiseDeltaIteration env delta m = .ok m') :
    Reaches env p N m m' ∧ ∀ id r sub, p.Enabled id r → r.Grounds env sub →
      (∃ w ∈ r.witnesses sub, w ∈ delta) → r.witnesses sub ⊆ m.base.quads →
      (∀ b ∈ r.blockers sub, b ∉ m'.base) → Done m' id r sub := by
  have hrun := foldlM_ok (R := Reaches env p N)
    (Q := fun fact s => ∀ id r sub, p.Enabled id r → r.Grounds env sub →
      fact ∈ r.witnesses sub → r.witnesses sub ⊆ m.base.quads →
      (∀ b ∈ r.blockers sub, b ∉ s.base) → Done s id r sub)
    (fun _ => .refl) (fun h h' => h.trans h') ?_ ?_ h
  · refine ⟨hrun.1, ?_⟩
    intro id r sub henabled hg ⟨w, hw, hdelta⟩ hpos hneg
    exact hrun.2 w hdelta id r sub henabled hg hw hpos hneg
  · intro fact s t hQ hst id r sub henabled hg hw hpos hneg
    exact (hQ id r sub henabled hg hw hpos fun b hb hbs =>
      hneg b hb (hst.quads_subset hbs)).mono hst
  · intro s t fact _ hs hst
    obtain ⟨hR, hD⟩ := applyFact_ok hf (hN.trans hs.quads_subset) hst
    refine ⟨hR, ?_⟩
    intro id r sub henabled hg hw hpos hneg
    exact hD id r sub henabled hg hw (hpos.trans hs.quads_subset) hneg

theorem materialiseDeltaIteration_error {delta : List Quad}
    (h : p.materialiseDeltaIteration env delta m = .error (f, m')) :
    Reaches env p N m m' ∧ Stuck env p N m'.base.quads ∧ f ≠ .outOfFuel := by
  have hstep : ∀ s t, ∀ fact ∈ delta, Reaches env p N m s →
      (p.getRulesForFact fact).foldlM (applyRuleMatch env) s = .ok t → Reaches env p N s t :=
    fun s t fact _ hs hst => (applyFact_ok hf (hN.trans hs.quads_subset) hst).1
  obtain ⟨s, hs, fact, -, hfail⟩ := foldlM_error (R := Reaches env p N) (fun _ => .refl)
    (fun h h' => h.trans h') hstep h
  obtain ⟨hR, hstuck⟩ := applyFact_error hf (hN.trans hs.quads_subset) hfail
  exact ⟨hs.trans hR, hstuck⟩

omit hN

end Steps

end RdfDatalog.Datalog
