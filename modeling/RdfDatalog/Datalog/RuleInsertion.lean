import RdfDatalog.Datalog.RuleDeletion

namespace RdfDatalog.Datalog

open GroundProgram FallibleFold DatalogProgram

variable {Expr : Type}

variable {r : Rule Expr}

theorem mem_activeStrata_flatten {programs : List (DatalogProgram Expr)} :
    r ∈ (activeStrata programs).flatten ↔ ∃ p ∈ programs, r ∈ p.activeRules := by
  simp [activeStrata]

variable {p : DatalogProgram Expr}

theorem DatalogProgram.mem_rules_of_active (h : r ∈ p.activeRules) :
    r ∈ p.rules := by
  obtain ⟨id, hid, -⟩ := mem_activeRules.mp h
  exact List.mem_of_getElem? hid

theorem DatalogProgram.mem_activeRules_enableRule {id : Nat} {r' : Rule Expr}
    (hr : p.rules[id]? = some r) :
    r' ∈ (p.enableRule id).activeRules ↔ r' ∈ p.activeRules ∨ r' = r := by
  rw [mem_activeRules, mem_activeRules]
  simp only [Enabled, enableRule, Finset.mem_erase, not_and, ne_eq]
  constructor
  · rintro ⟨id', hid', hno⟩
    by_cases h : id' = id
    · subst h
      rw [hr] at hid'
      exact .inr (Option.some.inj hid').symm
    · exact .inl ⟨id', hid', hno h⟩
  · rintro (⟨id', hid', hno⟩ | rfl)
    · exact ⟨id', hid', fun _ => hno⟩
    · exact ⟨id, hr, fun h => absurd rfl h⟩

/-- No rule of `rules` but `r` itself reads the head of `r`. -/
def Downstream (rules : List (Rule Expr)) (r : Rule Expr) : Prop :=
  ∀ r' ∈ rules, r' ≠ r → ¬ FeedsPositive r r' ∧ ¬ FeedsNegative r r'

theorem clausesOf_append (env : ReasonerEnv Expr) (rules rules' : List (Rule Expr)) :
    clausesOf env (rules ++ rules') = clausesOf env rules ∪ clausesOf env rules' := by
  ext c
  simp only [clausesOf, List.mem_append, or_and_right, exists_or]
  rfl

theorem clausesOf_congr {env : ReasonerEnv Expr} {rules rules' : List (Rule Expr)}
    (h : ∀ r, r ∈ rules ↔ r ∈ rules') : clausesOf env rules = clausesOf env rules' := by
  ext c
  simp only [clausesOf, h]

/-- The body of a rule that reads no new quad holds in the larger set iff it does in the smaller. -/
theorem activeIn_of_unread {sub : Substitution} {S T : Set Quad} (hST : S ⊆ T)
    (h : ∀ q ∈ T, q ∉ S → q ∉ r.witnesses sub ∧ q ∉ r.blockers sub) (hact : r.ActiveIn sub T) :
    r.ActiveIn sub S := by
  refine ⟨?_, fun b hb hS => hact.2 b hb (hST hS)⟩
  intro q hq
  by_contra hS
  exact (h q (hact.1 hq) hS).1 hq

namespace IncrementalReasoner

/-- The invariant of a reasoner under changes of its rules: the store is the stable model of the
rules in force over the facts `E`, which are asserted in it. -/
structure RuleInvariant (env : ReasonerEnv Expr) (E : Set Quad)
    (programs : List (DatalogProgram Expr)) (base : QuadStore) : Prop where
  stable : IsStable (clausesOf env (activeStrata programs).flatten) E base.quads
  consistent : Consistent env (activeStrata programs).flatten base.quads
  asserted : ∀ q ∈ E, base.Extensional q
  negation : ∀ rules ∈ ruleTable programs, ∀ r ∈ rules, ∀ producer ∈ rules,
    ¬ FeedsNegative producer r
  safe : ∀ r ∈ (ruleTable programs).flatten, isSafeRule r = .ok ()

theorem RuleInvariant.closed {env : ReasonerEnv Expr} {E : Set Quad}
    {programs : List (DatalogProgram Expr)} {base : QuadStore}
    (h : RuleInvariant env E programs base) {p : DatalogProgram Expr} (hp : p ∈ programs) :
    ∀ c ∈ clausesOf env p.activeRules, c.Active base.quads → c.head ∈ base.quads := by
  intro c ⟨r, hr, hc⟩ hact
  exact h.stable.head_mem ⟨r, mem_activeStrata_flatten.mpr ⟨p, hp, hr⟩, hc⟩ hact

section Spec

variable {env : ReasonerEnv Expr} (hf : env.FixedFilters) {E : Set Quad}
include hf

variable {p : DatalogProgram Expr} {base : QuadStore} {programs : List (DatalogProgram Expr)}
  {st : RuleInsertion Expr}

theorem materialiseFromFacts_closed {delta : List Quad} {m : Materialisation}
    (hdelta : ∀ q ∈ delta, q ∈ base)
    (hclosed : ∀ c ∈ clausesOf env p.activeRules, c.Active base.quads → c.head ∈ base.quads)
    (h : p.materialiseSeminaiveTrackedFromFacts env base delta = .ok m) :
    m.base.quads = base.quads ∧ (∀ q, base.Extensional q → m.base.Extensional q) ∧
      ∀ e ∈ m.track, e.1 ∈ m.base := by
  obtain ⟨facts, hfacts, hR, -⟩ := materialiseSeminaiveTrackedFromFacts_ok hf h
  have hself := closure_eq_of_closed hclosed
  have hfact : ∀ q ∈ facts, q ∈ base := by
    intro q hq
    obtain ⟨r, hr, hb, hh⟩ := ((getFacts_ok hfacts).1 q).mp hq
    exact hclosed (r.clause emptySubstitution q) ⟨r, hr, _, q, r.grounds_fact env hb, hh, rfl⟩
      (r.activeIn_fact hb _ _)
  have hstart : (p.fedWith base facts delta).base.quads = base.quads := by
    ext q
    rw [QuadStore.mem_quads, mem_fedWith]
    exact ⟨fun hq => hq.elim id fun hq => hq.elim (hfact q) (hdelta q), .inl⟩
  rw [hstart] at hR
  have hsound := hR.sound (E := base.quads) (by rw [hself, hstart])
  rw [hself] at hsound
  refine ⟨hsound.antisymm (hstart ▸ hR.quads_subset), ?_, ?_⟩
  · intro q hq
    rw [hR.extensional q, QuadStore.Extensional, ← QuadStore.mem_quads, hstart]
    refine ⟨hq.1, ?_⟩
    rw [DatalogProgram.fedWith, QuadStore.derived_foldl_addQuad, QuadStore.derived_foldl_addQuad]
    exact hq.2
  · intro e he
    rcases hR.track_mem e he with he | he
    · cases he
    · exact he

theorem feedForward_ok {delta : List Quad} {later : List (DatalogProgram Expr)} {s : Sweep Expr}
    (hdelta : ∀ q ∈ delta, q ∈ base) (hclosed : ∀ p ∈ later, ∀ c ∈ clausesOf env p.activeRules,
      c.Active base.quads → c.head ∈ base.quads) (h : feedForward env delta later base = .ok s) :
    s.base.quads = base.quads ∧ ∀ q, base.Extensional q → s.base.Extensional q := by
  unfold feedForward at h
  induction later generalizing delta base s with
  | nil =>
    cases h
    exact ⟨rfl, fun _ hq => hq⟩
  | cons p later ih =>
    obtain ⟨m, s', hm, hs', rfl⟩ := sweep_cons_ok h
    have hstep : m.base.quads = base.quads ∧ (∀ q, base.Extensional q → m.base.Extensional q) ∧
        ∀ e ∈ m.track, e.1 ∈ m.base := by
      split_ifs at hm with hempty
      · cases hm
        exact ⟨rfl, fun _ hq => hq, nofun⟩
      · exact materialiseFromFacts_closed hf hdelta (hclosed p (.head later)) hm
    obtain ⟨hquads, hext, htrack⟩ := hstep
    have hdelta' : ∀ q ∈ delta ++ m.track.map Prod.fst, q ∈ m.base := by
      intro q hq
      rcases List.mem_append.mp hq with hq | hq
      · rw [← QuadStore.mem_quads, hquads]
        exact hdelta q hq
      · obtain ⟨e, he, rfl⟩ := List.mem_map.mp hq
        exact htrack e he
    have hclosed' : ∀ p ∈ later, ∀ c ∈ clausesOf env p.activeRules, c.Active m.base.quads →
        c.head ∈ m.base.quads := by
      intro p' hp'
      rw [hquads]
      exact hclosed p' (.tail p hp')
    obtain ⟨hquads', hext'⟩ := ih hdelta' hclosed' hs'
    exact ⟨hquads'.trans hquads, fun q hq => hext' q (hext q hq)⟩

variable (hinv : RuleInvariant env E programs base)

include hinv in
/-- Enabling a rule whose head no rule in force reads, and materialising its stratum: the result
is the stable model of the rules in force with that rule. -/
theorem enableRule_ok (hp : p ∈ programs) {id : Nat}
    {r : Rule Expr} (hr : p.rules[id]? = some r)
    (hdown : r ∉ (activeStrata programs).flatten → Downstream (activeStrata programs).flatten r)
    {m : Materialisation} (h : (p.enableRule id).materialiseSeminaiveTracked env base = .ok m) :
    IsStable (clausesOf env ((activeStrata programs).flatten ++ [r])) E m.base.quads ∧
      Consistent env ((activeStrata programs).flatten ++ [r]) m.base.quads ∧
      (∀ q, base.Extensional q → m.base.Extensional q) ∧ ∀ e ∈ m.track, e.1 ∈ m.base := by
  have hmem : ∀ r', r' ∈ (p.enableRule id).activeRules ↔ r' ∈ p.activeRules ∨ r' = r :=
    fun _ => mem_activeRules_enableRule hr
  have hrules : ∀ r' ∈ (p.enableRule id).activeRules, r' ∈ p.rules :=
    fun r' hr' => mem_rules_of_active (p := p.enableRule id) hr'
  have htable : p.rules ∈ ruleTable programs := List.mem_map_of_mem hp
  have hfree : NegationFree (clausesOf env (p.enableRule id).activeRules) :=
    negationFree_clausesOf (fun r₁ h₁ r₂ h₂ => hinv.negation p.rules htable r₁
      (hrules r₁ h₁) r₂ (hrules r₂ h₂)) env
  obtain ⟨hquads, hcons⟩ :=
    materialiseSeminaiveTracked_closure (p := p.enableRule id) hf hfree h
  have hclauses : clausesOf env (p.enableRule id).activeRules =
      clausesOf env p.activeRules ∪ clausesOf env [r] := by
    rw [← clausesOf_append]
    refine clausesOf_congr fun r' => ?_
    rw [hmem, List.mem_append, List.mem_singleton]
  have hext : ∀ q, base.Extensional q → m.base.Extensional q := fun q hq =>
    (materialiseSeminaiveTracked_extensional hf h q).mpr (.inl hq)
  have htrack : ∀ e ∈ m.track, e.1 ∈ m.base := by
    obtain ⟨facts, -, hR, -⟩ := materialiseSeminaiveTracked_ok hf h
    intro e he
    exact (hR.track_mem e he).resolve_left nofun
  by_cases hold : r ∈ (activeStrata programs).flatten
  · -- the rule is in force already, so nothing is new
    have hsame : ∀ r', r' ∈ (activeStrata programs).flatten ++ [r] ↔
        r' ∈ (activeStrata programs).flatten := by
      intro r'
      rw [List.mem_append, List.mem_singleton]
      exact ⟨fun hr' => hr'.elim (fun hin => hin) fun he => he ▸ hold, .inl⟩
    have hclosed : ∀ c ∈ clausesOf env (p.enableRule id).activeRules, c.Active base.quads →
        c.head ∈ base.quads := by
      intro c ⟨r', hr', hc⟩ hact
      refine hinv.stable.head_mem ⟨r', ?_, hc⟩ hact
      rcases (hmem r').mp hr' with hr' | rfl
      · exact mem_activeStrata_flatten.mpr ⟨p, hp, hr'⟩
      · exact hold
    rw [closure_eq_of_closed hclosed] at hquads
    rw [hquads, clausesOf_congr hsame]
    exact ⟨hinv.stable, fun r' hr' => hinv.consistent r' ((hsame r').mp hr'), hext, htrack⟩
  · have hunread : ∀ r' ∈ (activeStrata programs).flatten,
        ¬ FeedsPositive r r' ∧ ¬ FeedsNegative r r' := by
      intro r' hr'
      refine hdown hold r' hr' ?_
      rintro rfl
      exact hold hr'
    have hprec : ∀ rules, (∀ r' ∈ rules, r' ∈ (activeStrata programs).flatten) →
        Precedes (clausesOf env rules) (clausesOf env [r]) := by
      intro rules hsub
      refine RunsBefore.precedes ?_ env
      intro r' hr' producer hprod
      rw [List.mem_singleton.mp hprod]
      exact hunread r' (hsub r' hr')
    have hself : NegationFree (clausesOf env [r]) := by
      refine negationFree_clausesOf ?_ env
      intro r₁ h₁ r₂ h₂
      have hin := List.mem_of_getElem? hr
      rw [List.mem_singleton.mp h₁, List.mem_singleton.mp h₂]
      exact hinv.negation p.rules htable r hin r hin
    have hactive : ∀ r' ∈ p.activeRules, r' ∈ (activeStrata programs).flatten :=
      fun r' hr' => mem_activeStrata_flatten.mpr ⟨p, hp, hr'⟩
    rw [hclauses, closure_union_of_closed (hinv.closed hp) (hprec _ hactive)] at hquads
    refine ⟨?_, ?_, hext, htrack⟩
    · rw [clausesOf_append, hquads]
      exact hinv.stable.extend (hself.closure_isStable base.quads) (hprec _ fun _ h => h)
    · intro r' hr' sub hg hact
      rcases List.mem_append.mp hr' with hr' | hr'
      · refine hinv.consistent r' hr' sub hg (activeIn_of_unread ?_ ?_ hact)
        · rw [hquads]
          exact subset_closure _ _ _
        · intro q hq hno
          rw [hquads] at hq
          rcases mem_closure_cases hq with hq | ⟨_, ⟨r₁, h₁, sub', q', -, hh, rfl⟩, rfl⟩
          · exact absurd hq hno
          · rw [List.mem_singleton.mp h₁] at hh
            exact ⟨fun hw => (hunread r' hr').1 (feedsPositive_of_head hh hw),
              fun hb => (hunread r' hr').2 (feedsNegative_of_head hh hb)⟩
      · exact hcons r' ((hmem r').mpr (.inr (List.mem_singleton.mp hr'))) sub hg hact

omit hf in
theorem modify_enableRule {i : Nat} (id : Nat) (hp : programs[i]? = some p) :
    ∃ pre post, pre.length = i ∧ programs = pre ++ p :: post ∧
      programs.modify i (fun p => p.enableRule id) = pre ++ p.enableRule id :: post := by
  obtain ⟨hi, rfl⟩ := List.getElem?_eq_some_iff.mp hp
  refine ⟨programs.take i, programs.drop (i + 1), List.length_take_of_le hi.le, ?_, ?_⟩
  · rw [List.getElem_cons_drop, List.take_append_drop]
  · rw [List.modify_eq_take_drop, List.drop_eq_getElem_cons hi]
    rfl

variable {st' : RuleInsertion Expr} {all : List (Rule Expr)} {targets : List (Nat × Nat)}
  {strata : List (List (Rule Expr))}

theorem reactivateRule_ok (hinv : RuleInvariant env E st.programs st.base) {i id : Nat}
    (hp : st.programs[i]? = some p) {r : Rule Expr} (hr : p.rules[id]? = some r)
    (hdown : r ∉ (activeStrata st.programs).flatten → Downstream (activeStrata st.programs).flatten
      r) (h : reactivateRule env st (i, id) = .ok st') :
    RuleInvariant env E st'.programs st'.base ∧
      ruleTable st'.programs = ruleTable st.programs ∧
      ∀ r', r' ∈ (activeStrata st'.programs).flatten ↔
        r' ∈ (activeStrata st.programs).flatten ∨ r' = r := by
  obtain ⟨pre, post, hlen, hst, hmodify⟩ := modify_enableRule id hp
  rw [reactivateRule] at h
  dsimp only at h
  rw [hmodify, ← hlen, List.drop_left] at h
  dsimp only at h
  cases hm : (p.enableRule id).materialiseSeminaiveTracked env st.base with
  | error e => rw [hm] at h; cases h
  | ok m =>
    rw [hm] at h
    dsimp only at h
    split at h
    · cases h
    · next s hs =>
      cases h
      have hmem := List.mem_of_getElem? hp
      obtain ⟨hstable, hcons, hext, htrack⟩ := enableRule_ok hf hinv hmem hr hdown hm
      have hdelta : ∀ q ∈ m.track.map Prod.fst, q ∈ m.base := by
        intro q hq
        obtain ⟨e, he, rfl⟩ := List.mem_map.mp hq
        exact htrack e he
      have hclosed : ∀ p' ∈ post, ∀ c ∈ clausesOf env p'.activeRules, c.Active m.base.quads →
          c.head ∈ m.base.quads := by
        intro p' hp' c ⟨r', hr', hc⟩ hact
        have hin : p' ∈ st.programs := by
          rw [hst]
          exact List.mem_append_right _ (.tail p hp')
        exact hstable.head_mem ⟨r', List.mem_append_left _
          (mem_activeStrata_flatten.mpr ⟨p', hin, hr'⟩), hc⟩ hact
      obtain ⟨hquads, hext'⟩ := feedForward_ok hf hdelta hclosed hs
      have hprograms : List.Forall₂ (fun p p' => ∃ x, p' = p.withDerivedFrom x)
          (pre ++ p.enableRule id :: post)
          (pre ++ (p.enableRule id).withDerivedFrom m.derivedFrom :: s.programs) :=
        List.rel_append (List.forall₂_same.mpr fun p _ => ⟨p.derivedFrom, rfl⟩)
          (.cons ⟨_, rfl⟩ (sweep_programs hs))
      have hstrata := activeStrata_of_forall₂ hprograms
      have htable := ruleTable_of_forall₂ hprograms
      have htable' : ruleTable (pre ++ p.enableRule id :: post) = ruleTable st.programs := by
        rw [hst]
        simp [ruleTable, DatalogProgram.enableRule]
      have hactive : ∀ r', r' ∈ (activeStrata (pre ++ p.enableRule id :: post)).flatten ↔
          r' ∈ (activeStrata st.programs).flatten ++ [r] := by
        intro r'
        have hp' : r' ∈ (p.enableRule id).activeRules ↔ r' ∈ p.activeRules ∨ r' = r :=
          mem_activeRules_enableRule hr
        rw [hst]
        simp only [activeStrata, List.map_append, List.map_cons, List.flatten_append,
          List.flatten_cons, List.mem_append, List.mem_singleton, hp']
        tauto
      simp only [RuleInsertion.resume, Sweep.cons, List.take_left]
      refine ⟨⟨?_, ?_, ?_, ?_, ?_⟩, htable.trans htable', ?_⟩
      · rw [hstrata, clausesOf_congr hactive, hquads]
        exact hstable
      · intro r' hr'
        rw [hstrata, hactive] at hr'
        rw [hquads]
        exact hcons r' hr'
      · exact fun q hq => hext' q (hext q (hinv.asserted q hq))
      · rw [htable, htable']
        exact hinv.negation
      · rw [htable, htable']
        exact hinv.safe
      · intro r'
        rw [hstrata, hactive, List.mem_append, List.mem_singleton]

omit hf in
theorem getElem?_of_ruleTable {programs : List (DatalogProgram Expr)} {i : Nat}
    {rules : List (Rule Expr)} (h : (ruleTable programs)[i]? = some rules) :
    ∃ p, programs[i]? = some p ∧ p.rules = rules := by
  rw [ruleTable, List.getElem?_map, Option.map_eq_some_iff] at h
  exact h

/-- The rule `r` stands at position `t` of a table of rules. -/
def RuleAt (table : List (List (Rule Expr))) (t : Nat × Nat) (r : Rule Expr) : Prop :=
  ∃ rules, table[t.1]? = some rules ∧ rules[t.2]? = some r

theorem foldlM_reactivateRule_ok (hinv : RuleInvariant env E st.programs st.base)
    (hall : ∀ r ∈ (activeStrata st.programs).flatten, r ∈ all)
    (htargets : ∀ t ∈ targets, ∃ r, RuleAt (ruleTable st.programs) t r)
    (hdown : ∀ t ∈ targets, ∀ r, RuleAt (ruleTable st.programs) t r → r ∈ all ∧ (r ∉ (activeStrata
      st.programs).flatten → Downstream all r))
    (h : targets.foldlM (reactivateRule env) st = .ok st') :
    RuleInvariant env E st'.programs st'.base ∧
      ruleTable st'.programs = ruleTable st.programs ∧
      ∀ r, r ∈ (activeStrata st'.programs).flatten ↔
        r ∈ (activeStrata st.programs).flatten ∨
          ∃ t ∈ targets, RuleAt (ruleTable st.programs) t r := by
  induction targets generalizing st with
  | nil =>
    cases h
    exact ⟨hinv, rfl, fun r => by simp⟩
  | cons t targets ih =>
    rw [List.foldlM_cons] at h
    cases hstep : reactivateRule env st t with
    | error e => rw [hstep] at h; cases h
    | ok st₁ =>
      rw [hstep] at h
      obtain ⟨r, rules, hrules, hr⟩ := htargets t (.head _)
      obtain ⟨p, hp, rfl⟩ := getElem?_of_ruleTable hrules
      obtain ⟨hin, hdownr⟩ := hdown t (.head _) r ⟨p.rules, hrules, hr⟩
      have hdown₁ : r ∉ (activeStrata st.programs).flatten →
          Downstream (activeStrata st.programs).flatten r :=
        fun hno r' hr' => hdownr hno r' (hall r' hr')
      obtain ⟨hinv₁, htable₁, hactive₁⟩ := reactivateRule_ok hf hinv hp hr hdown₁ hstep
      have hunique : ∀ r', RuleAt (ruleTable st.programs) t r' ↔ r' = r := by
        intro r'
        constructor
        · intro ⟨rules', hrules', hr'⟩
          rw [hrules] at hrules'
          cases hrules'
          rw [hr] at hr'
          exact (Option.some.inj hr').symm
        · rintro rfl
          exact ⟨p.rules, hrules, hr⟩
      have hall₁ : ∀ r' ∈ (activeStrata st₁.programs).flatten, r' ∈ all := by
        intro r' hr'
        rcases (hactive₁ r').mp hr' with hr' | rfl
        · exact hall r' hr'
        · exact hin
      have htargets₁ : ∀ t ∈ targets, ∃ r, RuleAt (ruleTable st₁.programs) t r := by
        rw [htable₁]
        exact fun t' ht' => htargets t' (.tail t ht')
      have hdown₂ : ∀ t ∈ targets, ∀ r, RuleAt (ruleTable st₁.programs) t r →
          r ∈ all ∧ (r ∉ (activeStrata st₁.programs).flatten → Downstream all r) := by
        rw [htable₁]
        intro t' ht' r' hr'
        obtain ⟨hin', hdown'⟩ := hdown t' (.tail t ht') r' hr'
        exact ⟨hin', fun hno => hdown' fun hold => hno ((hactive₁ r').mpr (.inl hold))⟩
      obtain ⟨hinv', htable', hactive'⟩ := ih hinv₁ hall₁ htargets₁ hdown₂ h
      refine ⟨hinv', htable'.trans htable₁, ?_⟩
      intro r'
      rw [hactive', hactive₁, htable₁, or_assoc]
      simp only [List.mem_cons, exists_eq_or_imp, hunique]

include hinv

/-- Appending strata that no rule in force reads, materialised over the store, keeps the
invariant. -/
theorem RuleInvariant.append (hs : OrderedStrata strata)
    (hsafe : ∀ r ∈ strata.flatten, isSafeRule r = .ok ()) (hdown : ∀ r ∈ strata.flatten, r ∉
      (activeStrata programs).flatten ∧ Downstream (activeStrata programs).flatten r)
    {s : Sweep Expr} (h : materialiseAll env (strata.map DatalogProgram.ofRules) base = .ok s) :
    RuleInvariant env E (programs ++ s.programs) s.base ∧
      ∀ r, r ∈ (activeStrata (programs ++ s.programs)).flatten ↔
        r ∈ (activeStrata programs).flatten ∨ r ∈ strata.flatten := by
  have hfresh := activeStrata_ofRules strata
  have hs' : OrderedStrata (activeStrata (strata.map DatalogProgram.ofRules)) := by
    rw [hfresh]
    exact hs
  obtain ⟨hquads, hcons⟩ := materialiseAll_ok hf hs' h
  have hstrata : activeStrata s.programs = strata :=
    (activeStrata_of_forall₂ (sweep_programs h)).trans hfresh
  have htable : ruleTable s.programs = strata := by
    rw [ruleTable_of_forall₂ (sweep_programs h), ruleTable, List.map_map]
    exact List.map_id strata
  rw [hfresh] at hquads hcons
  have hunread : ∀ r' ∈ (activeStrata programs).flatten, ∀ r ∈ strata.flatten,
      ¬ FeedsPositive r r' ∧ ¬ FeedsNegative r r' := by
    intro r' hr' r hr
    obtain ⟨hno, hread⟩ := hdown r hr
    refine hread r' hr' ?_
    rintro rfl
    exact hno hr'
  have happend : activeStrata (programs ++ s.programs) = activeStrata programs ++ strata := by
    rw [activeStrata, List.map_append]
    exact congrArg (activeStrata programs ++ ·) hstrata
  have htables : ruleTable (programs ++ s.programs) = ruleTable programs ++ strata := by
    rw [ruleTable, List.map_append]
    exact congrArg (ruleTable programs ++ ·) htable
  refine ⟨⟨?_, ?_, ?_, ?_, ?_⟩, ?_⟩
  · rw [happend, List.flatten_append, clausesOf_append, hquads]
    have hprec : Precedes (clausesOf env (activeStrata programs).flatten)
        (clausesOf env strata.flatten) := RunsBefore.precedes hunread env
    exact hinv.stable.extend (hs.strataModel_isStable env base.quads) hprec
  · rw [happend, List.flatten_append]
    intro r' hr' sub hg hact
    rcases List.mem_append.mp hr' with hr' | hr'
    · refine hinv.consistent r' hr' sub hg (activeIn_of_unread ?_ ?_ hact)
      · rw [hquads]
        exact subset_strataModel env strata _
      · intro q hq hno
        rw [hquads] at hq
        rcases mem_perfect_cases hq with hq | ⟨c, hc, rfl⟩
        · exact absurd hq hno
        · rw [union_map_clausesOf] at hc
          obtain ⟨r, hr, sub', q', -, hh, rfl⟩ := hc
          have hno := hunread r' hr' r hr
          exact ⟨fun hw => hno.1 (feedsPositive_of_head hh hw),
            fun hb => hno.2 (feedsNegative_of_head hh hb)⟩
    · exact hcons r' hr' sub hg hact
  · exact fun q hq => (materialiseAll_extensional hf h q).1 (hinv.asserted q hq)
  · rw [htables]
    intro rules hrules
    rcases List.mem_append.mp hrules with hrules | hrules
    · exact hinv.negation rules hrules
    · exact hs.negation rules hrules
  · rw [htables, List.flatten_append]
    intro r hr
    rcases List.mem_append.mp hr with hr | hr
    · exact hinv.safe r hr
    · exact hsafe r hr
  · intro r
    rw [happend, List.flatten_append, List.mem_append]

/-- Reactivating rules and appending fresh strata; `all` holds every rule that may be in force
before the strata are appended. -/
theorem insertRules_ok
    (hall : ∀ r ∈ (activeStrata programs).flatten, r ∈ all)
    (htargets : ∀ t ∈ targets, ∃ r, RuleAt (ruleTable programs) t r) (hdown : ∀ t ∈ targets, ∀ r,
      RuleAt (ruleTable programs) t r → r ∈ all ∧ (r ∉ (activeStrata programs).flatten → Downstream
      all r)) (hs : OrderedStrata strata) (hsafe : ∀ r ∈ strata.flatten, isSafeRule r = .ok ())
    (hfresh : ∀ r ∈ strata.flatten, r ∉ all ∧ Downstream all r) (h : insertRules env ⟨programs,
      base, [], []⟩ targets (strata.map DatalogProgram.ofRules) = .ok st) :
    RuleInvariant env E st.programs st.base ∧
      ∀ r, r ∈ (activeStrata st.programs).flatten ↔ r ∈ (activeStrata programs).flatten ∨
        (∃ t ∈ targets, RuleAt (ruleTable programs) t r) ∨ r ∈ strata.flatten := by
  rw [insertRules] at h
  split at h
  · cases h
  · rename_i st₁ hst₁
    let st₀ : RuleInsertion Expr := ⟨programs, base, [], []⟩
    have hinv₀ : RuleInvariant env E st₀.programs st₀.base := hinv
    obtain ⟨hinv₁, -, hactive₁⟩ :=
      foldlM_reactivateRule_ok hf hinv₀ hall htargets hdown hst₁
    have hall₁ : ∀ r ∈ (activeStrata st₁.programs).flatten, r ∈ all := by
      intro r hr
      rcases (hactive₁ r).mp hr with hr | ⟨t, ht, hr⟩
      · exact hall r hr
      · exact (hdown t ht r hr).1
    have hunread : ∀ r ∈ strata.flatten, r ∉ (activeStrata st₁.programs).flatten ∧
        Downstream (activeStrata st₁.programs).flatten r := by
      intro r hr
      obtain ⟨hno, hread⟩ := hfresh r hr
      exact ⟨fun hin => hno (hall₁ r hin), fun r' hr' => hread r' (hall₁ r' hr')⟩
    split at h
    · cases h
    · rename_i s hs'
      cases h
      obtain ⟨hinv₂, hactive₂⟩ := hinv₁.append hf hs hsafe hunread hs'
      rw [RuleInsertion.resume, List.take_length]
      refine ⟨hinv₂, fun r => ?_⟩
      rw [hactive₂, hactive₁, or_assoc]

omit hinv

end Spec

section Requests

variable [DecidableEq Expr] {programs : List (DatalogProgram Expr)}

omit [DecidableEq Expr] in
theorem RuleAt.of_slot {slot : RuleSlot Expr} (h : slot ∈ ruleSlots programs) :
    RuleAt (ruleTable programs) slot.position slot.rule := by
  obtain ⟨p, hp, hr, -⟩ := mem_ruleSlots.mp h
  refine ⟨p.rules, ?_, hr⟩
  rw [ruleTable, List.getElem?_map]
  exact congrArg (Option.map DatalogProgram.rules) hp

omit [DecidableEq Expr] in
theorem mem_ruleTable_of_active {r : Rule Expr} (h : r ∈ (activeStrata programs).flatten) :
    r ∈ (ruleTable programs).flatten := by
  obtain ⟨p, hp, hr⟩ := mem_activeStrata_flatten.mp h
  exact List.mem_flatten.mpr ⟨p.rules, List.mem_map_of_mem hp, p.mem_rules_of_active hr⟩

omit [DecidableEq Expr] in
theorem RuleAt.unique {table : List (List (Rule Expr))} {t : Nat × Nat} {r r' : Rule Expr}
    (h : RuleAt table t r) (h' : RuleAt table t r') : r = r' := by
  obtain ⟨rules, hrules, hr⟩ := h
  obtain ⟨rules', hrules', hr'⟩ := h'
  rw [hrules] at hrules'
  cases hrules'
  rw [hr] at hr'
  exact Option.some.inj hr'

omit [DecidableEq Expr] in
theorem RuleAt.mem {table : List (List (Rule Expr))} {t : Nat × Nat} {r : Rule Expr}
    (h : RuleAt table t r) : r ∈ table.flatten := by
  obtain ⟨rules, hrules, hr⟩ := h
  exact List.mem_flatten.mpr ⟨rules, List.mem_of_getElem? hrules, List.mem_of_getElem? hr⟩

omit [DecidableEq Expr] in
theorem exists_slot_of_mem {r : Rule Expr} (h : r ∈ (ruleTable programs).flatten) :
    ∃ slot ∈ ruleSlots programs, slot.rule = r := by
  obtain ⟨rules, hrules, hr⟩ := List.mem_flatten.mp h
  obtain ⟨p, hp, rfl⟩ := List.mem_map.mp hrules
  obtain ⟨i, hi⟩ := List.mem_iff_getElem?.mp hp
  obtain ⟨id, hid⟩ := List.mem_iff_getElem?.mp hr
  exact ⟨⟨i, id, r, p.isRuleDisabled id⟩, mem_ruleSlots.mpr ⟨p, hi, hid, rfl⟩, rfl⟩

omit [DecidableEq Expr] in
theorem mem_active_of_slot {slot : RuleSlot Expr} (h : slot ∈ ruleSlots programs)
    (hd : slot.disabled = false) : slot.rule ∈ (activeStrata programs).flatten := by
  obtain ⟨p, hp, hr, hdis⟩ := mem_ruleSlots.mp h
  rw [hd, eq_comm, DatalogProgram.isRuleDisabled, decide_eq_false_iff_not] at hdis
  exact mem_activeStrata_flatten.mpr ⟨p, List.mem_of_getElem? hp,
    mem_activeRules.mpr ⟨slot.ruleId, hr, hdis⟩⟩

theorem classify_cases (programs : List (DatalogProgram Expr)) (acc : Requested Expr)
    (r : Rule Expr) :
    (∃ slot ∈ ruleSlots programs, slot.rule = r ∧ (slot.disabled = false ∨
        slot.position ∈ (classify programs acc r).reactivate) ∧
      (∀ t, t ∈ (classify programs acc r).reactivate → t ∈ acc.reactivate ∨ t = slot.position) ∧
      (∀ t ∈ acc.reactivate, t ∈ (classify programs acc r).reactivate) ∧
      (classify programs acc r).fresh = acc.fresh) ∨
    ((∀ slot ∈ ruleSlots programs, slot.rule ≠ r) ∧
      (classify programs acc r).reactivate = acc.reactivate ∧
      ∀ r', r' ∈ (classify programs acc r).fresh ↔ r' ∈ acc.fresh ∨ r' = r) := by
  unfold classify
  cases hfind : (ruleSlots programs).find? (fun slot => slot.rule = r) with
  | some slot =>
    have hmem := List.mem_of_find?_eq_some hfind
    have hrule : slot.rule = r := by simpa using List.find?_some hfind
    refine .inl ⟨slot, hmem, hrule, ?_⟩
    dsimp only
    split_ifs with h
    · refine ⟨.inr (List.mem_append_right _ (List.mem_singleton_self _)), ?_, ?_, rfl⟩
      · intro t ht
        exact (List.mem_append.mp ht).imp_right List.mem_singleton.mp
      · exact fun t ht => List.mem_append_left _ ht
    · refine ⟨?_, fun t ht => .inl ht, fun t ht => ht, rfl⟩
      by_cases hd : slot.disabled = true
      · exact .inr (by_contra fun hno => h ⟨hd, hno⟩)
      · exact .inl (Bool.eq_false_iff.mpr hd)
  | none =>
    have hno := List.find?_eq_none.mp hfind
    refine .inr ⟨fun slot hs he => hno slot hs (decide_eq_true he), ?_⟩
    dsimp only
    split_ifs with h
    · refine ⟨rfl, fun r' => ⟨.inl, ?_⟩⟩
      rintro (hr' | rfl)
      · exact hr'
      · exact h
    · refine ⟨rfl, fun r' => ?_⟩
      rw [List.mem_append, List.mem_singleton]

/-- What the requested rules are: each is in force, reactivated or fresh, and nothing else is. -/
structure RequestedSpec (programs : List (DatalogProgram Expr)) (newRules : List (Rule Expr))
    (acc res : Requested Expr) : Prop where
  reactivate : ∀ t ∈ res.reactivate, t ∈ acc.reactivate ∨
    ∃ slot ∈ ruleSlots programs, slot.rule ∈ newRules ∧ t = slot.position
  fresh : ∀ r ∈ res.fresh, r ∈ acc.fresh ∨
    (r ∈ newRules ∧ ∀ slot ∈ ruleSlots programs, slot.rule ≠ r)
  keeps : (∀ t ∈ acc.reactivate, t ∈ res.reactivate) ∧ ∀ r ∈ acc.fresh, r ∈ res.fresh
  covers : ∀ r ∈ newRules, (∃ slot ∈ ruleSlots programs, slot.rule = r ∧
    (slot.disabled = false ∨ slot.position ∈ res.reactivate)) ∨ r ∈ res.fresh

theorem requestedRules_spec (programs : List (DatalogProgram Expr)) (newRules : List (Rule Expr))
    (acc : Requested Expr) :
    RequestedSpec programs newRules acc (newRules.foldl (classify programs) acc) := by
  induction newRules generalizing acc with
  | nil =>
    exact ⟨fun t ht => .inl ht, fun r hr => .inl hr, ⟨fun _ ht => ht, fun _ hr => hr⟩,
      nofun⟩
  | cons r newRules ih =>
    obtain ⟨hreact, hfresh, ⟨hkeep, hkeep'⟩, hcov⟩ := ih (classify programs acc r)
    rw [List.foldl_cons]
    rcases classify_cases programs acc r with
      ⟨slot, hslot, rfl, hdone, honly, hold, hsame⟩ | ⟨hnone, hsame, honly⟩
    · refine ⟨?_, ?_, ⟨fun t ht => hkeep t (hold t ht), fun r hr => hkeep' r (hsame ▸ hr)⟩, ?_⟩
      · intro t ht
        rcases hreact t ht with ht | ⟨slot', hslot', hin, ht⟩
        · rcases honly t ht with ht | ht
          · exact .inl ht
          · exact .inr ⟨slot, hslot, .head _, ht⟩
        · exact .inr ⟨slot', hslot', .tail _ hin, ht⟩
      · intro r hr
        rcases hfresh r hr with hr | ⟨hin, hno⟩
        · exact .inl (hsame ▸ hr)
        · exact .inr ⟨.tail _ hin, hno⟩
      · intro r hr
        rcases List.mem_cons.mp hr with rfl | hr
        · exact .inl ⟨slot, hslot, rfl, hdone.imp_right (hkeep _)⟩
        · exact hcov r hr
    · refine ⟨?_, ?_, ⟨fun t ht => hkeep t (hsame ▸ ht),
        fun r' hr' => hkeep' r' ((honly r').mpr (.inl hr'))⟩, ?_⟩
      · intro t ht
        rcases hreact t ht with ht | ⟨slot', hslot', hin, ht⟩
        · exact .inl (hsame ▸ ht)
        · exact .inr ⟨slot', hslot', .tail _ hin, ht⟩
      · intro r' hr'
        rcases hfresh r' hr' with hr' | ⟨hin, hno⟩
        · rcases (honly r').mp hr' with hr' | rfl
          · exact .inl hr'
          · exact .inr ⟨.head _, hnone⟩
        · exact .inr ⟨.tail _ hin, hno⟩
      · intro r' hr'
        rcases List.mem_cons.mp hr' with rfl | hr'
        · exact .inr (hkeep' r' ((honly r').mpr (.inr rfl)))
        · exact hcov r' hr'

theorem freshPrograms_ok {existing reintroduced fresh : List (Rule Expr)}
    (h : freshPrograms existing reintroduced fresh = .ok programs) :
    ∃ strata, (∀ r, r ∈ strata.flatten ↔ r ∈ fresh) ∧
      (strata = [] ∨ (RulePartitioner.new fresh).orderRules = .ok strata) ∧
      (∀ r ∈ strata.flatten, isSafeRule r = .ok ()) ∧
      programs = strata.map DatalogProgram.ofRules := by
  rw [freshPrograms] at h
  split at h
  · cases h
  split at h
  · cases h
  split at h
  · cases h
  · rename_i strata hstrata
    split at h
    · cases h
    · rename_i ps hps
      cases h
      obtain ⟨hsafe, rfl⟩ := mapM_new_eq_ok_iff.mp hps
      split_ifs at hstrata with hempty
      · cases hstrata
        refine ⟨[], ?_, .inl rfl, hsafe, rfl⟩
        rw [List.isEmpty_iff.mp hempty]
        exact fun r => Iff.rfl
      · exact ⟨strata, (RulePartitioner.orderRules_spec fresh).2 strata hstrata, .inr hstrata,
          hsafe, rfl⟩

end Requests

section Insertion

variable [DecidableEq Expr] {env : ReasonerEnv Expr} (hf : env.FixedFilters) {E : Set Quad}
  {m m' : IncrementalReasoner Expr} {newRules : List (Rule Expr)} {n : Nat}
include hf

def inForceOrRequested (m : IncrementalReasoner Expr) (newRules : List (Rule Expr)) :
    List (Rule Expr) :=
  m.activeRules ++ newRules.filter fun r => r ∈ (ruleTable m.programs).flatten

/-- No rule that is in force, or requested and in the reasoner, reads the head of a requested rule
that is not in force yet; and the fresh rules are ordered as their dependencies ask. -/
structure InsertionSound (env : ReasonerEnv Expr) (m : IncrementalReasoner Expr)
    (newRules : List (Rule Expr)) : Prop where
  downstream : ∀ r ∈ newRules, r ∉ m.activeRules → Downstream (m.inForceOrRequested newRules) r
  freshOrder : ∀ strata, (RulePartitioner.new
    (env.ruleOrder (requestedRules m.programs newRules).fresh)).orderRules = .ok strata →
      OrderedStrata strata

omit hf in
theorem mem_ruleTable_of_inForceOrRequested {r : Rule Expr}
    (h : r ∈ m.inForceOrRequested newRules) : r ∈ (ruleTable m.programs).flatten := by
  rcases List.mem_append.mp h with h | h
  · exact mem_ruleTable_of_active h
  · exact of_decide_eq_true (List.mem_filter.mp h).2

/-- A successful rule insertion keeps the invariant and puts exactly the requested rules in
force. -/
theorem applyRuleInsertions_ok (hinv : RuleInvariant env E m.programs m.base)
    (hsound : InsertionSound env m newRules)
    (h : applyRuleInsertions env m newRules = .ok (m', n)) :
    RuleInvariant env E m'.programs m'.base ∧
      ∀ r, r ∈ m'.activeRules ↔ r ∈ m.activeRules ∨ r ∈ newRules := by
  have hspec := requestedRules_spec m.programs newRules ⟨[], []⟩
  change RequestedSpec m.programs newRules ⟨[], []⟩ (requestedRules m.programs newRules) at hspec
  have hmemFresh : ∀ r, r ∈ env.ruleOrder (requestedRules m.programs newRules).fresh ↔
      r ∈ (requestedRules m.programs newRules).fresh :=
    fun r => (env.ruleOrder_perm _).mem_iff
  rw [applyRuleInsertions] at h
  dsimp only at h
  split_ifs at h with hempty hnothing
  · cases h
    refine ⟨hinv, ?_⟩
    rw [List.isEmpty_iff.mp hempty]
    exact fun r => by simp
  · cases h
    refine ⟨hinv, fun r => ⟨.inl, fun hr => hr.elim id ?_⟩⟩
    obtain ⟨hreact, hfresh⟩ := Bool.and_eq_true_iff.mp hnothing
    intro hr
    rcases hspec.covers r hr with ⟨slot, hslot, rfl, hd | hpos⟩ | hfr
    · exact mem_active_of_slot hslot hd
    · rw [List.isEmpty_iff.mp hreact] at hpos
      cases hpos
    · rw [← hmemFresh, List.isEmpty_iff.mp hfresh] at hfr
      cases hfr
  · split at h
    · cases h
    · rename_i programs hprograms
      split at h
      · cases h
      · rename_i st hst
        cases h
        obtain ⟨strata, hmem, horder, hsafe, rfl⟩ := freshPrograms_ok hprograms
        have hreact : ∀ t ∈ (requestedRules m.programs newRules).reactivate,
            ∃ slot ∈ ruleSlots m.programs, slot.rule ∈ newRules ∧ t = slot.position :=
          fun t ht => (hspec.reactivate t ht).resolve_left List.not_mem_nil
        have hat : ∀ t ∈ (requestedRules m.programs newRules).reactivate, ∀ r,
            RuleAt (ruleTable m.programs) t r →
              r ∈ newRules ∧ r ∈ (ruleTable m.programs).flatten := by
          intro t ht r hr
          obtain ⟨slot, hslot, hin, rfl⟩ := hreact t ht
          rw [← (RuleAt.of_slot hslot).unique hr]
          exact ⟨hin, (RuleAt.of_slot hslot).mem⟩
        have htargets : ∀ t ∈ (requestedRules m.programs newRules).reactivate,
            ∃ r, RuleAt (ruleTable m.programs) t r := by
          intro t ht
          obtain ⟨slot, hslot, -, rfl⟩ := hreact t ht
          exact ⟨slot.rule, .of_slot hslot⟩
        have hall : ∀ r ∈ m.activeRules, r ∈ m.inForceOrRequested newRules :=
          fun r hr => List.mem_append_left _ hr
        have hdown : ∀ t ∈ (requestedRules m.programs newRules).reactivate, ∀ r,
            RuleAt (ruleTable m.programs) t r → r ∈ m.inForceOrRequested newRules ∧
              (r ∉ m.activeRules → Downstream (m.inForceOrRequested newRules) r) := by
          intro t ht r hr
          obtain ⟨hin, htab⟩ := hat t ht r hr
          exact ⟨List.mem_append_right _ (List.mem_filter.mpr ⟨hin, decide_eq_true htab⟩),
            hsound.downstream r hin⟩
        have hs : OrderedStrata strata := by
          rcases horder with rfl | horder
          · exact ⟨nofun, .nil⟩
          · exact hsound.freshOrder strata horder
        have hfresh : ∀ r ∈ strata.flatten, r ∈ newRules ∧ r ∉ m.inForceOrRequested newRules := by
          intro r hr
          have hr' := (hmemFresh r).mp ((hmem r).mp hr)
          obtain ⟨hin, hno⟩ := (hspec.fresh r hr').resolve_left List.not_mem_nil
          refine ⟨hin, fun h => ?_⟩
          obtain ⟨slot, hslot, he⟩ := exists_slot_of_mem (mem_ruleTable_of_inForceOrRequested h)
          exact hno slot hslot he
        have hunread : ∀ r ∈ strata.flatten, r ∉ m.inForceOrRequested newRules ∧
            Downstream (m.inForceOrRequested newRules) r := by
          intro r hr
          obtain ⟨hin, hno⟩ := hfresh r hr
          exact ⟨hno, hsound.downstream r hin fun h => hno (hall r h)⟩
        obtain ⟨hinv', hactive⟩ :=
          insertRules_ok hf hinv hall htargets hdown hs hsafe hunread hst
        refine ⟨hinv', fun r => (hactive r).trans ?_⟩
        constructor
        · rintro (hr | ⟨t, ht, hr⟩ | hr)
          · exact .inl hr
          · exact .inr (hat t ht r hr).1
          · exact .inr (hfresh r hr).1
        · rintro (hr | hr)
          · exact .inl hr
          · rcases hspec.covers r hr with ⟨slot, hslot, rfl, hd | hpos⟩ | hfr
            · exact .inl (mem_active_of_slot hslot hd)
            · exact .inr (.inl ⟨_, hpos, .of_slot hslot⟩)
            · exact .inr (.inr ((hmem r).mpr ((hmemFresh r).mpr hfr)))

end Insertion

section Run

variable [DecidableEq Expr]

inductive RuleUpdate (Expr : Type) where
  | insert (rules : List (Rule Expr))
  | delete (rules : List (Rule Expr))

def RuleUpdate.apply (env : ReasonerEnv Expr) (m : IncrementalReasoner Expr) :
    RuleUpdate Expr → Updated Expr (IncrementalReasoner Expr × Nat)
  | .insert rules => applyRuleInsertions env m rules
  | .delete rules => applyRuleDeletions env m rules

/-- The remaining rules are ordered, and what the deletion of `R` re-derives from follows from `E`
by them. -/
def RetractionSound (env : ReasonerEnv Expr) (E : Set Quad) (m : IncrementalReasoner Expr)
    (R : List (Rule Expr)) : Prop :=
  OrderedStrata (withoutRules (activeStrata m.programs) R) ∧
    m.ruleKept R ⊆ strataModel env (withoutRules (activeStrata m.programs) R) E

def RuleUpdate.Sound (env : ReasonerEnv Expr) (E : Set Quad) (m : IncrementalReasoner Expr) :
    RuleUpdate Expr → Prop
  | .insert rules => InsertionSound env m rules
  | .delete rules => RetractionSound env E m rules

/-- A run of successful changes of the rules, each one sound. -/
inductive SoundRun (env : ReasonerEnv Expr) (E : Set Quad) (m₀ : IncrementalReasoner Expr) :
    IncrementalReasoner Expr → Prop
  | start : SoundRun env E m₀ m₀
  | step {m m' : IncrementalReasoner Expr} {n : Nat} (u : RuleUpdate Expr) :
    SoundRun env E m₀ m → u.Sound env E m → u.apply env m = .ok (m', n) → SoundRun env E m₀ m'

variable {env : ReasonerEnv Expr} (hf : env.FixedFilters) {E : Set Quad}
  {m m' m₀ : IncrementalReasoner Expr} {n : Nat}
include hf

theorem applyRuleDeletions_invariant {R : List (Rule Expr)}
    (hinv : RuleInvariant env E m.programs m.base) (hsound : RetractionSound env E m R)
    (h : applyRuleDeletions env m R = .ok (m', n)) :
    RuleInvariant env E m'.programs m'.base := by
  obtain ⟨hs, hkept⟩ := hsound
  obtain ⟨hactive, htable, hquads, hcons, hext⟩ :=
    applyRuleDeletions_ok hf hinv.stable hinv.consistent hs h
  have hE : E ⊆ m.ruleKept R := fun q hq => extensional_mem_ruleKept (hinv.asserted q hq)
  have hmodel : m'.base.quads =
      strataModel env (withoutRules (activeStrata m.programs) R) E := by
    rw [hquads, hs.strataModel_eq_iff env]
    exact ⟨hkept, hE.trans (subset_strataModel env _ _)⟩
  refine ⟨?_, ?_, fun q hq => hext q (hinv.asserted q hq), ?_, ?_⟩
  · rw [hactive, hs.isStable_iff env]
    exact hmodel
  · rw [hactive]
    exact hcons
  · rw [htable]
    exact hinv.negation
  · rw [htable]
    exact hinv.safe

theorem RuleUpdate.apply_invariant {u : RuleUpdate Expr}
    (hinv : RuleInvariant env E m.programs m.base) (hsound : u.Sound env E m)
    (h : u.apply env m = .ok (m', n)) : RuleInvariant env E m'.programs m'.base := by
  cases u with
  | insert rules => exact (applyRuleInsertions_ok hf hinv hsound h).1
  | delete rules => exact applyRuleDeletions_invariant hf hinv hsound h

theorem SoundRun.invariant (hinv : RuleInvariant env E m₀.programs m₀.base)
    (h : SoundRun env E m₀ m) : RuleInvariant env E m.programs m.base := by
  induction h with
  | start => exact hinv
  | step u _ hsound happly ih => exact u.apply_invariant hf ih hsound happly

theorem new_invariant {rules : List (Rule Expr)} {strata : List (List (Rule Expr))}
    {base : QuadStore} (horder : (RulePartitioner.new rules).orderRules = .ok strata)
    (hs : OrderedStrata strata) (hnew : new env rules base = .ok m)
    (hbase : base.quads ⊆ strataModel env strata {q | base.Extensional q}) :
    RuleInvariant env {q | base.Extensional q} m.programs m.base := by
  obtain ⟨hsafe, s, hrun, rfl⟩ := new_eq_ok horder hnew
  obtain ⟨hactive, hquads, hcons, hext⟩ := new_ok hf horder hs hnew
  have htable : ruleTable s.programs = strata := by
    rw [ruleTable_of_forall₂ (sweep_programs hrun), ruleTable, List.map_map]
    exact List.map_id strata
  dsimp only at hactive hquads hcons hext ⊢
  refine ⟨?_, ?_, fun q hq => (hext q).1 hq, ?_, ?_⟩
  · rw [hactive, hs.isStable_iff env, hquads, hs.strataModel_eq_iff env]
    have hasserted : {q | base.Extensional q} ⊆ base.quads := fun q hq => hq.1
    exact ⟨hbase, hasserted.trans (subset_strataModel env strata _)⟩
  · rw [hactive]
    exact hcons
  · rw [htable]
    exact hs.negation
  · rw [htable]
    exact hsafe

/-- A rule insertion after a sound run of changes of the rules leaves what a new reasoner computes
over the rules in force and the new ones, and puts exactly those in force. -/
theorem applyRuleInsertions_exact {rules newRules combined : List (Rule Expr)}
    {strata strata' : List (List (Rule Expr))} {base fresh : QuadStore}
    (horder : (RulePartitioner.new rules).orderRules = .ok strata)
    (hs : OrderedStrata strata) (hnew : new env rules base = .ok m₀)
    (hbase : base.quads ⊆ strataModel env strata {q | base.Extensional q})
    (hrun : SoundRun env {q | base.Extensional q} m₀ m) (hsound : InsertionSound env m newRules)
    (hok : applyRuleInsertions env m newRules = .ok (m', n))
    (hcombined : ∀ r, r ∈ combined ↔ r ∈ m.activeRules ∨ r ∈ newRules)
    (horder' : (RulePartitioner.new combined).orderRules = .ok strata')
    (hs' : OrderedStrata strata') (hfresh : fresh.quads = {q | base.Extensional q}) :
    (∀ r, r ∈ m'.activeRules ↔ r ∈ combined) ∧
      ∃ r, new env combined fresh = .ok r ∧ r.base.quads = m'.base.quads := by
  have hinv := hrun.invariant hf (new_invariant hf horder hs hnew hbase)
  obtain ⟨hinv', hactive⟩ := applyRuleInsertions_ok hf hinv hsound hok
  have hmem : ∀ r, r ∈ m'.activeRules ↔ r ∈ combined :=
    fun r => (hactive r).trans (hcombined r).symm
  have hstrata : ∀ r, r ∈ (activeStrata m'.programs).flatten ↔ r ∈ strata'.flatten := by
    intro r
    rw [(RulePartitioner.orderRules_spec combined).2 strata' horder' r]
    exact hmem r
  have hcons : Consistent env strata'.flatten m'.base.quads :=
    fun r hr => hinv'.consistent r ((hstrata r).mpr hr)
  have hsafe : ∀ r ∈ strata'.flatten, isSafeRule r = .ok () :=
    fun r hr => hinv'.safe r (mem_ruleTable_of_active ((hstrata r).mpr hr))
  have hstable := hinv'.stable
  rw [clausesOf_congr hstrata, hs'.isStable_iff env] at hstable
  refine ⟨hmem, (new_quads_eq_iff hf horder' hs' hsafe hcons).mpr ?_⟩
  rw [hfresh]
  exact hstable

end Run

/-- A sufficient test for `InsertionSound`. -/
def insertionClash (env : ReasonerEnv Empty) (m : IncrementalReasoner Empty)
    (newRules : List (Rule Empty)) : Bool :=
  newRules.all (fun r => (m.inForceOrRequested newRules).all fun r' =>
      decide (r' = r) || r.head.clashAll (r'.positivePatterns ++ r'.notPatterns)) &&
  match (RulePartitioner.new (env.ruleOrder
      (requestedRules m.programs newRules).fresh)).orderRules with
  | .ok strata => strataClash strata
  | .error _ => true

theorem InsertionSound.of_clash {env : ReasonerEnv Empty} {m : IncrementalReasoner Empty}
    {newRules : List (Rule Empty)} (h : insertionClash env m newRules = true) :
    InsertionSound env m newRules := by
  obtain ⟨hread, hfresh⟩ := Bool.and_eq_true_iff.mp h
  constructor
  · intro r hr _ r' hr' hne
    have hclash := List.all_eq_true.mp (List.all_eq_true.mp hread r hr) r' hr'
    rw [decide_eq_false hne, Bool.false_or] at hclash
    exact not_feeds_of_clash hclash
  · intro strata horder
    rw [horder] at hfresh
    exact .of_clash hfresh

theorem applyRuleInsertions_exact_unary : ∃ m₀ m m' n,
    new .plain [unaryRule 2 [1] []] (storeOf [unaryQuad 1 0]) = .ok m₀ ∧
      SoundRun .plain {q | (storeOf [unaryQuad 1 0]).Extensional q} m₀ m ∧
      applyRuleInsertions .plain m [unaryRule 4 [3] []] = .ok (m', n) ∧
      (∀ r, r ∈ m'.activeRules ↔
        r ∈ [unaryRule 2 [1] [], unaryRule 3 [2] [], unaryRule 4 [3] []]) ∧
      ∃ r, new .plain [unaryRule 2 [1] [], unaryRule 3 [2] [], unaryRule 4 [3] []]
          (storeOf [unaryQuad 1 0]) = .ok r ∧ r.base.quads = m'.base.quads := by
  obtain ⟨m₀, hnew, hclash₀, m, hfirst, hclash, hactive, m', hok, -⟩ :
      ∃ m₀, new .plain [unaryRule 2 [1] []] (storeOf [unaryQuad 1 0]) = .ok m₀ ∧
        insertionClash .plain m₀ [unaryRule 3 [2] []] = true ∧
        ∃ m, applyRuleInsertions .plain m₀ [unaryRule 3 [2] []] = .ok m ∧
          insertionClash .plain m.1 [unaryRule 4 [3] []] = true ∧
          m.1.activeRules = [unaryRule 2 [1] [], unaryRule 3 [2] []] ∧
        ∃ m', applyRuleInsertions .plain m.1 [unaryRule 4 [3] []] = .ok m' ∧ m'.2 = 1 := by decide
  have hrun₁ : SoundRun .plain {q | (storeOf [unaryQuad 1 0]).Extensional q} m₀ m.1 :=
    .step (n := m.2) (.insert [unaryRule 3 [2] []]) .start (.of_clash hclash₀) hfirst
  refine ⟨m₀, m.1, m'.1, m'.2, hnew, hrun₁, hok, ?_⟩
  have horder : (RulePartitioner.new [unaryRule 2 [1] []]).orderRules =
      .ok [[unaryRule 2 [1] []]] := by decide
  have horder' : (RulePartitioner.new
      [unaryRule 2 [1] [], unaryRule 3 [2] [], unaryRule 4 [3] []]).orderRules =
      .ok [[unaryRule 2 [1] [], unaryRule 3 [2] [], unaryRule 4 [3] []]] := by
    decide
  have hfresh : (storeOf [unaryQuad 1 0]).quads =
      {q | (storeOf [unaryQuad 1 0]).Extensional q} := by
    ext q
    rw [QuadStore.mem_quads, (extensional_storeOf _ q).1, Set.mem_ofPred_eq,
      (extensional_storeOf _ q).2]
  refine applyRuleInsertions_exact ReasonerEnv.plain_fixedFilters horder
    (.of_clash (by decide)) hnew ?_ hrun₁ (.of_clash hclash) hok ?_ horder'
    (.of_clash (by decide)) hfresh
  · rw [← hfresh]
    exact subset_strataModel _ _ _
  · intro r
    rw [hactive]
    simp only [List.mem_cons, List.not_mem_nil, or_false, or_assoc]

/-- `6(?x) :- 2(9, ?x)`: what it reads shares a variable's name with the head of `2(?x, 8)`. -/
def sharedNameReader : Rule Empty :=
  ⟨.normalHead (unaryPattern 6),
    [.positivePattern ⟨.resource 0, .resource 9, .resource 2, .var "x"⟩]⟩

/-- `2(?x, 8) :- 1(?x)` -/
def sharedNameProducer : Rule Empty :=
  ⟨.normalHead ⟨.resource 0, .var "x", .resource 2, .resource 8⟩,
    [.positivePattern (unaryPattern 1)]⟩

/-- The check for rules that read the new head misses one, and that rule is not run again. -/
theorem applyRuleInsertions_misses_reader : ∃ m m' n r,
    new .plain [sharedNameReader] (storeOf [unaryQuad 1 9]) = .ok m ∧
      applyRuleInsertions .plain m [sharedNameProducer] = .ok (m', n) ∧
      new .plain (m.activeRules ++ [sharedNameProducer]) (storeOf [unaryQuad 1 9]) = .ok r ∧
      unaryQuad 6 8 ∉ m'.base ∧ unaryQuad 6 8 ∈ r.base := by
  obtain ⟨m, hnew, m', hins, r, hr, hout, hin⟩ :
      ∃ m, new .plain [sharedNameReader] (storeOf [unaryQuad 1 9]) = .ok m ∧
        ∃ m', applyRuleInsertions .plain m [sharedNameProducer] = .ok m' ∧
        ∃ r, new .plain (m.activeRules ++ [sharedNameProducer]) (storeOf [unaryQuad 1 9]) = .ok r ∧
          unaryQuad 6 8 ∉ m'.1.base ∧ unaryQuad 6 8 ∈ r.base := by decide
  exact ⟨m, m'.1, m'.2, r, hnew, hins, hr, hout, hin⟩

end IncrementalReasoner

end RdfDatalog.Datalog
