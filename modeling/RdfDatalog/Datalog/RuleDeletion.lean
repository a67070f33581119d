import RdfDatalog.Datalog.Deletion

namespace RdfDatalog.Datalog

open GroundProgram FallibleFold

variable {Expr : Type} [DecidableEq Expr]

def withoutRules (strata : List (List (Rule Expr))) (R : List (Rule Expr)) :
    List (List (Rule Expr)) :=
  strata.map fun rules => rules.filter fun r => r ∉ R

theorem withoutRules_flatten (strata : List (List (Rule Expr))) (R : List (Rule Expr)) :
    (withoutRules strata R).flatten = strata.flatten.filter fun r => r ∉ R :=
  List.filter_flatten.symm

theorem OrderedStrata.withoutRules {strata : List (List (Rule Expr))} (h : OrderedStrata strata)
    (R : List (Rule Expr)) : OrderedStrata (withoutRules strata R) := by
  constructor
  · intro rules hr r hmem producer hp
    obtain ⟨rules', hr', rfl⟩ := List.mem_map.mp hr
    exact h.negation rules' hr' r (List.mem_of_mem_filter hmem) producer
      (List.mem_of_mem_filter hp)
  · refine List.pairwise_map.mpr (h.order.imp ?_)
    intro rules later hbefore r hr producer hp
    exact hbefore r (List.mem_of_mem_filter hr) producer (List.mem_of_mem_filter hp)

namespace IncrementalReasoner

omit [DecidableEq Expr] in
theorem mem_ruleSlots {programs : List (DatalogProgram Expr)} {slot : RuleSlot Expr} :
    slot ∈ ruleSlots programs ↔ ∃ p, programs[slot.programIndex]? = some p ∧
      p.rules[slot.ruleId]? = some slot.rule ∧ slot.disabled = p.isRuleDisabled slot.ruleId := by
  unfold ruleSlots
  simp only [List.mem_flatMap, List.mem_map, Prod.exists, List.mem_zipIdx_iff_getElem?]
  constructor
  · rintro ⟨p, i, hp, r, id, hr, rfl⟩
    exact ⟨p, hp, hr, rfl⟩
  · rintro ⟨p, hp, hr, hd⟩
    refine ⟨p, _, hp, _, _, hr, ?_⟩
    rw [← hd]

variable {R : List (Rule Expr)} {m : IncrementalReasoner Expr}

theorem mem_deletionTargets {programs : List (DatalogProgram Expr)} {i id : Nat} :
    (i, id) ∈ deletionTargets programs R ↔
      ∃ p r, programs[i]? = some p ∧ p.Enabled id r ∧ r ∈ R := by
  unfold deletionTargets
  simp only [List.mem_map, List.mem_filter, mem_ruleSlots, Bool.and_eq_true, Bool.not_eq_true',
    List.contains_iff_mem]
  constructor
  · rintro ⟨slot, ⟨⟨p, hp, hr, hd⟩, hno, hR⟩, hpos⟩
    cases hpos
    rw [hd, DatalogProgram.isRuleDisabled, decide_eq_false_iff_not] at hno
    exact ⟨p, slot.rule, hp, ⟨hr, hno⟩, hR⟩
  · intro ⟨p, r, hp, ⟨hr, hno⟩, hR⟩
    refine ⟨⟨i, id, r, p.isRuleDisabled id⟩, ⟨⟨p, hp, hr, rfl⟩, ?_, hR⟩, rfl⟩
    exact decide_eq_false hno

omit [DecidableEq Expr] in
theorem getElem?_disableRules (targets : List (Nat × Nat)) (programs : List (DatalogProgram Expr))
    (i : Nat) : (disableRules targets programs)[i]? = programs[i]?.map fun p =>
      { p with disabledRules := p.disabledRules ∪
          ((targets.filter fun t => t.1 = i).map Prod.snd).toFinset } := by
  induction targets generalizing programs with
  | nil => simp [disableRules]
  | cons t targets ih =>
    have hstep := ih (programs.modify t.1 fun p => p.disableRule t.2)
    rw [disableRules, List.foldl_cons]
    refine hstep.trans ?_
    rw [List.getElem?_modify]
    cases programs[i]? with
    | none => rfl
    | some p =>
      by_cases h : t.1 = i
      · simp [h, DatalogProgram.disableRule]
      · simp [h]

theorem activeRules_filter {p p' : DatalogProgram Expr} (hrules : p'.rules = p.rules)
    (hdis : ∀ id, id ∈ p'.disabledRules ↔ id ∈ p.disabledRules ∨ ∃ r, p.Enabled id r ∧ r ∈ R) :
    p'.activeRules = p.activeRules.filter fun r => r ∉ R := by
  rw [DatalogProgram.activeRules, DatalogProgram.activeRules, hrules, List.filter_map,
    List.filter_filter]
  refine congrArg (List.map Prod.fst) (List.filter_congr ?_)
  rintro ⟨r, id⟩ hmem
  have hr : p.rules[id]? = some r := List.mem_zipIdx_iff_getElem?.mp hmem
  rw [Bool.eq_iff_iff]
  simp only [Function.comp_apply, decide_eq_true_eq, Bool.and_eq_true, hdis, not_or]
  constructor
  · rintro ⟨hd, hno⟩
    exact ⟨fun hR => hno ⟨r, ⟨hr, hd⟩, hR⟩, hd⟩
  · rintro ⟨hR, hd⟩
    refine ⟨hd, ?_⟩
    rintro ⟨r', ⟨hr', _⟩, hR'⟩
    rw [hr] at hr'
    cases hr'
    exact hR hR'

theorem activeStrata_disableRules (programs : List (DatalogProgram Expr)) (R : List (Rule Expr)) :
    activeStrata (disableRules (deletionTargets programs R) programs) =
      withoutRules (activeStrata programs) R := by
  apply List.ext_getElem?
  intro i
  rw [activeStrata, withoutRules, activeStrata, List.getElem?_map, getElem?_disableRules,
    List.getElem?_map, List.getElem?_map]
  cases hp : programs[i]? with
  | none => rfl
  | some p =>
    refine congrArg some (activeRules_filter rfl ?_)
    intro id
    rw [Finset.mem_union, List.mem_toFinset, List.mem_map]
    refine or_congr_right ?_
    constructor
    · rintro ⟨⟨j, id'⟩, hmem, rfl⟩
      obtain ⟨htarget, hj⟩ := List.mem_filter.mp hmem
      obtain rfl : j = i := of_decide_eq_true hj
      obtain ⟨p', r, hp', hr, hR⟩ := mem_deletionTargets.mp htarget
      rw [hp] at hp'
      cases hp'
      exact ⟨r, hr, hR⟩
    · rintro ⟨r, hr, hR⟩
      exact ⟨(i, id), List.mem_filter.mpr
        ⟨mem_deletionTargets.mpr ⟨p, r, hp, hr, hR⟩, decide_eq_true rfl⟩, rfl⟩

/-- The rules of each program, retracted ones included. -/
def ruleTable (programs : List (DatalogProgram Expr)) : List (List (Rule Expr)) :=
  programs.map DatalogProgram.rules

omit [DecidableEq Expr] in
theorem ruleTable_of_forall₂ {ps ps' : List (DatalogProgram Expr)}
    (h : List.Forall₂ (fun p p' => ∃ x, p' = p.withDerivedFrom x) ps ps') :
    ruleTable ps' = ruleTable ps := by
  induction h with
  | nil => rfl
  | cons hp _ ih =>
    obtain ⟨x, rfl⟩ := hp
    exact congrArg (List.cons _) ih

omit [DecidableEq Expr] in
theorem ruleTable_disableRules (targets : List (Nat × Nat))
    (programs : List (DatalogProgram Expr)) :
    ruleTable (disableRules targets programs) = ruleTable programs := by
  apply List.ext_getElem?
  intro i
  rw [ruleTable, ruleTable, List.getElem?_map, getElem?_disableRules, List.getElem?_map]
  cases programs[i]? <;> rfl

omit [DecidableEq Expr] in
theorem mem_quadsDerivedBy {programs : List (DatalogProgram Expr)} {i id : Nat} {q : Quad} :
    q ∈ quadsDerivedBy programs (i, id) ↔
      ∃ p d, programs[i]? = some p ∧ p.derivedFrom.Recorded q d ∧ d.ruleId = id := by
  unfold quadsDerivedBy
  cases hp : programs[i]? with
  | none => simp
  | some p =>
    simp only [List.mem_map, List.mem_filter, List.any_eq_true, decide_eq_true_eq,
      Option.some.injEq]
    constructor
    · rintro ⟨⟨q, ds⟩, ⟨he, d, hd, hid⟩, rfl⟩
      exact ⟨p, d, rfl, p.derivedFrom.mem_iter.mp ⟨ds, he, hd⟩, hid⟩
    · rintro ⟨p, d, rfl, hd, hid⟩
      obtain ⟨ds, he, hd⟩ := p.derivedFrom.mem_iter.mpr hd
      exact ⟨(q, ds), ⟨he, d, hd, hid⟩, rfl⟩

/-- A rule of `R` that is in force has a recorded derivation of `q`. -/
def DerivedByRule (programs : List (DatalogProgram Expr)) (R : List (Rule Expr)) (q : Quad) :
    Prop :=
  ∃ p ∈ programs, ∃ id r d, p.Enabled id r ∧ r ∈ R ∧ p.derivedFrom.Recorded q d ∧ d.ruleId = id

/-- `q` is not asserted and is reached from such a quad through recorded derivations of quads that
are not asserted. -/
def RuleSuspect (m : IncrementalReasoner Expr) (R : List (Rule Expr)) (q : Quad) : Prop :=
  ∃ x, DerivedByRule m.programs R x ∧ ¬ m.base.Extensional x ∧ Relation.ReflTransGen
    (fun x y => Supports m.programs x y ∧ ¬ m.base.Extensional y) x q

omit [DecidableEq Expr] in
theorem RuleSuspect.not_extensional {m : IncrementalReasoner Expr} {R : List (Rule Expr)}
    {q : Quad} (h : RuleSuspect m R q) : ¬ m.base.Extensional q := by
  obtain ⟨x, -, hx, hxq⟩ := h
  cases hxq with
  | refl => exact hx
  | tail _ hstep => exact hstep.2

theorem mem_backwardPhaseFromRuleRemoval {q : Quad} :
    q ∈ backwardPhaseFromRuleRemoval m (deletionTargets m.programs R) ↔
      RuleSuspect m R q := by
  have hseed : ∀ x, x ∈ (deletionTargets m.programs R).flatMap (quadsDerivedBy m.programs) ↔
      DerivedByRule m.programs R x := by
    intro x
    rw [List.mem_flatMap]
    constructor
    · rintro ⟨⟨i, id⟩, htarget, hx⟩
      obtain ⟨p, r, hp, hr, hR⟩ := mem_deletionTargets.mp htarget
      obtain ⟨p', d, hp', hd, hid⟩ := mem_quadsDerivedBy.mp hx
      rw [hp] at hp'
      cases hp'
      exact ⟨p, List.mem_of_getElem? hp, id, r, d, hr, hR, hd, hid⟩
    · intro ⟨p, hp, id, r, d, hr, hR, hd, hid⟩
      obtain ⟨i, hi⟩ := List.mem_iff_getElem?.mp hp
      exact ⟨(i, id), mem_deletionTargets.mpr ⟨p, r, hi, hr, hR⟩,
        mem_quadsDerivedBy.mpr ⟨p, d, hi, hd, hid⟩⟩
  rw [backwardPhaseFromRuleRemoval, mem_cascadePd]
  simp only [hseed]
  rfl

/-- The rebuild is chosen: more than a quarter of the derived quads are suspect. -/
def RulesFallBack (m : IncrementalReasoner Expr) (R : List (Rule Expr)) : Prop :=
  exceedsThreshold m.programs
    (backwardPhaseFromRuleRemoval m (deletionTargets m.programs R)) = true

/-- What a rule deletion re-derives from: the asserted quads if it rebuilds, else all quads that are
not suspect. -/
def ruleKept (m : IncrementalReasoner Expr) (R : List (Rule Expr)) : Set Quad :=
  {q | (RulesFallBack m R ∧ m.base.Extensional q) ∨
    (¬ RulesFallBack m R ∧ q ∈ m.base ∧ ¬ RuleSuspect m R q)}

theorem extensional_mem_ruleKept {q : Quad} (h : m.base.Extensional q) : q ∈ m.ruleKept R := by
  by_cases hfall : RulesFallBack m R
  · exact .inl ⟨hfall, h⟩
  · exact .inr ⟨hfall, h.1, fun hs => hs.not_extensional h⟩

theorem ruleKept_of_noTarget (h : deletionTargets m.programs R = []) :
    m.ruleKept R = m.base.quads := by
  have hno : ∀ q, ¬ RuleSuspect m R q := by
    intro q hq
    have hmem := mem_backwardPhaseFromRuleRemoval.mpr hq
    rw [h, backwardPhaseFromRuleRemoval, mem_cascadePd] at hmem
    obtain ⟨x, hx, -⟩ := hmem
    cases hx
  have hnil : backwardPhaseFromRuleRemoval m (deletionTargets m.programs R) = [] := by
    rw [List.eq_nil_iff_forall_not_mem]
    exact fun q hq => hno q (mem_backwardPhaseFromRuleRemoval.mp hq)
  have hfall : ¬ RulesFallBack m R := by
    rw [RulesFallBack, hnil]
    simp [exceedsThreshold]
  ext q
  simp [ruleKept, hfall, hno q]

theorem withoutRules_of_noTarget (h : deletionTargets m.programs R = []) :
    withoutRules (activeStrata m.programs) R = activeStrata m.programs := by
  have hactive := activeStrata_disableRules m.programs R
  rw [h] at hactive
  exact hactive.symm

section Spec

variable {env : ReasonerEnv Expr} (hf : env.FixedFilters) {m m' : IncrementalReasoner Expr}
  {R : List (Rule Expr)} {n : Nat}
include hf

omit [DecidableEq Expr] hf in
theorem extensional_foldl_retract (m : IncrementalReasoner Expr) {pd : List Quad} {q : Quad}
    (hq : m.base.Extensional q) (hno : q ∉ pd) : (pd.foldl retract m).base.Extensional q := by
  have hbase : (pd.foldl retract m).base = pd.foldl QuadStore.removeQuad m.base := by
    clear hq hno
    induction pd generalizing m with
    | nil => rfl
    | cons x pd ih => exact ih (m.retract x)
  rw [hbase, QuadStore.Extensional, QuadStore.mem_foldl_removeQuad,
    QuadStore.derived_foldl_removeQuad]
  exact ⟨⟨hq.1, hno⟩, fun hd => hq.2 hd.1⟩

theorem fullRematerialiseRules_ok
    (hs : OrderedStrata (withoutRules (activeStrata m.programs) R))
    (h : fullRematerialiseRules env m (deletionTargets m.programs R) = .ok (m', n)) :
    activeStrata m'.programs = withoutRules (activeStrata m.programs) R ∧
      ruleTable m'.programs = ruleTable m.programs ∧
      m'.base.quads = strataModel env (withoutRules (activeStrata m.programs) R)
        {q | m.base.Extensional q} ∧
      Consistent env (withoutRules (activeStrata m.programs) R).flatten m'.base.quads ∧
      ∀ q, m.base.Extensional q → m'.base.Extensional q := by
  have hactive := activeStrata_disableRules m.programs R
  rw [← hactive] at hs ⊢
  rw [fullRematerialiseRules] at h
  split at h
  · cases h
  · rename_i s hs'
    cases h
    obtain ⟨hquads, hcons⟩ := materialiseReset_ok hf hs hs'
    have hbase : (assertedOnly m.base).quads = {q | m.base.Extensional q} := by
      ext q
      exact (extensional_assertedOnly m.base q).1
    rw [hbase] at hquads
    refine ⟨activeStrata_of_forall₂ (sweep_programs hs'), ?_, hquads, hcons, ?_⟩
    · exact (ruleTable_of_forall₂ (sweep_programs hs')).trans (ruleTable_disableRules _ _)
    · intro q hq
      exact (materialiseReset_extensional hf hs' q).1 ((extensional_assertedOnly m.base q).2.mpr hq)

omit [DecidableEq Expr] in
theorem forwardPhaseRules_ok {pd : List Quad} {targets : List (Nat × Nat)}
    (hs : OrderedStrata (activeStrata m.programs))
    (h : forwardPhaseRules env m pd targets = .ok (m', n)) :
    activeStrata m'.programs = activeStrata m.programs ∧
      ruleTable m'.programs = ruleTable m.programs ∧
      m'.base.quads = strataModel env (activeStrata m.programs) {q | q ∈ m.base ∧ q ∉ pd} ∧
      Consistent env (activeStrata m.programs).flatten m'.base.quads ∧
      ∀ q, m.base.Extensional q → q ∉ pd → m'.base.Extensional q := by
  rw [forwardPhaseRules] at h
  split at h
  · cases h
  · rename_i s hs'
    cases h
    obtain ⟨hquads, hcons⟩ := rederive_ok hf hs hs'
    have hprograms := activeStrata_of_forall₂ (sweep_programs hs')
    rw [activeStrata_foldl_retract] at hprograms
    refine ⟨hprograms, ?_, hquads, hcons, ?_⟩
    · exact (ruleTable_of_forall₂ (sweep_programs hs')).trans
        (ruleTable_of_forall₂ (m.foldl_retract_programs pd))
    · intro q hq hno
      exact (materialiseAll_extensional hf hs' q).1 (extensional_foldl_retract m hq hno)

/-- A successful rule deletion computes the model of the remaining rules over what it re-derives
from. -/
theorem applyRuleDeletions_ok {E : Set Quad}
    (hstable : IsStable (clausesOf env m.activeRules) E m.base.quads)
    (hcons : Consistent env m.activeRules m.base.quads)
    (hs : OrderedStrata (withoutRules (activeStrata m.programs) R))
    (h : applyRuleDeletions env m R = .ok (m', n)) :
    activeStrata m'.programs = withoutRules (activeStrata m.programs) R ∧
      ruleTable m'.programs = ruleTable m.programs ∧
      m'.base.quads = strataModel env (withoutRules (activeStrata m.programs) R) (m.ruleKept R) ∧
      Consistent env (withoutRules (activeStrata m.programs) R).flatten m'.base.quads ∧
      ∀ q, m.base.Extensional q → m'.base.Extensional q := by
  by_cases hnone : deletionTargets m.programs R = []
  · simp only [applyRuleDeletions, hnone, List.isEmpty_nil, if_true, ite_self] at h
    cases h
    rw [withoutRules_of_noTarget hnone] at hs ⊢
    rw [ruleKept_of_noTarget hnone]
    have hself : IsStable (clausesOf env (activeStrata m.programs).flatten) m.base.quads
        m.base.quads := by
      have hunion := hstable.union (F := m.base.quads) Set.Subset.rfl
      rw [Set.union_eq_self_of_subset_left hstable.facts_subset] at hunion
      exact hunion
    exact ⟨rfl, rfl, (hs.isStable_iff env).mp hself, hcons, fun _ hq => hq⟩
  rw [applyRuleDeletions] at h
  dsimp only at h
  split_ifs at h with hempty htargets hfall
  · refine absurd ?_ hnone
    rw [List.isEmpty_iff.mp hempty, List.eq_nil_iff_forall_not_mem]
    intro ⟨i, id⟩ hmem
    obtain ⟨_, _, _, _, hR⟩ := mem_deletionTargets.mp hmem
    cases hR
  · exact absurd (List.isEmpty_iff.mp htargets) hnone
  · obtain ⟨hactive, htable, hquads, hcons', hext⟩ := fullRematerialiseRules_ok hf hs h
    have hkept : m.ruleKept R = {q | m.base.Extensional q} := by
      ext q
      have hfb : RulesFallBack m R := hfall
      simp [ruleKept, hfb]
    rw [hkept]
    exact ⟨hactive, htable, hquads, hcons', hext⟩
  · have hs' := hs
    rw [← activeStrata_disableRules] at hs'
    obtain ⟨hactive, htable, hquads, hcons', hext⟩ := forwardPhaseRules_ok hf
      (m := { m with programs := disableRules (deletionTargets m.programs R) m.programs }) hs' h
    dsimp only at hactive htable hquads hcons' hext
    rw [activeStrata_disableRules] at hactive hquads hcons'
    have hpd : ∀ q, q ∈ env.quadOrder (backwardPhaseFromRuleRemoval m
        (deletionTargets m.programs R)) ↔ RuleSuspect m R q := by
      intro q
      rw [(env.quadOrder_perm _).mem_iff, mem_backwardPhaseFromRuleRemoval]
    have hkept : m.ruleKept R = {q | q ∈ m.base ∧ q ∉ env.quadOrder
        (backwardPhaseFromRuleRemoval m (deletionTargets m.programs R))} := by
      ext q
      have hfb : ¬ RulesFallBack m R := hfall
      simp only [ruleKept, hfb, false_and, false_or, not_false_eq_true, true_and, hpd]
    rw [hkept]
    refine ⟨hactive, htable.trans (ruleTable_disableRules _ _), hquads, hcons', ?_⟩
    intro q hq
    exact hext q hq fun hmem => ((hpd q).mp hmem).not_extensional hq

end Spec

section Retraction

variable {env : ReasonerEnv Expr} (hf : env.FixedFilters) {rules R : List (Rule Expr)}
  {strata strata' : List (List (Rule Expr))} {base fresh : QuadStore}
  {m m' : IncrementalReasoner Expr} {n : Nat}
include hf

/-- A successful rule deletion takes exactly the rules of `R` out of force, and it leaves what a
new reasoner over the remaining rules computes iff what it re-derives from follows from the quads
asserted at first. -/
theorem applyRuleDeletions_exact_iff (horder : (RulePartitioner.new rules).orderRules = .ok strata)
    (hs : OrderedStrata strata) (hnew : new env rules base = .ok m)
    (hok : applyRuleDeletions env m R = .ok (m', n))
    (horder' : (RulePartitioner.new m'.activeRules).orderRules = .ok strata')
    (hs' : OrderedStrata strata') (hfresh : fresh.quads = {q | base.Extensional q}) :
    m'.activeRules = m.activeRules.filter (fun r => r ∉ R) ∧
      ((∃ r, new env m'.activeRules fresh = .ok r ∧ r.base.quads = m'.base.quads) ↔
        m.ruleKept R ⊆ strataModel env strata' {q | base.Extensional q}) := by
  obtain ⟨hactive, hm, hcons, hext⟩ := new_ok hf horder hs hnew
  obtain ⟨hsafe, -⟩ := new_eq_ok horder hnew
  have hrules : m.activeRules = strata.flatten := congrArg List.flatten hactive
  have hstable : IsStable (clausesOf env m.activeRules) base.quads m.base.quads := by
    rw [hrules, hm]
    exact hs.strataModel_isStable env _
  have hsR : OrderedStrata (withoutRules (activeStrata m.programs) R) := by
    rw [hactive]
    exact hs.withoutRules R
  rw [← hrules] at hcons
  obtain ⟨hactive', -, hquads, hcons', -⟩ := applyRuleDeletions_ok hf hstable hcons hsR hok
  have hrules' : m'.activeRules = (withoutRules (activeStrata m.programs) R).flatten :=
    congrArg List.flatten hactive'
  have hfilter : m'.activeRules = m.activeRules.filter (fun r => r ∉ R) := by
    rw [hrules', withoutRules_flatten]
    rfl
  have hmem := (RulePartitioner.orderRules_spec m'.activeRules).2 strata' horder'
  have hcongr : ∀ T, strataModel env (withoutRules (activeStrata m.programs) R) T =
      strataModel env strata' T := by
    intro T
    refine hsR.strataModel_congr hs' ?_ env T
    intro r
    rw [hmem, hrules']
  have hsafe' : ∀ r ∈ strata'.flatten, isSafeRule r = .ok () := by
    intro r hr
    have hr' := (hmem r).mp hr
    rw [hfilter, hrules] at hr'
    exact hsafe r (List.mem_of_mem_filter hr')
  have hcons'' : Consistent env strata'.flatten m'.base.quads := by
    intro r hr
    rw [hmem, hrules'] at hr
    exact hcons' r hr
  refine ⟨hfilter, ?_⟩
  rw [new_quads_eq_iff hf horder' hs' hsafe' hcons'', hquads, hcongr, hfresh,
    hs'.strataModel_eq_iff env]
  refine ⟨And.left, fun h => ⟨h, ?_⟩⟩
  have hE : {q | base.Extensional q} ⊆ m.ruleKept R :=
    fun q hq => extensional_mem_ruleKept ((hext q).1 hq)
  exact hE.trans (subset_strataModel env strata' _)

end Retraction

/-- The rule without a body that asserts `q`. -/
def factRule (q : Quad) : Rule Empty :=
  ⟨.normalHead (constantQuadPattern q), []⟩

theorem applyRuleDeletions_exact_iff_unary : ∃ m m' n,
    new .plain [unaryRule 2 [1] [], unaryRule 3 [1] []] (storeOf [unaryQuad 1 0]) = .ok m ∧
      applyRuleDeletions .plain m [unaryRule 2 [1] []] = .ok (m', n) ∧
      m'.activeRules = m.activeRules.filter (fun r => r ∉ [unaryRule 2 [1] []]) ∧
      ((∃ r, new .plain m'.activeRules (storeOf [unaryQuad 1 0]) = .ok r ∧
          r.base.quads = m'.base.quads) ↔
        m.ruleKept [unaryRule 2 [1] []] ⊆
          strataModel .plain [[unaryRule 3 [1] []]]
            {q | (storeOf [unaryQuad 1 0]).Extensional q}) := by
  obtain ⟨m, hnew, m', hok, hactive⟩ :
      ∃ m, new .plain [unaryRule 2 [1] [], unaryRule 3 [1] []] (storeOf [unaryQuad 1 0]) = .ok m ∧
        ∃ m', applyRuleDeletions .plain m [unaryRule 2 [1] []] = .ok m' ∧
          m'.1.activeRules = [unaryRule 3 [1] []] := by decide
  refine ⟨m, m'.1, m'.2, hnew, hok, ?_⟩
  have horder : (RulePartitioner.new [unaryRule 2 [1] [], unaryRule 3 [1] []]).orderRules =
      .ok [[unaryRule 2 [1] [], unaryRule 3 [1] []]] := by decide
  refine applyRuleDeletions_exact_iff ReasonerEnv.plain_fixedFilters horder
    (.of_clash (by decide)) hnew hok ?_ (.of_clash (by decide)) ?_
  · rw [hactive]
    decide
  · ext q
    rw [QuadStore.mem_quads, (extensional_storeOf _ q).1, Set.mem_ofPred_eq,
      (extensional_storeOf _ q).2]

/-- The quad of a retracted rule without a body stays. -/
theorem applyRuleDeletions_keeps_fact : ∃ m m' n r,
    new .plain [factRule (unaryQuad 1 0)] .new = .ok m ∧
      applyRuleDeletions .plain m [factRule (unaryQuad 1 0)] = .ok (m', n) ∧
      m'.activeRules = [] ∧ new .plain m'.activeRules .new = .ok r ∧
      unaryQuad 1 0 ∈ m'.base ∧ unaryQuad 1 0 ∉ r.base := by
  obtain ⟨m, hnew, m', hok, r, hr, hactive, hin, hout⟩ :
      ∃ m, new .plain [factRule (unaryQuad 1 0)] .new = .ok m ∧
        ∃ m', applyRuleDeletions .plain m [factRule (unaryQuad 1 0)] = .ok m' ∧
        ∃ r, new .plain m'.1.activeRules .new = .ok r ∧
          m'.1.activeRules = [] ∧ unaryQuad 1 0 ∈ m'.1.base ∧ unaryQuad 1 0 ∉ r.base := by decide
  exact ⟨m, m'.1, m'.2, r, hnew, hok, hactive, hr, hin, hout⟩

end IncrementalReasoner

end RdfDatalog.Datalog
