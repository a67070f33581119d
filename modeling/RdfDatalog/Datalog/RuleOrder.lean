import RdfDatalog.Datalog.RuleInsertion
import RdfDatalog.Datalog.AssertionStatus

namespace RdfDatalog.Datalog

open GroundProgram FallibleFold

variable {Expr : Type}

namespace IncrementalReasoner

section Reactivation

variable {env : ReasonerEnv Expr}

/-- Programs that differ in their derivation indexes only. -/
abbrev SameRules (ps ps' : List (DatalogProgram Expr)) : Prop :=
  List.Forall₂ (fun p p' => ∃ x, p' = p.withDerivedFrom x) ps ps'

theorem SameRules.refl (ps : List (DatalogProgram Expr)) : SameRules ps ps :=
  List.forall₂_same.mpr fun p _ => ⟨p.derivedFrom, rfl⟩

variable {ps ps' programs : List (DatalogProgram Expr)} {st : RuleInsertion Expr}
  {targets : List (Nat × Nat)}

theorem SameRules.trans {ps'' : List (DatalogProgram Expr)} (h : SameRules ps ps')
    (h' : SameRules ps' ps'') : SameRules ps ps'' := by
  induction h generalizing ps'' with
  | nil =>
    cases h'
    exact .nil
  | cons hp _ ih =>
    cases h' with
    | cons hp' hrest =>
      obtain ⟨x, rfl⟩ := hp
      obtain ⟨y, rfl⟩ := hp'
      exact .cons ⟨y, rfl⟩ (ih hrest)

theorem SameRules.modify_enableRule (h : SameRules ps ps') (t : Nat × Nat) :
    SameRules (ps.modify t.1 fun p => p.enableRule t.2)
      (ps'.modify t.1 fun p => p.enableRule t.2) := by
  refine List.forall₂_iff_get.mpr ⟨?_, ?_⟩
  · rw [List.length_modify, List.length_modify]
    exact h.length_eq
  · intro i hi hi'
    rw [List.length_modify] at hi hi'
    obtain ⟨x, hx⟩ := (List.forall₂_iff_get.mp h).2 i hi hi'
    simp only [List.get_eq_getElem] at hx
    simp only [List.get_eq_getElem, List.getElem_modify, hx]
    split_ifs
    · exact ⟨x, rfl⟩
    · exact ⟨x, rfl⟩

theorem SameRules.enableRules (h : SameRules ps ps') (targets : List (Nat × Nat)) :
    SameRules (enableRules targets ps) (enableRules targets ps') := by
  induction targets generalizing ps ps' with
  | nil => exact h
  | cons t targets ih => exact ih (h.modify_enableRule t)

variable {st' : RuleInsertion Expr}

theorem reactivateRule_programs {t : Nat × Nat} (h : reactivateRule env st t = .ok st') :
    SameRules (st.programs.modify t.1 fun p => p.enableRule t.2) st'.programs := by
  rw [reactivateRule] at h
  dsimp only at h
  have hsplit : (st.programs.modify t.1 fun p => p.enableRule t.2) =
      (st.programs.modify t.1 fun p => p.enableRule t.2).take t.1 ++
        (st.programs.modify t.1 fun p => p.enableRule t.2).drop t.1 :=
    (List.take_append_drop _ _).symm
  generalize (st.programs.modify t.1 fun p => p.enableRule t.2) = programs at h hsplit ⊢
  split at h
  · cases h
    exact SameRules.refl programs
  · rename_i p later hdrop
    rw [hdrop] at hsplit
    split at h
    · cases h
    · rename_i m hm
      split at h
      · cases h
      · rename_i s hs
        cases h
        rw [hsplit]
        have hpost : SameRules (p :: later) (s.cons p m).programs :=
          .cons ⟨m.derivedFrom, rfl⟩ (sweep_programs hs)
        rw [← hsplit]
        nth_rewrite 1 [hsplit]
        exact List.rel_append (SameRules.refl _) hpost

theorem foldlM_reactivateRule_programs (h : targets.foldlM (reactivateRule env) st = .ok st') :
    SameRules (enableRules targets st.programs) st'.programs := by
  induction targets generalizing st with
  | nil =>
    cases h
    exact SameRules.refl _
  | cons t targets ih =>
    rw [List.foldlM_cons] at h
    cases hstep : reactivateRule env st t with
    | error e => rw [hstep] at h; cases h
    | ok st₁ =>
      rw [hstep] at h
      exact ((reactivateRule_programs hstep).enableRules targets).trans (ih h)

theorem insertRules_programs {base : QuadStore} {strata : List (List (Rule Expr))}
    (h : insertRules env ⟨programs, base, [], []⟩ targets (strata.map DatalogProgram.ofRules) = .ok
      st) :
    activeStrata st.programs = activeStrata (enableRules targets programs) ++ strata := by
  rw [insertRules] at h
  split at h
  · cases h
  · rename_i st₁ hst₁
    split at h
    · cases h
    · rename_i s hs
      cases h
      have hsame := activeStrata_of_forall₂ (foldlM_reactivateRule_programs hst₁)
      have hfresh :=
        (activeStrata_of_forall₂ (sweep_programs hs)).trans (activeStrata_ofRules strata)
      rw [RuleInsertion.resume, List.take_length, activeStrata, List.map_append]
      exact congrArg₂ (· ++ ·) hsame hfresh

theorem getElem?_enableRules (targets : List (Nat × Nat)) (programs : List (DatalogProgram Expr))
    (i : Nat) : (enableRules targets programs)[i]? = programs[i]?.map fun p =>
      { p with disabledRules := p.disabledRules \
          ((targets.filter fun t => t.1 = i).map Prod.snd).toFinset } := by
  induction targets generalizing programs with
  | nil => simp [enableRules]
  | cons t targets ih =>
    have hstep := ih (programs.modify t.1 fun p => p.enableRule t.2)
    rw [enableRules, List.foldl_cons]
    refine hstep.trans ?_
    rw [List.getElem?_modify]
    cases programs[i]? with
    | none => rfl
    | some p =>
      by_cases h : t.1 = i
      · simp [h, DatalogProgram.enableRule, Finset.erase_sdiff_comm, Finset.sdiff_insert]
      · simp [h]

theorem mem_enableRules {i : Nat} {p : DatalogProgram Expr}
    (hp : (enableRules targets programs)[i]? = some p) {r : Rule Expr} (hr : r ∈ p.activeRules) :
    ∃ slot ∈ ruleSlots programs, slot.programIndex = i ∧ slot.rule = r ∧
      (slot.position ∈ targets ∨ slot.disabled = false) := by
  rw [getElem?_enableRules, Option.map_eq_some_iff] at hp
  obtain ⟨p₀, hp₀, rfl⟩ := hp
  obtain ⟨id, hid, hno⟩ := DatalogProgram.mem_activeRules.mp hr
  refine ⟨⟨i, id, r, p₀.isRuleDisabled id⟩, mem_ruleSlots.mpr ⟨p₀, hp₀, hid, rfl⟩, rfl, rfl, ?_⟩
  by_cases hdis : id ∈ p₀.disabledRules
  · refine .inl ?_
    have hmem : id ∈ ((targets.filter fun t => t.1 = i).map Prod.snd).toFinset := by
      by_contra hout
      exact hno (Finset.mem_sdiff.mpr ⟨hdis, hout⟩)
    obtain ⟨t, ht, rfl⟩ := List.mem_map.mp (List.mem_toFinset.mp hmem)
    obtain ⟨ht, hi⟩ := List.mem_filter.mp ht
    rw [← of_decide_eq_true hi]
    exact ht
  · exact .inr (decide_eq_false hdis)

end Reactivation

section Order

variable [DecidableEq Expr] {env : ReasonerEnv Expr} {m m' : IncrementalReasoner Expr}

/-- The places of the rules that are in force once the requested ones are reactivated. -/
def slotsInForce (m : IncrementalReasoner Expr) (newRules : List (Rule Expr)) :
    List (RuleSlot Expr) :=
  (ruleSlots m.programs).filter fun slot =>
    (requestedRules m.programs newRules).reactivate.contains slot.position || !slot.disabled

/-- A reactivated rule stands where its dependencies ask, no rule in force reads the head of a
fresh rule, and the fresh rules are ordered among themselves. -/
structure InsertionOrdered (env : ReasonerEnv Expr) (m : IncrementalReasoner Expr)
    (newRules : List (Rule Expr)) : Prop where
  placed : ∀ a ∈ slotsInForce m newRules, ∀ b ∈ slotsInForce m newRules,
    a.position ∈ (requestedRules m.programs newRules).reactivate ∨
      b.position ∈ (requestedRules m.programs newRules).reactivate →
    (FeedsPositive a.rule b.rule → a.programIndex ≤ b.programIndex) ∧
      (FeedsNegative a.rule b.rule → a.programIndex < b.programIndex)
  unread : ∀ r ∈ (requestedRules m.programs newRules).fresh, ∀ b ∈ slotsInForce m newRules,
    ¬ FeedsPositive r b.rule ∧ ¬ FeedsNegative r b.rule
  freshOrder : ∀ strata, (RulePartitioner.new
    (env.ruleOrder (requestedRules m.programs newRules).fresh)).orderRules = .ok strata →
      OrderedStrata strata

variable {newRules R : List (Rule Expr)} {n : Nat}

/-- The strata after a rule insertion: the old ones with the requested rules enabled, then the
strata of the fresh rules. -/
theorem applyRuleInsertions_strata (h : applyRuleInsertions env m newRules = .ok (m', n)) :
    ∃ strata, (strata = [] ∨ (RulePartitioner.new
        (env.ruleOrder (requestedRules m.programs newRules).fresh)).orderRules = .ok strata) ∧
      (∀ r ∈ strata.flatten, r ∈ (requestedRules m.programs newRules).fresh) ∧
      activeStrata m'.programs = activeStrata
        (enableRules (requestedRules m.programs newRules).reactivate m.programs) ++ strata := by
  rw [applyRuleInsertions] at h
  dsimp only at h
  split_ifs at h with hempty hnothing
  · cases h
    rw [List.isEmpty_iff.mp hempty]
    exact ⟨[], .inl rfl, by simp, (List.append_nil _).symm⟩
  · cases h
    obtain ⟨hreact, -⟩ := Bool.and_eq_true_iff.mp hnothing
    rw [List.isEmpty_iff.mp hreact]
    exact ⟨[], .inl rfl, by simp, (List.append_nil _).symm⟩
  · split at h
    · cases h
    · rename_i programs hprograms
      split at h
      · cases h
      · rename_i st hst
        cases h
        obtain ⟨strata, hmem, horder, -, rfl⟩ := freshPrograms_ok hprograms
        refine ⟨strata, horder, ?_, insertRules_programs hst⟩
        intro r hr
        exact (env.ruleOrder_perm _).mem_iff.mp ((hmem r).mp hr)

theorem applyRuleInsertions_validOrder (hvalid : ValidOrder (activeStrata m.programs))
    (hsound : InsertionOrdered env m newRules)
    (h : applyRuleInsertions env m newRules = .ok (m', n)) :
    ValidOrder (activeStrata m'.programs) := by
  obtain ⟨strata, horder, hfresh, hprograms⟩ := applyRuleInsertions_strata h
  have hslot : ∀ (i : Nat) (A : List (Rule Expr)), (activeStrata (enableRules
      (requestedRules m.programs newRules).reactivate m.programs))[i]? = some A → ∀ r ∈ A,
      ∃ slot ∈ slotsInForce m newRules, slot.programIndex = i ∧ slot.rule = r := by
    intro i A hA r hr
    rw [activeStrata, List.getElem?_map, Option.map_eq_some_iff] at hA
    obtain ⟨p, hp, rfl⟩ := hA
    obtain ⟨slot, hslot, hi, hrule, hforce⟩ := mem_enableRules hp hr
    refine ⟨slot, List.mem_filter.mpr ⟨hslot, ?_⟩, hi, hrule⟩
    rw [Bool.or_eq_true, List.contains_iff_mem, Bool.not_eq_true']
    exact hforce
  have hold : ∀ slot ∈ slotsInForce m newRules,
      slot.position ∉ (requestedRules m.programs newRules).reactivate →
      ∃ A, (activeStrata m.programs)[slot.programIndex]? = some A ∧ slot.rule ∈ A := by
    intro slot hslot hno
    obtain ⟨hslot, hforce⟩ := List.mem_filter.mp hslot
    rw [Bool.or_eq_true, List.contains_iff_mem, Bool.not_eq_true'] at hforce
    have hdis := hforce.resolve_left hno
    obtain ⟨p, hp, hr, hd⟩ := mem_ruleSlots.mp hslot
    rw [hdis, eq_comm, DatalogProgram.isRuleDisabled, decide_eq_false_iff_not] at hd
    refine ⟨p.activeRules, ?_, DatalogProgram.mem_activeRules.mpr ⟨slot.ruleId, hr, hd⟩⟩
    rw [activeStrata, List.getElem?_map, hp]
    rfl
  have henabled : ValidOrder (activeStrata (enableRules
      (requestedRules m.programs newRules).reactivate m.programs)) := by
    intro i j A B hA hB a ha b hb
    obtain ⟨sa, hsa, rfl, rfl⟩ := hslot i A hA a ha
    obtain ⟨sb, hsb, rfl, rfl⟩ := hslot j B hB b hb
    by_cases hre : sa.position ∈ (requestedRules m.programs newRules).reactivate ∨
        sb.position ∈ (requestedRules m.programs newRules).reactivate
    · exact hsound.placed sa hsa sb hsb hre
    · rw [not_or] at hre
      obtain ⟨A', hA', ha'⟩ := hold sa hsa hre.1
      obtain ⟨B', hB', hb'⟩ := hold sb hsb hre.2
      exact hvalid _ _ A' B' hA' hB' _ ha' _ hb'
  rw [validOrder_iff] at henabled ⊢
  have hs : OrderedStrata strata := by
    rcases horder with rfl | horder
    · exact ⟨by simp, .nil⟩
    · exact hsound.freshOrder strata horder
  rw [hprograms]
  constructor
  · intro rules hrules
    rcases List.mem_append.mp hrules with hrules | hrules
    · exact henabled.negation rules hrules
    · exact hs.negation rules hrules
  · refine List.pairwise_append.mpr ⟨henabled.order, hs.order, ?_⟩
    intro A hA B hB a ha b hb
    obtain ⟨i, hi⟩ := List.mem_iff_getElem?.mp hA
    obtain ⟨slot, hslot, -, rfl⟩ := hslot i A hi a ha
    exact hsound.unread b (hfresh b (List.mem_flatten.mpr ⟨B, hB, hb⟩)) slot hslot

theorem applyRuleDeletions_strata (h : applyRuleDeletions env m R = .ok (m', n)) :
    activeStrata m'.programs = withoutRules (activeStrata m.programs) R := by
  rw [applyRuleDeletions] at h
  dsimp only at h
  split_ifs at h with hempty hnone hfall
  · cases h
    refine (withoutRules_of_noTarget ?_).symm
    rw [List.isEmpty_iff.mp hempty, List.eq_nil_iff_forall_not_mem]
    rintro ⟨i, id⟩ hmem
    obtain ⟨_, _, _, _, hR⟩ := mem_deletionTargets.mp hmem
    cases hR
  · cases h
    exact (withoutRules_of_noTarget (List.isEmpty_iff.mp hnone)).symm
  · rw [← activeStrata_disableRules]
    rw [fullRematerialiseRules] at h
    split at h
    · cases h
    · rename_i s hs
      cases h
      exact activeStrata_of_forall₂ (sweep_programs hs)
  · rw [← activeStrata_disableRules]
    rw [forwardPhaseRules] at h
    split at h
    · cases h
    · rename_i s hs
      cases h
      exact rederive_strata hs

/-- A rule deletion disables rules and changes nothing else in the programs but their derivation
indexes. -/
theorem applyRuleDeletions_programs (h : applyRuleDeletions env m R = .ok (m', n)) :
    SameRules (disableRules (deletionTargets m.programs R) m.programs) m'.programs := by
  have hnone (hnil : deletionTargets m.programs R = []) :
      SameRules (disableRules (deletionTargets m.programs R) m.programs) m.programs := by
    rw [hnil]
    exact SameRules.refl m.programs
  rw [applyRuleDeletions] at h
  dsimp only at h
  split_ifs at h with hempty hno hfall
  · cases h
    refine hnone ?_
    rw [List.isEmpty_iff.mp hempty, List.eq_nil_iff_forall_not_mem]
    rintro ⟨i, id⟩ hmem
    obtain ⟨_, _, _, _, hR⟩ := mem_deletionTargets.mp hmem
    cases hR
  · cases h
    exact hnone (List.isEmpty_iff.mp hno)
  · rw [fullRematerialiseRules] at h
    split at h
    · cases h
    · rename_i s hs
      cases h
      exact sweep_programs hs
  · rw [forwardPhaseRules] at h
    split at h
    · cases h
    · rename_i s hs
      cases h
      have hretract := foldl_retract_programs
        { m with programs := disableRules (deletionTargets m.programs R) m.programs }
        (env.quadOrder (backwardPhaseFromRuleRemoval m (deletionTargets m.programs R)))
      exact SameRules.trans hretract (sweep_programs hs)

omit [DecidableEq Expr] in
theorem ruleSlots_of_sameRules {ps ps' : List (DatalogProgram Expr)} (h : SameRules ps ps') :
    ruleSlots ps = ruleSlots ps' := by
  have hfrom (n : Nat) : (ps.zipIdx n).flatMap (fun e => e.1.rules.zipIdx.map fun x =>
        (⟨e.2, x.2, x.1, e.1.isRuleDisabled x.2⟩ : RuleSlot Expr)) =
      (ps'.zipIdx n).flatMap (fun e => e.1.rules.zipIdx.map fun x =>
        ⟨e.2, x.2, x.1, e.1.isRuleDisabled x.2⟩) := by
    induction h generalizing n with
    | nil => rfl
    | cons hp _ ih =>
      obtain ⟨x, rfl⟩ := hp
      rw [List.zipIdx_cons, List.zipIdx_cons, List.flatMap_cons, List.flatMap_cons, ih]
      rfl
  exact hfrom 0

/-- A run of successful changes of the rules, in which each insertion is ordered. -/
inductive OrderedRun (env : ReasonerEnv Expr) (m₀ : IncrementalReasoner Expr) :
    IncrementalReasoner Expr → Prop
  | start : OrderedRun env m₀ m₀
  | insert {m m' : IncrementalReasoner Expr} {rules : List (Rule Expr)} {n : Nat} :
    OrderedRun env m₀ m → InsertionOrdered env m rules →
      applyRuleInsertions env m rules = .ok (m', n) → OrderedRun env m₀ m'
  | delete {m m' : IncrementalReasoner Expr} {rules : List (Rule Expr)} {n : Nat} :
    OrderedRun env m₀ m → applyRuleDeletions env m rules = .ok (m', n) → OrderedRun env m₀ m'

omit [DecidableEq Expr] in
theorem rebuildFromBase_ok (hf : env.FixedFilters) (hs : OrderedStrata (activeStrata m.programs))
    (h : rebuildFromBase env m = .ok m') :
    m'.base.quads = strataModel env (activeStrata m.programs) {q | m.base.Extensional q} := by
  rw [rebuildFromBase] at h
  split at h
  · cases h
  · rename_i s hs'
    cases h
    have hreset : activeStrata (m.programs.map fun p => p.withDerivedFrom .new) =
        activeStrata m.programs := by
      rw [activeStrata, List.map_map]
      rfl
    have hquads := (materialiseAll_ok hf (hreset.symm ▸ hs) hs').1
    rw [hreset] at hquads
    have hbase : (assertedOnly m.base).quads = {q | m.base.Extensional q} := by
      ext q
      exact (extensional_assertedOnly m.base q).1
    rw [hbase] at hquads
    exact hquads

/-- In a run whose insertions are ordered the program order stays valid, so one pass over the
programs in that order computes the closure. -/
theorem OrderedRun.validOrder {m₀ : IncrementalReasoner Expr} (h : OrderedRun env m₀ m)
    (hvalid : ValidOrder (activeStrata m₀.programs)) :
    ValidOrder (activeStrata m.programs) ∧ (env.FixedFilters →
      (∀ m', rebuildFromBase env m = .ok m' →
        IsStable (clausesOf env m.activeRules) {q | m.base.Extensional q} m'.base.quads) ∧
      (∀ deletes m' n, fullRematerialise env m deletes = .ok (m', n) →
        IsStable (clausesOf env m.activeRules) (remaining m.base deletes) m'.base.quads) ∧
      ∀ R m' n, fullRematerialiseRules env m (deletionTargets m.programs R) = .ok (m', n) →
        IsStable (clausesOf env (m.activeRules.filter fun r => r ∉ R))
          {q | m.base.Extensional q} m'.base.quads) := by
  have horder : ValidOrder (activeStrata m.programs) := by
    induction h with
    | start => exact hvalid
    | insert _ hsound happly ih => exact applyRuleInsertions_validOrder ih hsound happly
    | delete _ happly ih =>
      rw [applyRuleDeletions_strata happly, validOrder_iff]
      exact (validOrder_iff.mp ih).withoutRules _
  have hs := validOrder_iff.mp horder
  refine ⟨horder, fun hf => ⟨?_, ?_, ?_⟩⟩
  · intro m' hok
    rw [rebuildFromBase_ok hf hs hok]
    exact hs.strataModel_isStable env _
  · intro deletes m' n hok
    rw [fullRematerialise] at hok
    split at hok
    · cases hok
    · rename_i s hrun
      cases hok
      rw [(fullRematerialise_quads hf hs hrun).1]
      exact hs.strataModel_isStable env _
  · intro R m' n hok
    have hsR := hs.withoutRules R
    rw [(fullRematerialiseRules_ok hf hsR hok).2.2.1]
    have hstable := hsR.strataModel_isStable env {q | m.base.Extensional q}
    rw [withoutRules_flatten] at hstable
    exact hstable

end Order

theorem InsertionOrdered.of_clash {m : IncrementalReasoner Empty} {newRules : List (Rule Empty)}
    (hnone : (requestedRules m.programs newRules).reactivate = [])
    (h : insertionClash .plain m newRules = true)
    (hfresh : ∀ r ∈ (requestedRules m.programs newRules).fresh, r ∉ m.activeRules ∧ r ∈ newRules) :
    InsertionOrdered .plain m newRules := by
  have hsound := InsertionSound.of_clash h
  constructor
  · intro a _ b _ hre
    rw [hnone] at hre
    exact absurd hre (by simp)
  · intro r hr slot hslot
    obtain ⟨hslot, hforce⟩ := List.mem_filter.mp hslot
    rw [hnone] at hforce
    have hactive : slot.rule ∈ m.activeRules := mem_active_of_slot hslot (by simpa using hforce)
    refine hsound.downstream r (hfresh r hr).2 (hfresh r hr).1 slot.rule
      (List.mem_append_left _ hactive) ?_
    rintro rfl
    exact (hfresh _ hr).1 hactive
  · exact hsound.freshOrder

theorem OrderedRun.validOrder_unary : ∃ m₀ m m' n n',
    new .plain [unaryRule 2 [1] []] (storeOf [unaryQuad 1 0]) = .ok m₀ ∧
      applyRuleInsertions .plain m₀ [unaryRule 3 [2] []] = .ok (m, n) ∧
      applyRuleDeletions .plain m [unaryRule 2 [1] []] = .ok (m', n') ∧
      ValidOrder (activeStrata m'.programs) := by
  obtain ⟨m₀, hnew, hclash, hclash', hnone, hfresh, m, hins, hok⟩ :
      ∃ m₀, new .plain [unaryRule 2 [1] []] (storeOf [unaryQuad 1 0]) = .ok m₀ ∧
        strataClash (activeStrata m₀.programs) = true ∧
        insertionClash .plain m₀ [unaryRule 3 [2] []] = true ∧
        (requestedRules m₀.programs [unaryRule 3 [2] []]).reactivate = [] ∧
        (∀ r ∈ (requestedRules m₀.programs [unaryRule 3 [2] []]).fresh,
          r ∉ m₀.activeRules ∧ r ∈ [unaryRule 3 [2] []]) ∧
        ∃ m, applyRuleInsertions .plain m₀ [unaryRule 3 [2] []] = .ok m ∧
          (applyRuleDeletions .plain m.1 [unaryRule 2 [1] []]).toBool = true := by decide
  obtain ⟨⟨m', n'⟩, hdel⟩ := exists_ok_of_toBool hok
  have hrun₁ : OrderedRun .plain m₀ m' :=
    .delete (.insert .start (.of_clash hnone hclash' hfresh) hins) hdel
  exact ⟨m₀, m.1, m', m.2, n', hnew, hins, hdel,
    (OrderedRun.validOrder hrun₁ (validOrder_iff.mpr (.of_clash hclash))).1⟩

set_option synthInstance.maxSize 256 in
/-- A rule that is retracted and comes back keeps its place, before the rule that was inserted in
the meantime and whose head it reads. -/
theorem applyRuleInsertions_misplaces : ∃ m₀ m₁ m₂ m₃ n₁ n₂ n₃,
    new .plain [unaryRule 5 [4] []] (storeOf [unaryQuad 3 0]) = .ok m₀ ∧
      ValidOrder (activeStrata m₀.programs) ∧
      applyRuleDeletions .plain m₀ [unaryRule 5 [4] []] = .ok (m₁, n₁) ∧
      applyRuleInsertions .plain m₁ [unaryRule 4 [3] []] = .ok (m₂, n₂) ∧
      applyRuleInsertions .plain m₂ [unaryRule 5 [4] []] = .ok (m₃, n₃) ∧
      ¬ ValidOrder (activeStrata m₃.programs) := by
  obtain ⟨m₀, hnew, hclash, m₁, hdel, m₂, hins, m₃, hback, hstrata⟩ :
      ∃ m₀, new .plain [unaryRule 5 [4] []] (storeOf [unaryQuad 3 0]) = .ok m₀ ∧
        strataClash (activeStrata m₀.programs) = true ∧
        ∃ m₁, applyRuleDeletions .plain m₀ [unaryRule 5 [4] []] = .ok m₁ ∧
        ∃ m₂, applyRuleInsertions .plain m₁.1 [unaryRule 4 [3] []] = .ok m₂ ∧
        ∃ m₃, applyRuleInsertions .plain m₂.1 [unaryRule 5 [4] []] = .ok m₃ ∧
          activeStrata m₃.1.programs = [[unaryRule 5 [4] []], [unaryRule 4 [3] []]] := by decide
  refine ⟨m₀, m₁.1, m₂.1, m₃.1, m₁.2, m₂.2, m₃.2, hnew,
    validOrder_iff.mpr (.of_clash hclash), hdel, hins, hback, ?_⟩
  rw [hstrata]
  intro hvalid
  have hfeeds : FeedsPositive (unaryRule 4 [3] []) (unaryRule 5 [4] []) := by
    have hmatch : Matches emptySubstitution (unaryPattern 4) (unaryQuad 4 0) :=
      getSubstitutions_isSome.mp (by decide)
    exact ⟨unaryPattern 4, rfl, unaryPattern 4, by simp [unaryRule], _, hmatch, hmatch⟩
  have hle := (hvalid 1 0 _ _ rfl rfl _ (.head _) _ (.head _)).1 hfeeds
  omega

end IncrementalReasoner

end RdfDatalog.Datalog
