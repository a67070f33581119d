import RdfDatalog.Datalog.FailedRuleUpdates

namespace RdfDatalog.Datalog

open FallibleFold DatalogProgram

variable {Expr : Type} {env : ReasonerEnv Expr}

theorem StatusStep.mono {rules rules' : List (Rule Expr)} {base base' : QuadStore}
    (h : StatusStep rules base base') (hsub : ∀ r ∈ rules, r ∈ rules') :
    StatusStep rules' base base' := by
  refine ⟨h.stored, h.keeps, fun q hq => ?_⟩
  rcases h.adds q hq with hq | ⟨r, hr, hb, hh⟩
  · exact .inl hq
  · exact .inr ⟨r, hsub r hr, hb, hh⟩

theorem StatusStep.trans {rules : List (Rule Expr)} {base base' base'' : QuadStore}
    (h : StatusStep rules base base') (h' : StatusStep rules base' base'') :
    StatusStep rules base base'' :=
  (h.append h').mono fun _ hr => (List.mem_append.mp hr).elim id id

theorem StatusStep.of_assertedOnly {rules : List (Rule Expr)} {base base' : QuadStore}
    (h : StatusStep rules (assertedOnly base) base') (q : Quad) :
    (base.Extensional q → base'.Extensional q) ∧
      (base'.Extensional q → base.Extensional q ∨ q ∈ factHeads rules) := by
  have hbase := (IncrementalReasoner.extensional_assertedOnly base q).2
  exact ⟨fun hq => h.keeps q (hbase.mpr hq), fun hq => (h.adds q hq).imp_left hbase.mp⟩

namespace IncrementalReasoner

section Insertion

variable {all : List (Rule Expr)}

/-- Every rule in force is one of `all`. -/
def Within (all : List (Rule Expr)) (programs : List (DatalogProgram Expr)) : Prop :=
  ∀ r ∈ (activeStrata programs).flatten, r ∈ all

theorem Within.rules {programs : List (DatalogProgram Expr)} (h : Within all programs)
    {p : DatalogProgram Expr} (hp : p ∈ programs) : ∀ r ∈ p.activeRules, r ∈ all :=
  fun r hr => h r (mem_activeStrata_flatten.mpr ⟨p, hp, hr⟩)

theorem Within.modify_enableRule {programs : List (DatalogProgram Expr)}
    (h : Within all programs) {t : Nat × Nat}
    (ht : ∀ r, RuleAt (ruleTable programs) t r → r ∈ all) :
    Within all (programs.modify t.1 fun p => p.enableRule t.2) := by
  intro r hr
  obtain ⟨p', hp', hr⟩ := mem_activeStrata_flatten.mp hr
  obtain ⟨i, hi⟩ := List.mem_iff_getElem?.mp hp'
  rw [List.getElem?_modify, Option.map_eq_map, Option.map_eq_some_iff] at hi
  obtain ⟨p, hp, hi⟩ := hi
  have hold := h.rules (List.mem_of_getElem? hp)
  split_ifs at hi with heq
  · subst heq hi
    cases hid : p.rules[t.2]? with
    | none =>
      obtain ⟨id, hrule, henabled⟩ := mem_activeRules.mp hr
      refine hold r (mem_activeRules.mpr ⟨id, hrule, ?_⟩)
      intro hdis
      refine henabled (Finset.mem_erase.mpr ⟨?_, hdis⟩)
      rintro rfl
      rw [show p.rules[t.2]? = some r from hrule] at hid
      cases hid
    | some r' =>
      rcases (mem_activeRules_enableRule hid).mp hr with hr | rfl
      · exact hold r hr
      · refine ht r ⟨p.rules, ?_, hid⟩
        rw [ruleTable, List.getElem?_map, hp]
        rfl
  · cases hi
    exact hold r hr

theorem ruleTable_modify_enableRule (programs : List (DatalogProgram Expr)) (t : Nat × Nat) :
    ruleTable (programs.modify t.1 fun p => p.enableRule t.2) = ruleTable programs := by
  apply List.ext_getElem?
  intro i
  rw [ruleTable, ruleTable, List.getElem?_map, List.getElem?_modify, List.getElem?_map]
  cases programs[i]? with
  | none => rfl
  | some p =>
    simp only [Option.map_some]
    split_ifs
    · rfl
    · rfl

theorem feedForward_status {delta : List Quad} {later : List (DatalogProgram Expr)}
    {base : QuadStore} {s : Sweep Expr} (hdelta : ∀ q ∈ delta, q ∈ base)
    (h : feedForward env delta later base = .ok s) :
    StatusStep (activeStrata later).flatten base s.base := by
  refine sweep_status (fun hdelta hm => ?_) hdelta h
  split_ifs at hm
  · cases hm
    exact ⟨⟨fun _ hq => hq, fun _ hq => hq, fun _ hq => .inl hq⟩, List.forall_mem_nil _⟩
  · exact materialiseSeminaiveTrackedFromFacts_status hdelta hm

theorem reactivateRule_status {st st' : RuleInsertion Expr} {t : Nat × Nat}
    (hall : Within all st.programs) (ht : ∀ r, RuleAt (ruleTable st.programs) t r → r ∈ all)
    (h : reactivateRule env st t = .ok st') :
    StatusStep all st.base st'.base ∧ Within all st'.programs ∧
      ruleTable st'.programs = ruleTable st.programs := by
  rw [reactivateRule] at h
  dsimp only at h
  have hwithin := hall.modify_enableRule ht
  have htable := ruleTable_modify_enableRule st.programs t
  generalize (st.programs.modify t.1 fun p => p.enableRule t.2) = ps at h hwithin htable
  have hsplit : ps = ps.take t.1 ++ ps.drop t.1 := (List.take_append_drop _ _).symm
  cases hdrop : ps.drop t.1 with
  | nil =>
    rw [hdrop] at h
    cases h
    exact ⟨⟨fun _ hq => hq, fun _ hq => hq, fun _ hq => .inl hq⟩, hwithin, htable⟩
  | cons p later =>
    rw [hdrop] at h hsplit
    dsimp only at h
    cases hm : p.materialiseSeminaiveTracked env st.base with
    | error e => rw [hm] at h; cases h
    | ok m =>
      rw [hm] at h
      dsimp only at h
      split at h
      · cases h
      · next s hs =>
        cases h
        obtain ⟨hfirst, htrack⟩ := materialiseSeminaiveTracked_status hm
        have hdelta : ∀ q ∈ m.track.map Prod.fst, q ∈ m.base := by
          intro q hq
          obtain ⟨e, he, rfl⟩ := List.mem_map.mp hq
          exact htrack e he
        have hrest := feedForward_status hdelta hs
        have hin : ∀ p' ∈ p :: later, p' ∈ ps := by
          intro p' hp'
          rw [hsplit]
          exact List.mem_append_right _ hp'
        have hlater : ∀ r ∈ (activeStrata later).flatten, r ∈ all := by
          intro r hr
          obtain ⟨p', hp', hr⟩ := mem_activeStrata_flatten.mp hr
          exact hwithin.rules (hin p' (.tail p hp')) r hr
        have hsame : List.Forall₂ (fun p p' => ∃ x, p' = p.withDerivedFrom x) ps
            (ps.take t.1 ++ p.withDerivedFrom m.derivedFrom :: s.programs) := by
          nth_rewrite 1 [hsplit]
          exact List.rel_append (List.forall₂_same.mpr fun p _ => ⟨p.derivedFrom, rfl⟩)
            (.cons ⟨_, rfl⟩ (sweep_programs hs))
        refine ⟨(hfirst.mono (hwithin.rules (hin p (.head later)))).trans (hrest.mono hlater), ?_,
          (ruleTable_of_forall₂ hsame).trans htable⟩
        intro r hr
        refine hwithin r ?_
        rw [← activeStrata_of_forall₂ hsame]
        exact hr

theorem insertRules_status {st st' : RuleInsertion Expr} {targets : List (Nat × Nat)}
    {fresh : List (DatalogProgram Expr)} (hall : Within all st.programs)
    (htargets : ∀ t ∈ targets, ∀ r, RuleAt (ruleTable st.programs) t r → r ∈ all)
    (hfresh : Within all fresh) (h : insertRules env st targets fresh = .ok st') :
    StatusStep all st.base st'.base := by
  have hrun : ∀ (targets : List (Nat × Nat)) (st st' : RuleInsertion Expr),
      Within all st.programs →
      (∀ t ∈ targets, ∀ r, RuleAt (ruleTable st.programs) t r → r ∈ all) →
      targets.foldlM (reactivateRule env) st = .ok st' → StatusStep all st.base st'.base := by
    intro targets
    induction targets with
    | nil =>
      intro st st' _ _ h
      cases h
      exact ⟨fun _ hq => hq, fun _ hq => hq, fun _ hq => .inl hq⟩
    | cons t targets ih =>
      intro st st' hall htargets h
      rw [List.foldlM_cons] at h
      cases hst : reactivateRule env st t with
      | error e => rw [hst] at h; cases h
      | ok st₁ =>
        rw [hst] at h
        obtain ⟨hstep, hall', htable⟩ := reactivateRule_status hall (htargets t (.head _)) hst
        refine hstep.trans (ih st₁ st' hall' ?_ h)
        rw [htable]
        exact fun t' ht' => htargets t' (.tail t ht')
  rw [insertRules] at h
  cases hfold : targets.foldlM (reactivateRule env) st with
  | error e => rw [hfold] at h; cases h
  | ok st₁ =>
    rw [hfold] at h
    dsimp only at h
    split at h
    · cases h
    · next s hs =>
      cases h
      exact (hrun targets st st₁ hall htargets hfold).trans ((materialiseAll_status hs).mono hfresh)

variable [DecidableEq Expr] {m m' : IncrementalReasoner Expr} {n : Nat}

theorem applyRuleInsertions_status {newRules : List (Rule Expr)}
    (h : applyRuleInsertions env m newRules = .ok (m', n)) :
    StatusStep (m.activeRules ++ newRules) m.base m'.base := by
  have hspec : RequestedSpec m.programs newRules ⟨[], []⟩ (requestedRules m.programs newRules) :=
    requestedRules_spec m.programs newRules ⟨[], []⟩
  have hsame : StatusStep (m.activeRules ++ newRules) m.base m.base :=
    ⟨fun _ hq => hq, fun _ hq => hq, fun _ hq => .inl hq⟩
  rw [applyRuleInsertions] at h
  dsimp only at h
  split_ifs at h
  · cases h
    exact hsame
  · cases h
    exact hsame
  · split at h
    · cases h
    · rename_i programs hprograms
      split at h
      · cases h
      · rename_i st hst
        cases h
        obtain ⟨strata, hmem, -, -, rfl⟩ := freshPrograms_ok hprograms
        refine insertRules_status (fun r hr => List.mem_append_left _ hr) ?_ ?_ hst
        · intro t ht r hr
          obtain ⟨slot, hslot, hin, rfl⟩ :=
            (hspec.reactivate t ht).resolve_left List.not_mem_nil
          rw [← (RuleAt.of_slot hslot).unique hr]
          exact List.mem_append_right _ hin
        · intro r hr
          rw [activeStrata_ofRules, hmem, (env.ruleOrder_perm _).mem_iff] at hr
          exact List.mem_append_right _ ((hspec.fresh r hr).resolve_left List.not_mem_nil).1

end Insertion

section Deletion

variable [DecidableEq Expr] {m m' : IncrementalReasoner Expr} {n : Nat}

theorem applyRuleDeletions_status {R : List (Rule Expr)}
    (h : applyRuleDeletions env m R = .ok (m', n)) (q : Quad) :
    (m.base.Extensional q → m'.base.Extensional q) ∧
      (m'.base.Extensional q → m.base.Extensional q ∨
        q ∈ factHeads (m.activeRules.filter fun r => r ∉ R)) := by
  have hactive : (activeStrata (disableRules (deletionTargets m.programs R) m.programs)).flatten =
      m.activeRules.filter fun r => r ∉ R := by
    rw [activeStrata_disableRules, withoutRules_flatten]
    rfl
  rw [applyRuleDeletions] at h
  dsimp only at h
  split_ifs at h
  · cases h
    exact ⟨id, .inl⟩
  · cases h
    exact ⟨id, .inl⟩
  · rw [fullRematerialiseRules] at h
    split at h
    · cases h
    · rename_i s hs
      cases h
      have hstep := materialiseAll_status (materialiseReset_eq_ok hs)
      have hreset (ps : List (DatalogProgram Expr)) :
          activeStrata (ps.map fun p => p.withDerivedFrom .new) = activeStrata ps := by
        rw [activeStrata, List.map_map]
        rfl
      rw [hreset, hactive] at hstep
      exact hstep.of_assertedOnly q
  · rw [forwardPhaseRules] at h
    split at h
    · cases h
    · rename_i s hs
      cases h
      obtain ⟨hkeep, hadd⟩ := rederive_status hs q
      dsimp only at hkeep hadd
      rw [hactive] at hadd
      constructor
      · intro hq
        refine hkeep hq fun hmem => ?_
        have hsuspect :=
          mem_backwardPhaseFromRuleRemoval.mp ((env.quadOrder_perm _).mem_iff.mp hmem)
        exact hsuspect.not_extensional hq
      · exact fun hq => (hadd hq).imp_left And.left

end Deletion

theorem new_status [DecidableEq Expr] {rules : List (Rule Expr)} {base : QuadStore}
    {m : IncrementalReasoner Expr} (h : new env rules base = .ok m) :
    StatusStep rules base m.base := by
  rw [new] at h
  cases horder : (RulePartitioner.new rules).orderRules with
  | error f => rw [horder] at h; cases h
  | ok strata =>
    rw [horder] at h
    dsimp only at h
    cases hprograms : strata.mapM DatalogProgram.new with
    | error e => rw [hprograms] at h; cases h
    | ok programs =>
      rw [hprograms] at h
      dsimp only at h
      split at h
      · cases h
      · next s hs =>
        cases h
        obtain ⟨-, rfl⟩ := mapM_new_eq_ok_iff.mp hprograms
        have hmem := (RulePartitioner.orderRules_spec rules).2 strata horder
        refine (materialiseAll_status hs).mono fun r hr => ?_
        rw [activeStrata_ofRules, hmem] at hr
        exact hr

end IncrementalReasoner

end RdfDatalog.Datalog
