import RdfDatalog.Datalog.FailedRuns
import RdfDatalog.Datalog.RuleOrder

namespace RdfDatalog

open FallibleFold Datalog QuadStore

/-- The store was only appended to, and what was stored kept its flag. -/
structure QuadStore.Grown (base base' : QuadStore) : Prop where
  isPrefix : base.quadList <+: base'.quadList
  status : ∀ q ∈ base, base'.Extensional q ↔ base.Extensional q

namespace QuadStore.Grown

variable {base base' base'' : QuadStore}

theorem refl (base : QuadStore) : base.Grown base := ⟨List.prefix_rfl, fun _ _ => Iff.rfl⟩

theorem trans (h : base.Grown base') (h' : base'.Grown base'') : base.Grown base'' :=
  ⟨h.isPrefix.trans h'.isPrefix,
    fun q hq => (h'.status q (h.isPrefix.subset hq)).trans (h.status q hq)⟩

theorem foldl_addQuad (base : QuadStore) (quads : List Quad) :
    base.Grown (quads.foldl QuadStore.addQuad base) := by
  refine ⟨base.quadList_isPrefix_foldl_addQuad quads, fun q hq => ?_⟩
  rw [IncrementalReasoner.extensional_foldl_addQuad]
  exact or_iff_left_of_imp fun hnew => ⟨hq, hnew.2⟩

theorem derive (m : Materialisation) (q : Quad) (d : Derivation) :
    m.base.Grown (m.derive q d).base := by
  refine ⟨?_, fun x _ => m.extensional_derive x q d⟩
  rw [m.quadList_derive]
  split_ifs
  · exact List.prefix_rfl
  · exact List.prefix_append _ _

theorem truncateTo (h : base.Grown base') (q : Quad) :
    (base'.truncateTo base.table.quadCount).Extensional q ↔ base.Extensional q := by
  have hmem : q ∈ base'.truncateTo base.table.quadCount ↔ q ∈ base := by
    rw [← mem_quadList, quadList_truncateTo,
      take_quadCount h.isPrefix, mem_quadList]
  rw [QuadStore.Extensional, hmem, derived_truncateTo,
    take_quadCount h.isPrefix, mem_quadList]
  constructor
  · rintro ⟨hq, hno⟩
    exact (h.status q hq).mp ⟨h.isPrefix.subset hq, fun hd => hno ⟨hd, hq⟩⟩
  · intro hq
    exact ⟨hq.1, fun hd => ((h.status q hq.1).mpr hq).2 hd.1⟩

end QuadStore.Grown

namespace Datalog

variable {Expr : Type}

section Grown

theorem Materialisation.Derives.grown {m m' : Materialisation} (h : m.Derives m') :
    m.base.Grown m'.base := by
  obtain ⟨entries, rfl⟩ := h
  induction entries generalizing m with
  | nil => exact .refl m.base
  | cons e entries ih => exact (QuadStore.Grown.derive m e.1 e.2).trans (@ih (m.derive e.1 e.2))

theorem RunsOn.grown {ps : List (DatalogProgram Expr)} {base : QuadStore} {s : Sweep Expr}
    (h : RunsOn ps base s) : base.Grown s.base := by
  induction h with
  | start ps base => exact .refl base
  | @cons p ps base m s hran _ ih =>
    obtain ⟨added, hderives⟩ := hran
    exact ((QuadStore.Grown.foldl_addQuad base added).trans hderives.grown).trans ih

theorem rederive_grown (env : ReasonerEnv Expr) (m : IncrementalReasoner Expr) (pd : List Quad) :
    (pd.foldl IncrementalReasoner.retract m).base.Grown
      (reached (IncrementalReasoner.rederive env m pd)).base :=
  (materialiseAll_runsOn env _ _).grown

theorem insertRules_grown (env : ReasonerEnv Expr) (st : IncrementalReasoner.RuleInsertion Expr)
    (targets : List (Nat × Nat)) (fresh : List (DatalogProgram Expr)) :
    st.base.Grown (reached (IncrementalReasoner.insertRules env st targets fresh)).base := by
  have hinsert := IncrementalReasoner.insertRules_runsOn env
    (I := fun st' => st.base.Grown st'.base) (fun _ t (_ : t ∈ targets) _ hst hs =>
      hst.trans hs.grown)
    (.refl st.base) fresh
  rcases hinsert with h | ⟨st', s, hst, hs, heq⟩
  · exact h
  · rw [heq]
    exact hst.trans hs.grown

end Grown

namespace IncrementalReasoner

section SameRules

variable {materialise : List Quad → DatalogProgram Expr → QuadStore →
  Outcome Expr Materialisation} {ps ps' : List (DatalogProgram Expr)}

theorem sweep_sameRules (delta : List Quad) (ps : List (DatalogProgram Expr)) (base : QuadStore) :
    SameRules ps (reached (sweep materialise delta ps base)).programs := by
  have hpass : PassRun (fun _ _ _ => True) ps base (reached (sweep materialise delta ps base)) :=
    sweep_passRun (fun _ _ _ => trivial) delta ps base
  exact hpass.programs

theorem materialiseAll_sameRules (env : ReasonerEnv Expr) (ps : List (DatalogProgram Expr))
    (base : QuadStore) : SameRules ps (reached (materialiseAll env ps base)).programs :=
  sweep_sameRules [] ps base

theorem materialiseReset_sameRules (env : ReasonerEnv Expr) (ps : List (DatalogProgram Expr))
    (base : QuadStore) : SameRules ps (reached (materialiseReset env ps base)).programs :=
  sweep_sameRules [] ps base

theorem rederive_sameRules (env : ReasonerEnv Expr) (m : IncrementalReasoner Expr)
    (pd : List Quad) : SameRules m.programs (reached (rederive env m pd)).programs :=
  SameRules.trans (m.foldl_retract_programs pd) (materialiseAll_sameRules env _ _)

variable (h : SameRules ps ps')

include h

theorem SameRules.undoTracked (tracked : List (List (Quad × Derivation))) :
    SameRules ps (undoTracked ps' tracked) := by
  induction h generalizing tracked with
  | nil => cases tracked <;> exact .nil
  | cons hp hrest ih =>
    cases tracked with
    | nil => exact .cons hp hrest
    | cons buf tracked =>
      obtain ⟨x, rfl⟩ := hp
      exact .cons ⟨_, rfl⟩ (ih tracked)

theorem SameRules.modify (i : Nat)
    (f : DatalogProgram Expr → DerivedFromIndex) :
    SameRules ps (ps'.modify i fun p => p.withDerivedFrom (f p)) := by
  refine List.forall₂_iff_get.mpr ⟨h.length_eq.trans (List.length_modify ..).symm, ?_⟩
  intro j hj hj'
  obtain ⟨x, hx⟩ := (List.forall₂_iff_get.mp h).2 j hj (h.length_eq ▸ hj)
  simp only [List.get_eq_getElem] at hx
  simp only [List.get_eq_getElem, List.getElem_modify, hx]
  split_ifs
  · exact ⟨_, rfl⟩
  · exact ⟨x, rfl⟩

theorem SameRules.restoreDerivations
    (removed : List (Quad × Nat × List Derivation)) :
    SameRules ps (restoreDerivations ps' removed) := by
  induction removed generalizing ps' with
  | nil => exact h
  | cons e removed ih => exact ih (h.modify e.2.1 _)

theorem SameRules.zipWith {xs : List DerivedFromIndex}
    (hlength : xs.length = ps'.length) :
    SameRules ps (List.zipWith DatalogProgram.withDerivedFrom ps' xs) := by
  induction h generalizing xs with
  | nil => exact .nil
  | cons hp _ ih =>
    cases xs with
    | nil => cases hlength
    | cons x xs =>
      obtain ⟨y, rfl⟩ := hp
      exact .cons ⟨x, rfl⟩ (ih (Nat.succ.inj hlength))

omit h

theorem length_disableRules (targets : List (Nat × Nat)) (ps : List (DatalogProgram Expr)) :
    (disableRules targets ps).length = ps.length := by
  induction targets generalizing ps with
  | nil => rfl
  | cons t targets ih => exact (ih _).trans (List.length_modify ..)

include h in
theorem SameRules.disableRules (targets : List (Nat × Nat)) :
    SameRules (disableRules targets ps) (disableRules targets ps') := by
  have hlength (ps : List (DatalogProgram Expr)) := length_disableRules targets ps
  refine List.forall₂_iff_get.mpr ⟨by rw [hlength, hlength, h.length_eq], ?_⟩
  intro i hi hi'
  have hget := getElem?_disableRules targets ps i
  have hget' := getElem?_disableRules targets ps' i
  obtain ⟨x, hx⟩ := (List.forall₂_iff_get.mp h).2 i (hlength ps ▸ hi) (hlength ps' ▸ hi')
  simp only [List.get_eq_getElem] at hx ⊢
  rw [List.getElem?_eq_getElem hi, List.getElem?_eq_getElem (hlength ps ▸ hi)] at hget
  rw [List.getElem?_eq_getElem hi', List.getElem?_eq_getElem (hlength ps' ▸ hi'), hx] at hget'
  rw [Option.some.inj hget, Option.some.inj hget']
  exact ⟨x, rfl⟩

variable {programs : List (DatalogProgram Expr)}

variable {targets : List (Nat × Nat)}

theorem enableRules_disableRules
    (h : ∀ t ∈ targets, ∀ p, programs[t.1]? = some p → t.2 ∉ p.disabledRules) :
    enableRules targets (disableRules targets programs) = programs := by
  apply List.ext_getElem?
  intro i
  rw [getElem?_enableRules, getElem?_disableRules, Option.map_map]
  cases hp : programs[i]? with
  | none => rfl
  | some p =>
    have hdisjoint : Disjoint p.disabledRules
        ((targets.filter fun t => t.1 = i).map Prod.snd).toFinset := by
      rw [Finset.disjoint_right]
      intro id hid
      obtain ⟨t, ht, rfl⟩ := List.mem_map.mp (List.mem_toFinset.mp hid)
      obtain ⟨ht, hi⟩ := List.mem_filter.mp ht
      rw [← of_decide_eq_true hi] at hp
      exact h t ht p hp
    simp [Finset.union_sdiff_cancel_right hdisjoint]

theorem disableRules_enableRules
    (h : ∀ t ∈ targets, ∀ p, programs[t.1]? = some p → t.2 ∈ p.disabledRules) :
    disableRules targets (enableRules targets programs) = programs := by
  apply List.ext_getElem?
  intro i
  rw [getElem?_disableRules, getElem?_enableRules, Option.map_map]
  cases hp : programs[i]? with
  | none => rfl
  | some p =>
    have hsub : ((targets.filter fun t => t.1 = i).map Prod.snd).toFinset ⊆ p.disabledRules := by
      intro id hid
      obtain ⟨t, ht, rfl⟩ := List.mem_map.mp (List.mem_toFinset.mp hid)
      obtain ⟨ht, hi⟩ := List.mem_filter.mp ht
      rw [← of_decide_eq_true hi] at hp
      exact h t ht p hp
    simp [Finset.sdiff_union_of_subset hsub]

end SameRules

section Deletion

variable [DecidableEq Expr] {env : ReasonerEnv Expr} {m m' : IncrementalReasoner Expr}
  {R : List (Rule Expr)} {f : Fault Expr}

theorem deletionTargets_enabled {programs : List (DatalogProgram Expr)} {t : Nat × Nat}
    (ht : t ∈ deletionTargets programs R) {p : DatalogProgram Expr}
    (hp : programs[t.1]? = some p) : t.2 ∉ p.disabledRules := by
  obtain ⟨p', r, hp', hr, -⟩ := mem_deletionTargets.mp ht
  rw [hp] at hp'
  cases hp'
  exact hr.2

variable (h : applyRuleDeletions env m R = .error (f, m'))

include h

theorem applyRuleDeletions_error_sameRules :
    SameRules m.programs m'.programs := by
  have henable {ps : List (DatalogProgram Expr)}
      (hps : SameRules (disableRules (deletionTargets m.programs R) m.programs) ps) :
      SameRules m.programs (enableRules (deletionTargets m.programs R) ps) := by
    have hback := hps.enableRules (deletionTargets m.programs R)
    rw [enableRules_disableRules fun t ht p hp => deletionTargets_enabled ht hp] at hback
    exact hback
  rw [applyRuleDeletions] at h
  dsimp only at h
  split_ifs at h with hempty hnone hfall
  · rw [fullRematerialiseRules] at h
    split at h
    · rename_i f' s hs
      cases h
      have hpass := materialiseReset_sameRules env
        (disableRules (deletionTargets m.programs R) m.programs) (assertedOnly m.base)
      rw [hs] at hpass
      refine henable (hpass.zipWith ?_)
      rw [List.length_map, ← length_disableRules (deletionTargets m.programs R)]
      exact hpass.length_eq
    · cases h
  · rw [forwardPhaseRules] at h
    split at h
    · rename_i f' s hs
      cases h
      have hpass := rederive_sameRules env
        { m with programs := disableRules (deletionTargets m.programs R) m.programs }
        (env.quadOrder (backwardPhaseFromRuleRemoval m (deletionTargets m.programs R)))
      rw [hs] at hpass
      exact henable ((hpass.undoTracked _).restoreDerivations _)
    · cases h

theorem applyRuleDeletions_error :
    activeStrata m'.programs = activeStrata m.programs :=
  activeStrata_of_forall₂ (applyRuleDeletions_error_sameRules h)

theorem applyRuleDeletions_error_extensional
    (q : Quad) : m'.base.Extensional q ↔ m.base.Extensional q := by
  rw [applyRuleDeletions] at h
  dsimp only at h
  split_ifs at h with hempty hnone hfall
  · rw [fullRematerialiseRules] at h
    split at h
    · cases h
      exact Iff.rfl
    · cases h
  · rw [forwardPhaseRules] at h
    split at h
    · rename_i f' s hs
      cases h
      have hgrown := rederive_grown env
        { m with programs := disableRules (deletionTargets m.programs R) m.programs }
        (env.quadOrder (backwardPhaseFromRuleRemoval m (deletionTargets m.programs R)))
      rw [hs, reached_error] at hgrown
      rw [undoRuleDeletions, undoRederive, (extensional_foldl_addIntensionalQuad _ _ q).1,
        hgrown.truncateTo]
      refine ⟨fun hq => ?_, fun hq => extensional_foldl_retract _ hq fun hmem => ?_⟩
      · rw [foldl_retract_base, extensional_foldl_removeQuad] at hq
        exact hq.1
      · have hsuspect :=
          mem_backwardPhaseFromRuleRemoval.mp ((env.quadOrder_perm _).mem_iff.mp hmem)
        exact hsuspect.not_extensional hq
    · cases h

omit h

end Deletion

section Insertion

variable {env : ReasonerEnv Expr} {programs : List (DatalogProgram Expr)}

theorem length_enableRules (targets : List (Nat × Nat)) (ps : List (DatalogProgram Expr)) :
    (enableRules targets ps).length = ps.length := by
  induction targets generalizing ps with
  | nil => rfl
  | cons t targets ih => exact (ih _).trans (List.length_modify ..)

structure Reactivating (programs : List (DatalogProgram Expr)) (targets : List (Nat × Nat))
    (st : RuleInsertion Expr) : Prop where
  programs : SameRules (enableRules st.reactivated programs) st.programs
  reactivated : ∀ t ∈ st.reactivated, t ∈ targets

theorem Reactivating.resume {targets : List (Nat × Nat)} {st : RuleInsertion Expr}
    (h : Reactivating programs targets st) {t : Nat × Nat} (ht : t ∈ targets) {s : Sweep Expr}
    (hs : RunsOn ((st.enabled t).programs.drop t.1) st.base s) :
    Reactivating programs targets ((st.enabled t).resume t.1 s) := by
  constructor
  · have hstart : SameRules (enableRules (st.reactivated ++ [t]) programs)
        (st.enabled t).programs := by
      rw [enableRules, List.foldl_append]
      exact h.programs.modify_enableRule t
    refine hstart.trans ?_
    nth_rewrite 1 [← List.take_append_drop t.1 (st.enabled t).programs]
    exact List.rel_append (SameRules.refl _) hs.programs
  · intro t' ht'
    rcases List.mem_append.mp ht' with ht' | ht'
    · exact h.reactivated t' ht'
    · rw [List.mem_singleton.mp ht']
      exact ht

theorem insertRules_reached (programs : List (DatalogProgram Expr)) (base : QuadStore)
    (targets : List (Nat × Nat)) (fresh : List (DatalogProgram Expr)) :
    let st := reached (insertRules env ⟨programs, base, [], []⟩ targets fresh)
    SameRules (enableRules st.reactivated programs) (st.programs.take programs.length) ∧
      ∀ t ∈ st.reactivated, t ∈ targets := by
  have hstart : Reactivating programs targets ⟨programs, base, [], []⟩ :=
    ⟨SameRules.refl programs, nofun⟩
  have hlength {st : RuleInsertion Expr} (h : Reactivating programs targets st) :
      st.programs.length = programs.length := by
    rw [← h.programs.length_eq, length_enableRules]
  rcases insertRules_runsOn env (fun st t ht s h hs => h.resume ht hs) hstart fresh with
    h | ⟨st, s, h, -, heq⟩
  · dsimp only
    rw [← hlength h, List.take_length]
    exact ⟨h.programs, h.reactivated⟩
  · have hresume : (st.resume st.programs.length s).programs.take programs.length =
        st.programs := by
      rw [RuleInsertion.resume, List.take_length, ← hlength h, List.take_left]
    dsimp only
    rw [heq, hresume]
    exact ⟨h.programs, h.reactivated⟩

variable [DecidableEq Expr]

theorem requestedRules_disabled (newRules : List (Rule Expr)) {t : Nat × Nat}
    (ht : t ∈ (requestedRules programs newRules).reactivate) {p : DatalogProgram Expr}
    (hp : programs[t.1]? = some p) : t.2 ∈ p.disabledRules := by
  have hfold (rules : List (Rule Expr)) (acc : Requested Expr)
      (hacc : ∀ t ∈ acc.reactivate, ∀ p, programs[t.1]? = some p → t.2 ∈ p.disabledRules) :
      ∀ t ∈ (rules.foldl (classify programs) acc).reactivate, ∀ p,
        programs[t.1]? = some p → t.2 ∈ p.disabledRules := by
    induction rules generalizing acc with
    | nil => exact hacc
    | cons r rules ih =>
      refine ih (classify programs acc r) ?_
      rw [classify]
      split
      · rename_i slot hslot
        split_ifs with hdis
        · intro t ht p hp
          rcases List.mem_append.mp ht with ht | ht
          · exact hacc t ht p hp
          · obtain rfl := List.mem_singleton.mp ht
            obtain ⟨p', hp', -, hd⟩ := mem_ruleSlots.mp (List.mem_of_find?_eq_some hslot)
            rw [show programs[slot.programIndex]? = some p from hp] at hp'
            cases hp'
            exact of_decide_eq_true (hd.symm.trans hdis.1)
        · exact hacc
      · split_ifs
        · exact hacc
        · exact hacc
  exact hfold newRules ⟨[], []⟩ nofun t ht p hp

variable {m m' : IncrementalReasoner Expr} {newRules : List (Rule Expr)}

variable {f : Fault Expr}

variable (h : applyRuleInsertions env m newRules = .error (f, m'))

include h

theorem applyRuleInsertions_error_sameRules :
    SameRules m.programs m'.programs := by
  rw [applyRuleInsertions] at h
  dsimp only at h
  split_ifs at h
  split at h
  · cases h
    exact SameRules.refl m.programs
  · rename_i fresh hfresh
    obtain ⟨hsame, htargets⟩ := @insertRules_reached Expr env m.programs m.base
      (requestedRules m.programs newRules).reactivate fresh
    split at h
    · rename_i f' st hst
      cases h
      rw [hst, reached_error] at hsame htargets
      have hunrecord (tracked : List (Nat × List (Quad × Derivation)))
          {ps : List (DatalogProgram Expr)} (hps : SameRules st.programs ps) :
          SameRules st.programs (tracked.foldl (fun programs e => programs.modify e.1 fun p =>
            p.withDerivedFrom (e.2.foldl (fun x e => x.unrecord e.1 e.2) p.derivedFrom)) ps) := by
        induction tracked generalizing ps with
        | nil => exact hps
        | cons e tracked ih => exact ih (hps.modify e.1 _)
      have htake := List.forall₂_take m.programs.length
        (hunrecord st.tracked (SameRules.refl st.programs))
      have hback := (hsame.trans htake).disableRules st.reactivated
      rw [disableRules_enableRules fun t ht p hp =>
        requestedRules_disabled newRules (htargets t ht) hp] at hback
      exact hback
    · cases h

theorem applyRuleInsertions_error :
    activeStrata m'.programs = activeStrata m.programs :=
  activeStrata_of_forall₂ (applyRuleInsertions_error_sameRules h)

theorem applyRuleInsertions_error_extensional (q : Quad) :
    m'.base.Extensional q ↔ m.base.Extensional q := by
  rw [applyRuleInsertions] at h
  dsimp only at h
  split_ifs at h
  split at h
  · cases h
    exact Iff.rfl
  · rename_i fresh hfresh
    have hgrown := insertRules_grown env ⟨m.programs, m.base, [], []⟩
      (requestedRules m.programs newRules).reactivate fresh
    split at h
    · rename_i f' st hst
      cases h
      rw [hst] at hgrown
      exact hgrown.truncateTo q
    · cases h

omit h

end Insertion

end IncrementalReasoner

end Datalog

end RdfDatalog
