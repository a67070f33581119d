import RdfDatalog.Datalog.AssertionStatus

namespace RdfDatalog.Datalog

open GroundProgram FallibleFold DatalogProgram

variable {Expr : Type} {env : ReasonerEnv Expr}

theorem QuadStore.take_quadCount {base base' : QuadStore}
    (h : base.quadList <+: base'.quadList) :
    base'.quadList.take base.table.quadCount = base.quadList := by
  rw [QuadStore.quadCount_eq]
  exact (List.prefix_iff_eq_take.mp h).symm

/-- What running the rules does to a store, whether the run succeeds or not: it appends quads.
These are asserted only where they are heads of body-less rules, and they follow from what was
stored, if a NOT atom is blocked by the quads of `N` only. -/
structure Appends (env : ReasonerEnv Expr) (rules : List (Rule Expr)) (N : Set Quad)
    (base base' : QuadStore) : Prop where
  isPrefix : base.quadList <+: base'.quadList
  status : ∀ q ∈ base, base'.Extensional q ↔ base.Extensional q
  adds : ∀ q, base'.Extensional q → base.Extensional q ∨ q ∈ factHeads rules
  follows : base'.quads ⊆ closure (clausesOf env rules) N base.quads

namespace Appends

variable {rules rules' : List (Rule Expr)} {N : Set Quad} {base base' base'' : QuadStore}

theorem refl (env : ReasonerEnv Expr) (rules : List (Rule Expr)) (N : Set Quad)
    (base : QuadStore) : Appends env rules N base base :=
  ⟨List.prefix_rfl, fun _ _ => Iff.rfl, fun _ h => .inl h, subset_closure _ _ _⟩

variable (h : Appends env rules N base base')

include h

theorem stored {q : Quad} (hq : q ∈ base) : q ∈ base' :=
  h.isPrefix.subset hq

theorem keeps {q : Quad} (hq : base.Extensional q) :
    base'.Extensional q :=
  (h.status q hq.1).mpr hq

theorem trans (h' : Appends env rules N base' base'') :
    Appends env rules N base base'' := by
  refine ⟨h.isPrefix.trans h'.isPrefix, ?_, ?_, ?_⟩
  · exact fun q hq => (h'.status q (h.stored hq)).trans (h.status q hq)
  · intro q hq
    rcases h'.adds q hq with hq | hq
    · exact h.adds q hq
    · exact .inr hq
  · have hmono := closure_mono (P := clausesOf env rules) (N := N) Set.Subset.rfl
      Set.Subset.rfl h.follows
    exact (h'.follows.trans hmono).trans (closure_closure_subset _ _ _)

theorem mono (hsub : ∀ r ∈ rules, r ∈ rules') :
    Appends env rules' N base base' := by
  refine ⟨h.isPrefix, h.status, ?_, ?_⟩
  · intro q hq
    rcases h.adds q hq with hq | ⟨r, hr, hb, hh⟩
    · exact .inl hq
    · exact .inr ⟨r, hsub r hr, hb, hh⟩
  · refine h.follows.trans (closure_mono ?_ Set.Subset.rfl Set.Subset.rfl)
    exact fun c ⟨r, hr, hc⟩ => ⟨r, hsub r hr, hc⟩

omit h

theorem of_reaches {p : DatalogProgram Expr} {m m' : Materialisation}
    (h : Reaches env p N m m') : Appends env p.activeRules N m.base m'.base :=
  ⟨h.quadList_isPrefix, fun q _ => h.extensional q, fun q hq => .inl ((h.extensional q).mp hq),
    h.sound (subset_closure _ _ _)⟩

theorem seeded (env : ReasonerEnv Expr) {p : DatalogProgram Expr} {facts : List Quad}
    (h : p.getFacts = .ok facts)
    (N : Set Quad) (base : QuadStore) :
    Appends env p.activeRules N base (p.seeded base facts).base := by
  refine ⟨base.quadList_isPrefix_foldl_addQuad facts, ?_, (p.seeded_status h base).adds,
    seeded_subset env h (subset_closure _ _ _)⟩
  intro q hq
  rw [extensional_seeded]
  exact or_iff_left fun hnew => hnew.1 hq

end Appends

section Stratum

variable {p : DatalogProgram Expr} {N : Set Quad} {base : QuadStore} {m : Materialisation}
  (hf : env.FixedFilters)
include hf

theorem materialiseLoop_appends {fuel start : Nat} (hN : N ⊆ m.base.quads) :
    Appends env p.activeRules N m.base (reached (p.materialiseLoop env fuel start m)).base := by
  cases h : p.materialiseLoop env fuel start m with
  | ok m' =>
    have hcov : Covered env p ∅ {q | q ∈ m.base.quadList.take start} m :=
      fun _ _ _ _ _ _ ⟨_, _, hempty⟩ => hempty.elim
    exact .of_reaches (materialiseLoop_ok hf hN hcov h).1
  | error e => exact .of_reaches (materialiseLoop_error hf hN h).1

theorem materialiseDeltaIteration_appends {delta : List Quad} (hN : N ⊆ m.base.quads) :
    Appends env p.activeRules N m.base
      (reached (p.materialiseDeltaIteration env delta m)).base := by
  cases h : p.materialiseDeltaIteration env delta m with
  | ok m' => exact .of_reaches (materialiseDeltaIteration_ok hf hN h).1
  | error e => exact .of_reaches (materialiseDeltaIteration_error hf hN h).1

theorem materialiseSeminaiveTracked_appends (hN : N ⊆ base.quads) :
    Appends env p.activeRules N base
      (reached (p.materialiseSeminaiveTracked env base)).base := by
  cases hfacts : p.getFacts with
  | error e =>
    simp only [DatalogProgram.materialiseSeminaiveTracked,
      DatalogProgram.materialiseSeminaiveTrackedFrom, hfacts]
    exact .refl env _ N base
  | ok facts =>
    rw [materialiseSeminaiveTracked_of_facts hfacts]
    have hstart := Appends.seeded env hfacts N base
    exact hstart.trans (materialiseLoop_appends hf fun q hq => hstart.stored (hN hq))

theorem materialiseSeminaiveTrackedFromFacts_appends {delta : List Quad} (hN : N ⊆ base.quads)
    (hdelta : ∀ q ∈ delta, q ∈ base) : Appends env p.activeRules N base
      (reached (p.materialiseSeminaiveTrackedFromFacts env base delta)).base := by
  cases hfacts : p.getFacts with
  | error e =>
    simp only [DatalogProgram.materialiseSeminaiveTrackedFromFacts, hfacts]
    exact .refl env _ N base
  | ok facts =>
    have hstart := Appends.seeded env hfacts N base
    have hsame : delta.foldl QuadStore.addQuad (facts.foldl QuadStore.addQuad base) =
        (p.seeded base facts).base :=
      QuadStore.foldl_addQuad_of_mem fun q hq => hstart.stored (hdelta q hq)
    have hN₁ : N ⊆ (p.seeded base facts).base.quads := fun q hq => hstart.stored (hN hq)
    have hiter : Appends env p.activeRules N (p.seeded base facts).base
        (reached (p.materialiseDeltaIteration env delta (p.seeded base facts))).base :=
      materialiseDeltaIteration_appends hf hN₁
    simp only [DatalogProgram.materialiseSeminaiveTrackedFromFacts, hfacts, hsame]
    split
    · next e h =>
      rw [show p.materialiseDeltaIteration env delta (p.seeded base facts) =
        .error e from h] at hiter
      exact hstart.trans hiter
    · next m₁ h =>
      rw [show p.materialiseDeltaIteration env delta (p.seeded base facts) = .ok m₁ from h] at hiter
      exact hstart.trans
        (hiter.trans (materialiseLoop_appends hf fun q hq => hiter.stored (hN₁ hq)))

end Stratum

section Passes

variable {materialise : List Quad → DatalogProgram Expr → QuadStore →
  Outcome Expr Materialisation} {N : Set Quad} {ps : List (DatalogProgram Expr)}
  {delta : List Quad} {base : QuadStore}

theorem PassRun.appends {s : Sweep Expr} (h : PassRun (fun p base m => N ⊆ base.quads →
      Appends env p.activeRules N base m.base) ps base s) (hN : N ⊆ base.quads) :
    Appends env (activeStrata ps).flatten N base s.base := by
  induction h with
  | start ps base => exact .refl env _ N base
  | cons hran _ ih =>
    have hfirst := hran hN
    have hrest := ih fun q hq => hfirst.stored (hN hq)
    exact (hfirst.mono fun r hr => List.mem_append_left _ hr).trans
      (hrest.mono fun r hr => List.mem_append_right _ hr)

theorem sweep_strata : activeStrata (reached (sweep materialise delta ps base)).programs =
    activeStrata ps := by
  have hpass : PassRun (fun _ _ _ => True) ps base (reached (sweep materialise delta ps base)) :=
    sweep_passRun (fun _ _ _ => trivial) delta ps base
  exact activeStrata_of_forall₂ hpass.programs

variable (hf : env.FixedFilters)
include hf

theorem materialiseAll_appends (ps : List (DatalogProgram Expr)) (base : QuadStore)
    (hN : N ⊆ base.quads) :
    Appends env (activeStrata ps).flatten N base (reached (materialiseAll env ps base)).base := by
  refine PassRun.appends (sweep_passRun ?_ [] ps base) hN
  exact fun _ _ _ hN => materialiseSeminaiveTracked_appends hf hN

theorem materialiseReset_appends (ps : List (DatalogProgram Expr)) (base : QuadStore)
    (hN : N ⊆ base.quads) : Appends env (activeStrata ps).flatten N base
      (reached (materialiseReset env ps base)).base := by
  refine PassRun.appends (sweep_passRun ?_ [] ps base) hN
  intro _ p base hN
  exact materialiseSeminaiveTracked_appends (p := p.withDerivedFrom .new) hf hN

theorem materialiseForward_appends (ps : List (DatalogProgram Expr)) (hN : N ⊆ base.quads)
    (hdelta : ∀ q ∈ delta, q ∈ base) : Appends env (activeStrata ps).flatten N base
      (reached (materialiseForward env delta ps base)).base := by
  refine PassRun.appends (sweep_passRun_of_inv (I := fun delta base => ∀ q ∈ delta, q ∈ base)
    ?_ ?_ ps hdelta) hN
  · exact fun _ _ _ hdelta hN => materialiseSeminaiveTrackedFromFacts_appends hf hN hdelta
  · intro delta p base m hdelta hm q hq
    obtain ⟨hstep, htrack⟩ :=
      materialiseSeminaiveTrackedFromFacts_status hdelta hm
    rcases List.mem_append.mp hq with hq | hq
    · exact hstep.stored q (hdelta q hq)
    · obtain ⟨e, he, rfl⟩ := List.mem_map.mp hq
      exact htrack e he

end Passes

namespace IncrementalReasoner

section Undo

variable {programs : List (DatalogProgram Expr)}

theorem undoTracked_strata (programs : List (DatalogProgram Expr))
    (tracked : List (List (Quad × Derivation))) :
    activeStrata (undoTracked programs tracked) = activeStrata programs := by
  induction programs generalizing tracked with
  | nil => cases tracked <;> rfl
  | cons p ps ih =>
    cases tracked with
    | nil => rfl
    | cons buf tracked => exact congrArg (List.cons p.activeRules) (ih tracked)

theorem restoreDerivations_strata (programs : List (DatalogProgram Expr))
    (removed : List (Quad × Nat × List Derivation)) :
    activeStrata (restoreDerivations programs removed) = activeStrata programs := by
  rw [restoreDerivations]
  induction removed generalizing programs with
  | nil => rfl
  | cons e removed ih =>
    rw [List.foldl_cons, ih, activeStrata, activeStrata]
    apply List.ext_getElem?
    intro i
    rw [List.getElem?_map, List.getElem?_map, List.getElem?_modify]
    cases programs[i]? with
    | none => rfl
    | some p =>
      by_cases hi : e.2.1 = i
      · simp [hi]
      · simp [hi]

end Undo

/-- What a call keeps, whether it succeeds or not: the quads of `X` are asserted, no quad outside
`A` is, and all quads are in `C`. -/
structure Bounded (strata : List (List (Rule Expr))) (X A C : Set Quad)
    (m : IncrementalReasoner Expr) : Prop where
  strata : activeStrata m.programs = strata
  keeps : ∀ q ∈ X, m.base.Extensional q
  asserts : ∀ q, m.base.Extensional q → q ∈ A
  within : m.base.quads ⊆ C

namespace Bounded

variable {strata : List (List (Rule Expr))} {X A C : Set Quad} {m : IncrementalReasoner Expr}
  {programs : List (DatalogProgram Expr)} {base : QuadStore}

variable (h : Bounded strata X A C m)

include h

theorem stored : X ⊆ m.base.quads := fun q hq => (h.keeps q hq).1

theorem startOver (hprograms : activeStrata programs = strata) :
    Bounded strata X A C ⟨programs, assertedOnly m.base⟩ := by
  refine ⟨hprograms, ?_, ?_, ?_⟩
  · exact fun q hq => (extensional_assertedOnly m.base q).2.mpr (h.keeps q hq)
  · exact fun q hq => h.asserts q ((extensional_assertedOnly m.base q).2.mp hq)
  · exact fun q hq => h.within ((extensional_assertedOnly m.base q).1.mp hq).1

theorem removeQuads (hprograms : activeStrata programs = strata)
    {l : List Quad} (hl : ∀ q ∈ l, q ∉ X) :
    Bounded strata X A C ⟨programs, l.foldl QuadStore.removeQuad m.base⟩ := by
  have hext := extensional_foldl_removeQuad m.base l
  refine ⟨hprograms, ?_, ?_, ?_⟩
  · exact fun q hq => (hext q).mpr ⟨h.keeps q hq, fun hmem => hl q hmem hq⟩
  · exact fun q hq => h.asserts q ((hext q).mp hq).1
  · exact fun q hq => h.within ((m.base.mem_foldl_removeQuad l q).mp hq).1

theorem addQuads {l : List Quad} (hl : ∀ q ∈ l, q ∈ A ∧ q ∈ C) :
    Bounded strata X A C ⟨m.programs, l.foldl QuadStore.addQuad m.base⟩ := by
  have hext := extensional_foldl_addQuad m.base l
  refine ⟨h.strata, ?_, ?_, ?_⟩
  · exact fun q hq => (hext q).mpr (.inl (h.keeps q hq))
  · intro q hq
    rcases (hext q).mp hq with hq | hq
    · exact h.asserts q hq
    · exact (hl q hq.1).1
  · intro q hq
    rcases (m.base.mem_foldl_addQuad l q).mp hq with hq | hq
    · exact h.within hq
    · exact (hl q hq).2

theorem truncateTo (hprograms : activeStrata programs = strata)
    {len : Nat} (hlen : ∀ q ∈ X, q ∈ m.base.quadList.take len) :
    Bounded strata X A C ⟨programs, m.base.truncateTo len⟩ := by
  have hmem (q : Quad) : q ∈ m.base.truncateTo len ↔ q ∈ m.base.quadList.take len := by
    rw [← QuadStore.mem_quadList, QuadStore.quadList_truncateTo]
  have hder := m.base.derived_truncateTo len
  refine ⟨hprograms, ?_, ?_, ?_⟩
  · intro q hq
    refine ⟨(hmem q).mpr (hlen q hq), fun hd => ?_⟩
    exact (h.keeps q hq).2 ((hder q).mp hd).1
  · intro q ⟨hq, hno⟩
    have htake := (hmem q).mp hq
    exact h.asserts q ⟨List.mem_of_mem_take htake, fun hd => hno ((hder q).mpr ⟨hd, htake⟩)⟩
  · exact fun q hq => h.within (List.mem_of_mem_take ((hmem q).mp hq))

omit h

section Runs

variable (hf : env.FixedFilters) (hA : ∀ q ∈ factHeads strata.flatten, q ∈ A)
  (hC : closure (clausesOf env strata.flatten) X C ⊆ C)
include hA hC

variable (h : Bounded strata X A C m)

include h in
theorem appends (hprograms : activeStrata programs = strata)
    (hrun : Appends env strata.flatten X m.base base) : Bounded strata X A C ⟨programs, base⟩ := by
  refine ⟨hprograms, fun q hq => hrun.keeps (h.keeps q hq), ?_, ?_⟩
  · intro q hq
    rcases hrun.adds q hq with hq | hq
    · exact h.asserts q hq
    · exact hA q hq
  · have hmono := closure_mono (P := clausesOf env strata.flatten) (N := X) Set.Subset.rfl
      Set.Subset.rfl h.within
    exact hrun.follows.trans (hmono.trans hC)

include hf

include h

theorem rederive {pd : List Quad} (hpd : ∀ q ∈ pd, q ∉ X) :
    Bounded strata X A C ⟨(reached (rederive env m pd)).programs,
        (reached (rederive env m pd)).base⟩ ∧
      ∀ q ∈ X, q ∈ (reached (rederive env m pd)).base.quadList.take
        (pd.foldl retract m).base.table.quadCount := by
  have hstart : Bounded strata X A C (pd.foldl retract m) := by
    have hbase := h.removeQuads ((activeStrata_foldl_retract m pd).trans h.strata) hpd
    rw [← foldl_retract_base] at hbase
    exact hbase
  have hrun := materialiseAll_appends hf (pd.foldl retract m).programs (pd.foldl retract m).base
    hstart.stored
  rw [hstart.strata] at hrun
  refine ⟨hstart.appends hA hC (sweep_strata.trans hstart.strata) hrun, fun q hq => ?_⟩
  have htake := QuadStore.take_quadCount hrun.isPrefix
  rw [IncrementalReasoner.rederive, htake]
  exact hstart.stored hq

theorem retractNegationInvalidated (fuel : Nat) (check : List Quad) :
    Bounded strata X A C (reached (retractNegationInvalidated env fuel m check)) := by
  induction fuel generalizing m check with
  | zero => exact h
  | succ fuel ih =>
    rw [IncrementalReasoner.retractNegationInvalidated]
    split_ifs
    · exact h
    · have hpd : ∀ q ∈ env.quadOrder
          (cascadePd m (negationInvalidatedSeeds m.programs check)), q ∉ X := by
        intro q hq hX
        have hq := (env.quadOrder_perm _).mem_iff.mp hq
        exact mem_cascadePd_not_extensional hq (h.keeps q hX)
      have hstep := (h.rederive hf hA hC hpd).1
      cases hs : IncrementalReasoner.rederive env m (env.quadOrder
          (cascadePd m (negationInvalidatedSeeds m.programs check))) with
      | error e =>
        rw [hs] at hstep
        exact hstep
      | ok s =>
        rw [hs] at hstep
        exact ih hstep _

theorem applyInsertions (fuel : Nat) {inserts : List Quad}
    (hinserts : ∀ q ∈ inserts, q ∈ A ∧ q ∈ C) :
    Bounded strata X A C (reached (applyInsertions env fuel m inserts)) := by
  have hstart := h.addQuads hinserts
  have hdelta : ∀ q ∈ inserts, q ∈ inserts.foldl QuadStore.addQuad m.base :=
    fun q hq => (m.base.mem_foldl_addQuad inserts q).mpr (.inr hq)
  have hrun := materialiseForward_appends hf m.programs hstart.stored hdelta
  rw [h.strata] at hrun
  have hprograms : activeStrata (reached (materialiseForward env inserts m.programs
      (inserts.foldl QuadStore.addQuad m.base))).programs = strata := sweep_strata.trans h.strata
  have hpass := hstart.appends hA hC hprograms hrun
  rw [IncrementalReasoner.applyInsertions]
  cases hs : materialiseForward env inserts m.programs (inserts.foldl QuadStore.addQuad m.base) with
  | ok s =>
    rw [hs] at hpass
    exact hpass.retractNegationInvalidated hf hA hC fuel _
  | error e =>
    rw [hs, reached_error] at hrun hpass
    have hfront := (m.base.quadList_isPrefix_foldl_addQuad inserts).trans hrun.isPrefix
    refine hpass.truncateTo ((undoTracked_strata _ _).trans hpass.strata) fun q hq => ?_
    have htake := QuadStore.take_quadCount hfront
    change q ∈ e.2.base.quadList.take m.base.table.quadCount
    rw [htake]
    exact h.stored hq

theorem fullRematerialise {deletes : List Quad}
    (hdeletes : ∀ q ∈ deletes, q ∉ X) :
    match fullRematerialise env m deletes with
    | .ok (m', _) => Bounded strata X A C m'
    | .error (_, m') => Bounded strata X A C m' := by
  have hstart := (h.removeQuads h.strata hdeletes).startOver h.strata
  have hrun := materialiseReset_appends hf m.programs _ hstart.stored
  rw [h.strata] at hrun
  have hprograms : activeStrata (reached (materialiseReset env m.programs
      (assertedOnly (deletes.foldl QuadStore.removeQuad m.base)))).programs =
        strata := sweep_strata.trans h.strata
  have hpass := hstart.appends hA hC hprograms hrun
  rw [IncrementalReasoner.fullRematerialise]
  cases hs : materialiseReset env m.programs
      (assertedOnly (deletes.foldl QuadStore.removeQuad m.base)) with
  | ok s =>
    rw [hs, reached_ok] at hpass
    exact hpass
  | error e =>
    rw [hs, reached_error] at hpass
    exact hpass

omit h

end Runs

end Bounded

/-- What is left of a failed call, as far as a rollback of the deletion of `D` needs it. -/
structure Recoverable (strata : List (List (Rule Expr))) (X A D : Set Quad)
    (m : IncrementalReasoner Expr) : Prop where
  strata : activeStrata m.programs = strata
  keeps : ∀ q ∈ X, m.base.Extensional q
  asserts : ∀ q, m.base.Extensional q → q ∈ A
  unmarked : ∀ q ∈ D, ¬ m.base.Derived q

section Rollback

variable {strata : List (List (Rule Expr))} {X A C D : Set Quad} {m m' : IncrementalReasoner Expr}

theorem Bounded.recoverable (h : Bounded strata X A C m) (hD : ∀ q ∈ D, q ∉ C) :
    Recoverable strata X A D m :=
  ⟨h.strata, h.keeps, h.asserts, fun q hq hd => hD q hq (h.within hd.mem)⟩

theorem extensional_foldl_addIntensionalQuad (base : QuadStore) (l : List Quad) (q : Quad) :
    ((l.foldl QuadStore.addIntensionalQuad base).Extensional q ↔ base.Extensional q) ∧
      ((l.foldl QuadStore.addIntensionalQuad base).Derived q → base.Derived q ∨ q ∈ l) := by
  induction l generalizing base with
  | nil => exact ⟨Iff.rfl, .inl⟩
  | cons x l ih =>
    obtain ⟨hext, hder⟩ := ih (base.addIntensionalQuad x)
    have hstep := (⟨base, .new, []⟩ : Materialisation).extensional_derive q x ⟨0, []⟩
    refine ⟨hext.trans hstep, fun hq => ?_⟩
    rcases hder hq with hq | hq
    · rcases (base.derived_addIntensionalQuad x q).mp hq with hq | hq
      · exact .inl hq
      · exact .inr (List.mem_cons.mpr (.inl hq.1))
    · exact .inr (List.mem_cons_of_mem x hq)

theorem Bounded.undoDeletions {s : Sweep Expr} {pd deletes : List Quad}
    (h : Bounded strata X A C ⟨s.programs, s.base⟩) (hD : ∀ q ∈ D, q ∉ C)
    (hX : ∀ q ∈ X, q ∈ s.base.quadList.take (pd.foldl retract m).base.table.quadCount)
    (hpd : ∀ q ∈ D, q ∉ pd) (hdeletes : ∀ q ∈ deletes, q ∈ A) :
    Recoverable strata X A D (undoDeletions m pd deletes s) := by
  have hcut : Recoverable strata X A D
      ⟨s.programs, s.base.truncateTo (pd.foldl retract m).base.table.quadCount⟩ :=
    (h.truncateTo h.strata hX).recoverable hD
  have hpdstep := extensional_foldl_addIntensionalQuad
    (s.base.truncateTo (pd.foldl retract m).base.table.quadCount) pd
  have hext := extensional_foldl_addQuad
    (pd.foldl QuadStore.addIntensionalQuad
      (s.base.truncateTo (pd.foldl retract m).base.table.quadCount)) deletes
  refine ⟨?_, ?_, ?_, ?_⟩
  · exact (restoreDerivations_strata _ _).trans ((undoTracked_strata _ _).trans h.strata)
  · exact fun q hq => (hext q).mpr (.inl ((hpdstep q).1.mpr (hcut.keeps q hq)))
  · intro q hq
    rcases (hext q).mp hq with hq | hq
    · exact hcut.asserts q ((hpdstep q).1.mp hq)
    · exact hdeletes q hq.1
  · intro q hq hd
    have hd := (QuadStore.derived_foldl_addQuad _ deletes q).mp hd
    rcases (hpdstep q).2 hd with hd | hmem
    · exact hcut.unmarked q hq hd
    · exact hpd q hq hmem

variable (hf : env.FixedFilters) (hA : ∀ q ∈ factHeads strata.flatten, q ∈ A)
  (hC : closure (clausesOf env strata.flatten) X C ⊆ C)
include hf hA hC

theorem Bounded.applyDeletions (h : Bounded strata X A C m) {deletes : List Quad}
    (hdeletes : ∀ q ∈ deletes, q ∈ A ∧ q ∉ X ∧ q ∉ C)
    (hclean : m.FallsBack deletes ∨
      ∀ q, q ∈ X ∨ q ∈ deletes → ¬ Suspect m.programs deletes q) :
    match applyDeletions env m deletes with
    | .ok (m', _) => Bounded strata X A C m'
    | .error (_, m') => Recoverable strata X A {q | q ∈ deletes} m' := by
  have hD : ∀ q ∈ {q | q ∈ deletes}, q ∉ C := fun q hq => (hdeletes q hq).2.2
  rw [IncrementalReasoner.applyDeletions]
  by_cases hempty : deletes.isEmpty
  · rw [if_pos hempty]
    exact h
  rw [if_neg hempty]
  by_cases hfall : exceedsThreshold m.programs (backwardPhase m.programs deletes)
  · have hfull := h.fullRematerialise hf hA hC fun q hq => (hdeletes q hq).2.1
    simp only [if_pos hfall]
    cases hrun : IncrementalReasoner.fullRematerialise env m deletes with
    | ok r =>
      rw [hrun] at hfull
      exact hfull
    | error e =>
      rw [hrun] at hfull
      exact Bounded.recoverable hfull hD
  · have hsus := hclean.resolve_left hfall
    have hnot : ∀ q, q ∈ X ∨ q ∈ deletes →
        q ∉ env.quadOrder (backwardPhase m.programs deletes) :=
      fun q hq hmem => hsus q hq (mem_backwardPhase.mp ((env.quadOrder_perm _).mem_iff.mp hmem))
    have hstart := h.removeQuads h.strata fun q hq => (hdeletes q hq).2.1
    obtain ⟨hpass, hX⟩ := hstart.rederive hf hA hC fun q hq hX => hnot q (.inl hX) hq
    simp only [if_neg hfall]
    rw [forwardPhase]
    cases hs : IncrementalReasoner.rederive env
        { m with base := deletes.foldl QuadStore.removeQuad m.base }
        (env.quadOrder (backwardPhase m.programs deletes)) with
    | ok s =>
      rw [hs, reached_ok] at hpass
      exact hpass
    | error e =>
      rw [hs, reached_error] at hpass hX
      exact hpass.undoDeletions hD hX (fun q hq => hnot q (.inr hq)) fun q hq => (hdeletes q hq).1

omit hA hC in
theorem rebuildFromBase_status (m : IncrementalReasoner Expr) (q : Quad) :
    (m.base.Extensional q → (reached (rebuildFromBase env m)).base.Extensional q) ∧
      ((reached (rebuildFromBase env m)).base.Extensional q → m.base.Extensional q ∨
        q ∈ factHeads (activeStrata m.programs).flatten) := by
  have hprograms : activeStrata (m.programs.map fun p => p.withDerivedFrom .new) =
      activeStrata m.programs := by
    rw [activeStrata, List.map_map]
    rfl
  have hrun := materialiseAll_appends hf (m.programs.map fun p => p.withDerivedFrom .new)
    (assertedOnly m.base) (Set.empty_subset _)
  rw [hprograms] at hrun
  have hbase := (extensional_assertedOnly m.base q).2
  have hsame : (reached (rebuildFromBase env m)).base =
      (reached (materialiseAll env (m.programs.map fun p => p.withDerivedFrom .new)
        (assertedOnly m.base))).base := by
    rw [rebuildFromBase]
    cases materialiseAll env (m.programs.map fun p => p.withDerivedFrom .new)
      (assertedOnly m.base) <;> rfl
  rw [hsame]
  exact ⟨fun hq => hrun.keeps (hbase.mpr hq), fun hq => (hrun.adds q hq).imp_left hbase.mp⟩

end Rollback

end IncrementalReasoner

end RdfDatalog.Datalog
