import RdfDatalog.Datalog.Maintenance

namespace RdfDatalog.Datalog

open GroundProgram FallibleFold

variable {Expr : Type}

namespace IncrementalReasoner

/-- The rebuild is chosen: more than a quarter of the derived quads are suspect. -/
def FallsBack (m : IncrementalReasoner Expr) (deletes : List Quad) : Prop :=
  exceedsThreshold m.programs (backwardPhase m.programs deletes) = true

/-- What an incremental deletion leaves in the store before it re-derives. -/
def kept (m : IncrementalReasoner Expr) (deletes : List Quad) : Set Quad :=
  {q | q ∈ m.base ∧ q ∉ deletes ∧ ¬ Suspect m.programs deletes q}

/-- The asserted quads that are left. -/
def remaining (base : QuadStore) (deletes : List Quad) : Set Quad :=
  {q | base.Extensional q ∧ q ∉ deletes}

theorem not_fallsBack_nil (m : IncrementalReasoner Expr) : ¬ m.FallsBack [] := by
  have hnil : backwardPhase m.programs [] = [] := by
    rw [List.eq_nil_iff_forall_not_mem]
    intro q hq
    obtain ⟨x, hx, -⟩ := mem_backwardPhase.mp hq
    cases hx
  rw [FallsBack, hnil]
  simp [exceedsThreshold]

theorem kept_nil (m : IncrementalReasoner Expr) : m.kept [] = m.base.quads := by
  ext q
  simp [kept, Suspect]

section Spec

variable {env : ReasonerEnv Expr} (hf : env.FixedFilters) {m m' : IncrementalReasoner Expr}
  {deletes : List Quad} {n : Nat}
include hf

omit hf in
/-- A successful deletion of no quads changes nothing. Any other starts over from the asserted
quads, or takes out the suspect ones and derives again what still follows. -/
theorem applyDeletions_cases (h : applyDeletions env m deletes = .ok (m', n)) :
    deletes = [] ∧ m' = m ∨
    m.FallsBack deletes ∧ (∃ s, materialiseReset env m.programs
      (assertedOnly (deletes.foldl QuadStore.removeQuad m.base)) = .ok s ∧
        m' = ⟨s.programs, s.base⟩) ∨
    ¬ m.FallsBack deletes ∧ ∃ s, rederive env
      { m with base := deletes.foldl QuadStore.removeQuad m.base }
      (env.quadOrder (backwardPhase m.programs deletes)) = .ok s ∧ m' = ⟨s.programs, s.base⟩ := by
  rw [applyDeletions] at h
  dsimp only at h
  split_ifs at h with hempty hfall
  · cases h
    exact .inl ⟨List.isEmpty_iff.mp hempty, rfl⟩
  · rw [fullRematerialise] at h
    split at h
    · cases h
    · rename_i s hs
      cases h
      exact .inr (.inl ⟨hfall, s, hs, rfl⟩)
  · rw [forwardPhase] at h
    split at h
    · cases h
    · rename_i s hs
      cases h
      exact .inr (.inr ⟨hfall, s, hs, rfl⟩)

omit hf in
theorem kept_eq (env : ReasonerEnv Expr) (m : IncrementalReasoner Expr) (deletes : List Quad) :
    {q | q ∈ deletes.foldl QuadStore.removeQuad m.base ∧
      q ∉ env.quadOrder (backwardPhase m.programs deletes)} = m.kept deletes := by
  ext q
  have hperm : q ∈ env.quadOrder (backwardPhase m.programs deletes) ↔
      q ∈ backwardPhase m.programs deletes := (env.quadOrder_perm _).mem_iff
  rw [Set.mem_ofPred_eq, hperm, mem_backwardPhase, QuadStore.mem_foldl_removeQuad, and_assoc]
  rfl

omit hf in
theorem extensional_foldl_removeQuad (base : QuadStore) (l : List Quad) (q : Quad) :
    (l.foldl QuadStore.removeQuad base).Extensional q ↔ base.Extensional q ∧ q ∉ l := by
  rw [QuadStore.Extensional, QuadStore.mem_foldl_removeQuad, QuadStore.derived_foldl_removeQuad]
  constructor
  · rintro ⟨⟨hq, hno⟩, hd⟩
    exact ⟨⟨hq, fun hder => hd ⟨hder, hno⟩⟩, hno⟩
  · rintro ⟨⟨hq, hd⟩, hno⟩
    exact ⟨⟨hq, hno⟩, fun hder => hd hder.1⟩

omit hf in
theorem quads_assertedOnly (base : QuadStore) :
    (assertedOnly (deletes.foldl QuadStore.removeQuad base)).quads = remaining base deletes := by
  ext q
  rw [QuadStore.mem_quads, (extensional_assertedOnly _ q).1, extensional_foldl_removeQuad]
  rfl

variable (hs : OrderedStrata (activeStrata m.programs))

include hs

theorem fullRematerialise_quads {s : Sweep Expr}
    (h : materialiseReset env m.programs
      (assertedOnly (deletes.foldl QuadStore.removeQuad m.base)) = .ok s) :
    s.base.quads = strataModel env (activeStrata m.programs) (remaining m.base deletes) ∧
      Consistent env (activeStrata m.programs).flatten s.base.quads := by
  rw [← quads_assertedOnly]
  exact materialiseReset_ok hf hs h

theorem applyDeletions_quads (hne : deletes ≠ [])
    (h : applyDeletions env m deletes = .ok (m', n)) :
    Consistent env (activeStrata m.programs).flatten m'.base.quads ∧
      (m.FallsBack deletes →
        m'.base.quads = strataModel env (activeStrata m.programs) (remaining m.base deletes)) ∧
      (¬ m.FallsBack deletes →
        m'.base.quads = strataModel env (activeStrata m.programs) (m.kept deletes)) := by
  obtain ⟨hnil, -⟩ | ⟨hfall, s, hrun, rfl⟩ | ⟨hfall, s, hrun, rfl⟩ := applyDeletions_cases h
  · exact absurd hnil hne
  · obtain ⟨hquads, hcons⟩ := fullRematerialise_quads hf hs hrun
    exact ⟨hcons, fun _ => hquads, fun hno => absurd hfall hno⟩
  · obtain ⟨hquads, hcons⟩ := rederive_ok hf
      (m := { m with base := deletes.foldl QuadStore.removeQuad m.base }) hs hrun
    refine ⟨hcons, fun hfb => absurd hfb hfall, fun _ => ?_⟩
    rw [← kept_eq env m deletes]
    exact hquads

theorem applyDeletions_ok
    (hm : m.base.quads = strataModel env (activeStrata m.programs) m.base.quads)
    (hcons : Consistent env (activeStrata m.programs).flatten m.base.quads)
    (h : applyDeletions env m deletes = .ok (m', n)) :
    Consistent env (activeStrata m.programs).flatten m'.base.quads ∧
      (m.FallsBack deletes →
        m'.base.quads = strataModel env (activeStrata m.programs) (remaining m.base deletes)) ∧
      (¬ m.FallsBack deletes →
        m'.base.quads = strataModel env (activeStrata m.programs) (m.kept deletes)) := by
  by_cases hne : deletes = []
  · subst hne
    cases h
    refine ⟨hcons, fun hfb => absurd hfb m.not_fallsBack_nil, fun _ => ?_⟩
    rw [kept_nil]
    exact hm
  · exact applyDeletions_quads hf hs hne h

omit hs

variable [DecidableEq Expr] {rules : List (Rule Expr)} {strata : List (List (Rule Expr))}
  {base fresh : QuadStore}

omit [DecidableEq Expr] hf in
/-- Starting over from the asserted quads of a maintained store, with the heads of body-less rules
among them, gives the model of the quads asserted at first. -/
theorem strataModel_remaining (hs : OrderedStrata strata) {E : Set Quad}
    (hkeep : E ⊆ remaining m.base deletes)
    (hback : ∀ q ∈ remaining m.base deletes, q ∈ E ∨ q ∈ factHeads strata.flatten) :
    strataModel env strata (remaining m.base deletes) = strataModel env strata E := by
  rw [hs.strataModel_eq_iff env]
  constructor
  · intro q hq
    rcases hback q hq with hq | hq
    · exact subset_strataModel env strata E hq
    · exact hs.factHeads_subset env E hq
  · exact hkeep.trans (subset_strataModel env strata _)

/-- A successful deletion leaves what a new reasoner over the remaining asserted quads computes
iff it rebuilds, or the quads it keeps follow from the remaining asserted ones and these follow
from the quads it keeps. -/
theorem applyDeletions_exact_iff (horder : (RulePartitioner.new rules).orderRules = .ok strata)
    (hs : OrderedStrata strata) (hnew : new env rules base = .ok m)
    (hok : applyDeletions env m deletes = .ok (m', n))
    (hfresh : fresh.quads = remaining base deletes) :
    (∃ r, new env rules fresh = .ok r ∧ r.base.quads = m'.base.quads) ↔
      m.FallsBack deletes ∨
        (m.kept deletes ⊆ strataModel env strata (remaining base deletes) ∧
          remaining base deletes ⊆ strataModel env strata (m.kept deletes)) := by
  obtain ⟨hactive, hm, hcons, hext⟩ := new_ok hf horder hs hnew
  have hsafe := (new_eq_ok horder hnew).1
  have hm' : m.base.quads = strataModel env strata m.base.quads := by
    have hidem : strataModel env strata base.quads = strataModel env strata m.base.quads := by
      rw [hs.strataModel_eq_iff env, hm]
      have hsub := subset_strataModel env strata base.quads
      exact ⟨hsub.trans (subset_strataModel env strata _), Set.Subset.rfl⟩
    exact hm.trans hidem
  obtain ⟨hcons', hfall, hincr⟩ := applyDeletions_ok hf (hactive.symm ▸ hs)
    (hactive.symm ▸ hm') (hactive.symm ▸ hcons) hok
  rw [hactive] at hcons' hfall hincr
  rw [new_quads_eq_iff hf horder hs hsafe hcons', hfresh]
  by_cases hfb : m.FallsBack deletes
  · have hrem : strataModel env strata (remaining m.base deletes) =
        strataModel env strata (remaining base deletes) := by
      refine strataModel_remaining hs ?_ ?_
      · exact fun q hq => ⟨(hext q).1 hq.1, hq.2⟩
      · intro q hq
        rcases (hext q).2 hq.1 with hq' | hq'
        · exact .inl ⟨hq', hq.2⟩
        · exact .inr hq'
    exact ⟨fun _ => .inl hfb, fun _ => (hfall hfb).trans hrem⟩
  · rw [hincr hfb, hs.strataModel_eq_iff env]
    exact ⟨.inr, fun h => h.resolve_left hfb⟩

end Spec

def storeOf (quads : List Quad) : QuadStore := quads.foldl QuadStore.addQuad .new

theorem extensional_storeOf (quads : List Quad) (q : Quad) :
    (q ∈ storeOf quads ↔ q ∈ quads) ∧ ((storeOf quads).Extensional q ↔ q ∈ quads) := by
  have hmem : q ∈ storeOf quads ↔ q ∈ quads := by
    rw [storeOf, QuadStore.mem_foldl_addQuad]
    simp
  have hder : ¬ (storeOf quads).Derived q := by
    rw [storeOf, QuadStore.derived_foldl_addQuad]
    exact fun hd => QuadStore.not_mem_new q hd.mem
  exact ⟨hmem, fun h => hmem.mp h.1, fun h => ⟨hmem.mpr h, hder⟩⟩

theorem remaining_storeOf (quads deletes : List Quad) :
    (storeOf (quads.filter (fun q => q ∉ deletes))).quads = remaining (storeOf quads) deletes := by
  ext q
  rw [QuadStore.mem_quads, (extensional_storeOf _ q).1, List.mem_filter, decide_eq_true_eq,
    remaining, Set.mem_ofPred_eq, (extensional_storeOf _ q).2]

theorem applyDeletions_exact_iff_unary : ∃ m m' n,
    new .plain [unaryRule 2 [1] []] (storeOf ((List.range 4).map (unaryQuad 1))) = .ok m ∧
      applyDeletions .plain m [unaryQuad 1 0] = .ok (m', n) ∧
      ((∃ r, new .plain [unaryRule 2 [1] []]
          (storeOf (((List.range 4).map (unaryQuad 1)).filter (fun q => q ∉ [unaryQuad 1 0]))) =
            .ok r ∧ r.base.quads = m'.base.quads) ↔
        m.FallsBack [unaryQuad 1 0] ∨
          (m.kept [unaryQuad 1 0] ⊆ strataModel .plain [[unaryRule 2 [1] []]]
            (remaining (storeOf ((List.range 4).map (unaryQuad 1))) [unaryQuad 1 0]) ∧
          remaining (storeOf ((List.range 4).map (unaryQuad 1))) [unaryQuad 1 0] ⊆
            strataModel .plain [[unaryRule 2 [1] []]] (m.kept [unaryQuad 1 0]))) := by
  obtain ⟨m, hnew, hrun⟩ : ∃ m, new .plain [unaryRule 2 [1] []]
      (storeOf ((List.range 4).map (unaryQuad 1))) = .ok m ∧
        (applyDeletions .plain m [unaryQuad 1 0]).toBool = true := by decide
  obtain ⟨⟨m', n⟩, hok⟩ := exists_ok_of_toBool hrun
  exact ⟨m, m', n, hnew, hok, applyDeletions_exact_iff ReasonerEnv.plain_fixedFilters
    (by decide) (.of_clash (by decide)) hnew hok (remaining_storeOf _ _)⟩

/-- An asserted quad that a rule also derives from the deleted one is lost. -/
theorem applyDeletions_loses_asserted : ∃ m m' n r,
    new .plain [unaryRule 2 [1] []]
        (storeOf (unaryQuad 2 0 :: (List.range 4).map (unaryQuad 1))) = .ok m ∧
      applyDeletions .plain m [unaryQuad 1 0] = .ok (m', n) ∧
      new .plain [unaryRule 2 [1] []] (storeOf ((unaryQuad 2 0 :: (List.range 4).map
        (unaryQuad 1)).filter (fun q => q ∉ [unaryQuad 1 0]))) = .ok r ∧
      unaryQuad 2 0 ∈ r.base ∧ unaryQuad 2 0 ∉ m'.base := by
  obtain ⟨m, hnew, m', hok, r, hr, hin, hout⟩ : ∃ m, new .plain [unaryRule 2 [1] []]
        (storeOf (unaryQuad 2 0 :: (List.range 4).map (unaryQuad 1))) = .ok m ∧
      ∃ m', applyDeletions .plain m [unaryQuad 1 0] = .ok m' ∧
      ∃ r, new .plain [unaryRule 2 [1] []] (storeOf ((unaryQuad 2 0 :: (List.range 4).map
        (unaryQuad 1)).filter (fun q => q ∉ [unaryQuad 1 0]))) = .ok r ∧
      unaryQuad 2 0 ∈ r.base ∧ unaryQuad 2 0 ∉ m'.1.base := by decide
  exact ⟨m, m'.1, m'.2, r, hnew, hok, hr, hin, hout⟩

end IncrementalReasoner

end RdfDatalog.Datalog
