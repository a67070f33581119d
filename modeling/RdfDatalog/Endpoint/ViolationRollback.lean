import RdfDatalog.Endpoint.DatasetRoutes
import RdfDatalog.Endpoint.ReasonedUpdates

namespace RdfDatalog.Endpoint

open Datalog Datalog.IncrementalReasoner FallibleFold QuadStore

variable {N : NativeTypes} {Expr : Type}

/-- What is asserted once a delta is written to a closed store that asserts `E`: of the inserted
quads, those that are not derived already. -/
def writtenAsserted (env : ReasonerEnv Expr) (strata : List (List (Rule Expr))) (E : Set Quad)
    (deletes inserts : List Quad) : Set Quad :=
  {q | (q ∈ E ∧ q ∉ deletes) ∨ (q ∈ inserts ∧ (q ∈ E ∨ q ∉ strataModel env strata E))}

/-- What is asserted once the reasoner has taken the delta: after a deletion the inserted quads that
are not derived any more are inserted again. -/
def assertedAfter (env : ReasonerEnv Expr) (strata : List (List (Rule Expr))) (E : Set Quad)
    (deletes inserts : List Quad) : Set Quad :=
  let written := writtenAsserted env strata E deletes inserts
  {q | q ∈ written ∨ (deletes ≠ [] ∧ q ∈ inserts ∧ q ∉ strataModel env strata written)}

theorem assertedAfter_subset {env : ReasonerEnv Expr} {strata : List (List (Rule Expr))}
    {E : Set Quad} {deletes inserts : List Quad} {q : Quad}
    (hq : q ∈ assertedAfter env strata E deletes inserts) :
    (q ∈ E ∧ q ∉ deletes) ∨ q ∈ inserts := by
  rcases hq with (hq | hq) | hq
  · exact .inl hq
  · exact .inr hq.1
  · exact .inr hq.2.1

/-- What the deletion of a delta leaves asserted it keeps so: the closure is rebuilt, or no asserted
quad that stays is reached from a deleted one through recorded derivations. -/
def DeletesKept (m : IncrementalReasoner Expr) (deletes inserts : List Quad) : Prop :=
  deletes ≠ [] → (edited m deletes inserts).FallsBack deletes ∨
    ∀ q, (edited m deletes inserts).base.Extensional q → q ∉ deletes →
      ¬ Suspect m.programs deletes q

section Status

variable {r : Reasoning Expr} {m m' : IncrementalReasoner Expr} {deletes inserts : List Quad}

theorem Maintained.derived_iff (hm : Maintained r.env m) (q : Quad) :
    m.base.Derived q ↔ q ∈ strataModel r.env (activeStrata m.programs) {q | m.base.Extensional q} ∧
      ¬ m.base.Extensional q := by
  rw [← hm.closure, mem_quads, QuadStore.Extensional]
  constructor
  · intro hq
    exact ⟨hq.mem, fun hext => hext.2 hq⟩
  · rintro ⟨hmem, hext⟩
    by_contra hno
    exact hext ⟨hmem, hno⟩

theorem edited_extensional (hm : Maintained r.env m) (hdisjoint : ∀ q ∈ inserts, q ∉ deletes)
    (q : Quad) : (edited m deletes inserts).base.Extensional q ↔
      q ∈ writtenAsserted r.env (activeStrata m.programs) {q | m.base.Extensional q} deletes
        inserts := by
  rw [edited, extensional_foldl_addQuad, extensional_foldl_removeQuad,
    derived_foldl_removeQuad, writtenAsserted]
  refine or_congr_right (and_congr_right fun hq => ?_)
  have hkept := hdisjoint q hq
  rw [and_iff_left hkept, hm.derived_iff q, not_and, not_not]
  constructor
  · intro himp
    by_cases hmem : q ∈ strataModel r.env (activeStrata m.programs) {q | m.base.Extensional q}
    · exact .inl (himp hmem)
    · exact .inr hmem
  · intro hor hmem
    exact hor.resolve_right (not_not.mpr hmem)

variable (hf : r.env.FixedFilters)
include hf

theorem reasonDelta_asserted (hm : Maintained r.env m)
    (hclean : CleanDelta r.env m deletes inserts) (hkeeps : DeletesKept m deletes inserts)
    (hfacts : ∀ q ∈ factHeads (activeStrata m.programs).flatten,
      m.base.Extensional q ∧ q ∉ deletes)
    (hdisjoint : ∀ q ∈ inserts, q ∉ deletes)
    (h : reasonDelta r (edited m deletes inserts) deletes inserts = .ok m') :
    {q | m'.base.Extensional q} = assertedAfter r.env (activeStrata m.programs)
      {q | m.base.Extensional q} deletes inserts := by
  let W :=
    writtenAsserted r.env (activeStrata m.programs) {q | m.base.Extensional q} deletes inserts
  have hedited (q : Quad) : (edited m deletes inserts).base.Extensional q ↔ q ∈ W :=
    edited_extensional hm hdisjoint q
  have hheads : ∀ q ∈ factHeads (activeStrata m.programs).flatten, q ∈ W :=
    fun q hq => .inl (hfacts q hq)
  rw [CleanDelta] at hclean
  obtain ⟨m₁, n, hrun, hinsert⟩ := reasonDelta_ok h
  by_cases hdel : deletes = []
  · subst hdel
    cases hrun
    have hsame (q : Quad) : q ∈ assertedAfter r.env (activeStrata m.programs)
        {q | m.base.Extensional q} [] inserts ↔ (edited m [] inserts).base.Extensional q := by
      rw [hedited q]
      exact or_iff_left fun hq => hq.1 rfl
    ext q
    rw [hsame, Set.mem_ofPred_eq]
    rcases hinsert with ⟨rfl, rfl⟩ | ⟨-, h⟩
    · rfl
    · obtain ⟨hto, hfrom⟩ := (applyInsertions_status h).2 q
      constructor
      · intro hq
        rcases hfrom hq with hq | ⟨hq, hno⟩ | hq
        · exact hq
        · exact ⟨(mem_foldl_addQuad ..).mpr (.inr hq), hno⟩
        · exact (hedited q).mpr (hheads q hq)
      · exact fun hq => hto (.inl hq)
  · rw [if_neg hdel] at hclean
    have hm₁ : Maintained r.env m₁ :=
      hm.applyDeletions hf hdel (hclean.imp And.left fun hno => hno.2.1) hrun
    obtain ⟨hstrata, hstatus⟩ := applyDeletions_status hrun
    have hstrata : activeStrata m₁.programs = activeStrata m.programs := hstrata
    have hfirst (q : Quad) : m₁.base.Extensional q ↔ q ∈ W := by
      rw [← hedited q]
      obtain ⟨hto, hfrom⟩ := hstatus q
      constructor
      · intro hq
        rcases hfrom hq with hq | hq
        · exact hq.1
        · exact (hedited q).mpr (hheads q hq)
      · intro hq
        have hkept : q ∉ deletes := by
          rcases (hedited q).mp hq with hq | hq
          · exact hq.2
          · exact hdisjoint q hq.1
        exact hto hq hkept ((hkeeps hdel).imp_right fun hno => hno q hq hkept)
    have hset : {q | m₁.base.Extensional q} = W := Set.ext hfirst
    have hderived (q : Quad) : ¬ m₁.base.Derived q ↔
        q ∈ W ∨ q ∉ strataModel r.env (activeStrata m.programs) W := by
      rw [hm₁.derived_iff q, hstrata, hset, hfirst q, not_and_or, not_not, or_comm]
    ext q
    rw [Set.mem_ofPred_eq, assertedAfter, Set.mem_ofPred_eq, and_iff_right hdel]
    rcases hinsert with ⟨rfl, rfl⟩ | ⟨-, h⟩
    · rw [hfirst q]
      exact (or_iff_left fun hq => absurd hq.1 List.not_mem_nil).symm
    · obtain ⟨hto, hfrom⟩ := (applyInsertions_status h).2 q
      rw [hstrata] at hfrom
      constructor
      · intro hq
        rcases hfrom hq with hq | ⟨hq, hno⟩ | hq
        · exact .inl ((hfirst q).mp hq)
        · rcases (hderived q).mp hno with hno | hno
          · exact .inl hno
          · exact .inr ⟨hq, hno⟩
        · exact .inl (hheads q hq)
      · intro hq
        rcases hq with hq | ⟨hq, hno⟩
        · exact hto (.inl ((hfirst q).mpr hq))
        · exact hto (.inr ⟨hq, (hderived q).mpr (.inr hno)⟩)

end Status

/-- The same quads, asserted and derived alike. -/
def SameStatus (base base' : QuadStore) : Prop :=
  ∀ q, (q ∈ base' ↔ q ∈ base) ∧ (base'.Extensional q ↔ base.Extensional q)

theorem SameStatus.setOf_extensional {base base' : QuadStore} (h : SameStatus base base') :
    {q | base.Extensional q} = {q | base'.Extensional q} :=
  Set.ext fun q => (h q).2.symm

/-- The table is as it was, and the derivations on record match it under the same rules. -/
structure Restored (env : ReasonerEnv Expr) (m m' : IncrementalReasoner Expr) : Prop where
  status : SameStatus m.base m'.base
  rules : activeStrata m'.programs = activeStrata m.programs
  maintained : Maintained env m'

theorem Maintained.congr {env : ReasonerEnv Expr} {m : IncrementalReasoner Expr} {base : QuadStore}
    (hm : Maintained env m) (h : SameStatus m.base base) : Maintained env ⟨m.programs, base⟩ := by
  have hquads : base.quads = m.base.quads := Set.ext fun q => (h q).1
  have hasserted : (⟨m.programs, base⟩ : IncrementalReasoner Expr).asserted = m.asserted :=
    Set.ext fun q => or_congr_left (h q).2
  rw [Maintained, hasserted]
  refine ⟨hm.ordered, fun q => (hm.facts q).trans (or_congr_left (h q).2.symm), ?_,
    fun p hp q d hd => (h q).1.mpr (hm.stored p hp q d hd), ?_⟩
  · show Saturated env _ base.quads
    rw [hquads]
    exact hm.saturated
  · show base.quads ⊆ _
    rw [hquads]
    have hctx : {q | q ∈ base ∧ q ∉ ([] : List Quad)} = {q | q ∈ m.base ∧ q ∉ ([] : List Quad)} :=
      Set.ext fun q => and_congr_left fun _ => (h q).1
    rw [hctx]
    exact hm.backed

theorem sameStatus_of_asserted {env : ReasonerEnv Expr} {m m' : IncrementalReasoner Expr}
    (hm : Maintained env m) (hm' : Maintained env m')
    (hrules : activeStrata m'.programs = activeStrata m.programs)
    (h : ∀ q, m'.base.Extensional q ↔ m.base.Extensional q) : SameStatus m.base m'.base := by
  intro q
  refine ⟨?_, h q⟩
  have hset : {q | m'.base.Extensional q} = {q | m.base.Extensional q} := Set.ext h
  have hquads : m'.base.quads = m.base.quads := by
    rw [hm'.closure, hm.closure, hrules, hset]
  rw [← mem_quads, ← mem_quads, hquads]

section Rollback

variable {env : ReasonerEnv Expr} {strata : List (List (Rule Expr))} {E : Set Quad}
  {deletes inserts : List Quad}

theorem mem_writtenAsserted_back (hdisjoint : ∀ q ∈ inserts, q ∉ deletes) (q : Quad) :
    q ∈ writtenAsserted env strata (assertedAfter env strata E deletes inserts) inserts deletes ↔
      (q ∈ E ∧ q ∉ deletes ∧ q ∉ inserts) ∨
        (q ∈ deletes ∧
          q ∉ strataModel env strata (assertedAfter env strata E deletes inserts)) := by
  constructor
  · rintro (⟨hq, hins⟩ | ⟨hdel, hq⟩)
    · rcases assertedAfter_subset hq with ⟨hE, hdel⟩ | hmem
      · exact .inl ⟨hE, hdel, hins⟩
      · exact absurd hmem hins
    · refine .inr ⟨hdel, hq.resolve_left fun hafter => ?_⟩
      rcases assertedAfter_subset hafter with ⟨-, hno⟩ | hins
      · exact hno hdel
      · exact hdisjoint q hins hdel
  · rintro (⟨hE, hdel, hins⟩ | ⟨hdel, hq⟩)
    · exact .inl ⟨.inl (.inl ⟨hE, hdel⟩), hins⟩
    · exact .inr ⟨hdel, .inr hq⟩

/-- A delta comes off when the reasoner is told: no inserted quad was asserted, and the deleted ones
that were are those that do not follow when they are put back. -/
def ComesOff (env : ReasonerEnv Expr) (strata : List (List (Rule Expr))) (E : Set Quad)
    (deletes inserts : List Quad) : Prop :=
  (∀ q ∈ inserts, q ∉ E) ∧ ∀ q ∈ deletes, (q ∈ E ↔
    q ∉ strataModel env strata (assertedAfter env strata E deletes inserts) ∨
    (inserts ≠ [] ∧ q ∉ strataModel env strata (writtenAsserted env strata
      (assertedAfter env strata E deletes inserts) inserts deletes)))

/-- A delta comes off the store alone: what it derived goes with the inserted quads, and what it
suppressed is among the deleted ones. -/
def ComesOffAlone (env : ReasonerEnv Expr) (strata : List (List (Rule Expr))) (E : Set Quad)
    (deletes inserts : List Quad) : Prop :=
  (∀ q, (q ∈ strataModel env strata (assertedAfter env strata E deletes inserts) ∧ q ∉ inserts) ∨
    q ∈ deletes ↔ q ∈ strataModel env strata E) ∧
  (∀ q ∈ inserts, q ∉ E) ∧
  ∀ q ∈ deletes, (q ∈ E ↔
    q ∉ strataModel env strata (assertedAfter env strata E deletes inserts))

/-- Taking a delta back on the level of what is asserted: exact iff no inserted quad was asserted,
and the deleted ones that were are those that come back as asserted ones. -/
theorem assertedAfter_back_iff (hdisjoint : ∀ q ∈ inserts, q ∉ deletes) :
    (∀ q, q ∈ assertedAfter env strata (assertedAfter env strata E deletes inserts)
      inserts deletes ↔
      q ∈ E) ↔ ComesOff env strata E deletes inserts := by
  have hmem (q : Quad) : q ∈ assertedAfter env strata (assertedAfter env strata E deletes inserts)
      inserts deletes ↔ (q ∈ E ∧ q ∉ deletes ∧ q ∉ inserts) ∨ (q ∈ deletes ∧
        (q ∉ strataModel env strata (assertedAfter env strata E deletes inserts) ∨
        (inserts ≠ [] ∧ q ∉ strataModel env strata (writtenAsserted env strata
          (assertedAfter env strata E deletes inserts) inserts deletes)))) := by
    have hback : q ∈ writtenAsserted env strata (assertedAfter env strata E deletes inserts) inserts
        deletes ↔ _ := mem_writtenAsserted_back hdisjoint q
    rw [assertedAfter, Set.mem_ofPred_eq, hback, or_assoc]
    refine or_congr_right ?_
    rw [and_or_left]
    refine or_congr_right ?_
    exact and_left_comm
  constructor
  · intro h
    refine ⟨fun q hins hE => ?_, fun q hdel => ?_⟩
    · rcases (hmem q).mp ((h q).mpr hE) with hq | hq
      · exact hq.2.2 hins
      · exact hdisjoint q hins hq.1
    · rw [← h q, hmem q, and_iff_right hdel]
      exact or_iff_right fun hq => hq.2.1 hdel
  · rintro ⟨hinserts, hdeletes⟩ q
    rw [hmem q]
    by_cases hdel : q ∈ deletes
    · rw [hdeletes q hdel, and_iff_right hdel]
      exact or_iff_right fun hq => hq.2.1 hdel
    · constructor
      · rintro (hq | hq)
        · exact hq.1
        · exact absurd hq.1 hdel
      · exact fun hE => .inl ⟨hE, hdel, fun hins => hinserts q hins hE⟩

end Rollback

section Delta

variable {r : Reasoning Expr} (hf : r.env.FixedFilters) {m m₁ m₂ : IncrementalReasoner Expr}
  {deletes inserts : List Quad}

/-- The reasoner takes the delta, and takes it back, without a fault of its own: no derivation is
left behind that is falsified, and no asserted quad loses its status. -/
structure CleanRollback (r : Reasoning Expr) (m m₁ : IncrementalReasoner Expr)
    (deletes inserts : List Quad) : Prop where
  facts : ∀ q ∈ factHeads (activeStrata m.programs).flatten,
    m.base.Extensional q ∧ q ∉ deletes ∧ q ∉ inserts
  delta : CleanDelta r.env m deletes inserts
  kept : DeletesKept m deletes inserts
  back : CleanDelta r.env m₁ inserts deletes
  backKept : DeletesKept m₁ inserts deletes

variable (hclean : CleanRollback r m m₁ deletes inserts) (hm : Maintained r.env m)
  (hdisjoint : ∀ q ∈ inserts, q ∉ deletes)
  (h₁ : reasonDelta r (edited m deletes inserts) deletes inserts = .ok m₁)
include hf hclean hm hdisjoint h₁

theorem CleanRollback.after :
    Maintained r.env m₁ ∧ activeStrata m₁.programs = activeStrata m.programs ∧
      {q | m₁.base.Extensional q} = assertedAfter r.env (activeStrata m.programs)
        {q | m.base.Extensional q} deletes inserts :=
  ⟨reasonDelta_maintained hf hm hclean.delta h₁,
    reasonDelta_strata (m := edited m deletes inserts) h₁,
    reasonDelta_asserted hf hm hclean.delta hclean.kept
      (fun q hq => ⟨(hclean.facts q hq).1, (hclean.facts q hq).2.1⟩) hdisjoint h₁⟩

/-- A rollback that the reasoner takes part in restores the state exactly when the delta can be
taken back on the level of what is asserted. -/
theorem rollback_restored_iff
    (h₂ : reasonDelta r (edited m₁ inserts deletes) inserts deletes = .ok m₂) :
    Restored r.env m m₂ ↔ ComesOff r.env (activeStrata m.programs) {q | m.base.Extensional q}
      deletes inserts := by
  obtain ⟨hm₁, hrules₁, hset₁⟩ := hclean.after hf hm hdisjoint h₁
  have hfacts : ∀ q ∈ factHeads (activeStrata m₁.programs).flatten,
      m₁.base.Extensional q ∧ q ∉ inserts := by
    intro q hq
    rw [hrules₁] at hq
    obtain ⟨hext, hdel, hins⟩ := hclean.facts q hq
    have hafter : q ∈ {q | m₁.base.Extensional q} := by
      rw [hset₁]
      exact .inl (.inl ⟨hext, hdel⟩)
    exact ⟨hafter, hins⟩
  have hset₂ := reasonDelta_asserted hf hm₁ hclean.back hclean.backKept hfacts
    (fun q hdel hins => hdisjoint q hins hdel) h₂
  rw [hrules₁, hset₁] at hset₂
  have hm₂ : Maintained r.env m₂ := reasonDelta_maintained hf hm₁ hclean.back h₂
  have hrules₂ : activeStrata m₂.programs = activeStrata m.programs :=
    (reasonDelta_strata (m := edited m₁ inserts deletes) h₂).trans hrules₁
  refine Iff.trans ?_ (assertedAfter_back_iff (E := {q | m.base.Extensional q}) hdisjoint)
  constructor
  · intro h q
    rw [← hset₂]
    exact (h.status q).2
  · intro h
    have hasserted (q : Quad) : m₂.base.Extensional q ↔ m.base.Extensional q := by
      have hq := h q
      rw [← hset₂] at hq
      exact hq
    exact ⟨sameStatus_of_asserted hm hm₂ hrules₂ hasserted, hrules₂, hm₂⟩

theorem revert_sameStatus_iff :
    SameStatus m.base (edited m₁ inserts deletes).base ↔ ComesOffAlone r.env
      (activeStrata m.programs) {q | m.base.Extensional q} deletes inserts := by
  obtain ⟨hm₁, hrules₁, hset₁⟩ := hclean.after hf hm hdisjoint h₁
  let A := assertedAfter r.env (activeStrata m.programs) {q | m.base.Extensional q} deletes inserts
  have hquads₁ (q : Quad) : q ∈ m₁.base ↔ q ∈ strataModel r.env (activeStrata m.programs) A := by
    rw [← mem_quads, hm₁.closure, hrules₁, hset₁]
  have hquads (q : Quad) : q ∈ m.base ↔ q ∈ strataModel r.env (activeStrata m.programs)
      {q | m.base.Extensional q} := by
    rw [← mem_quads, hm.closure]
  have hmem (q : Quad) : q ∈ (edited m₁ inserts deletes).base ↔
      (q ∈ m₁.base ∧ q ∉ inserts) ∨ q ∈ deletes := by
    rw [edited, mem_foldl_addQuad, mem_foldl_removeQuad]
  have hext (q : Quad) : (edited m₁ inserts deletes).base.Extensional q ↔
      (m.base.Extensional q ∧ q ∉ deletes ∧ q ∉ inserts) ∨
        (q ∈ deletes ∧ q ∉ strataModel r.env (activeStrata m.programs) A) := by
    rw [edited_extensional hm₁ fun q hdel hins => hdisjoint q hins hdel, hrules₁, hset₁]
    exact mem_writtenAsserted_back hdisjoint q
  constructor
  · intro h
    refine ⟨fun q => ?_, fun q hins hE => ?_, fun q hdel => ?_⟩
    · rw [← hquads₁, ← hquads, ← hmem]
      exact (h q).1
    · rcases (hext q).mp ((h q).2.mpr hE) with hq | hq
      · exact hq.2.2 hins
      · exact hdisjoint q hins hq.1
    · rw [Set.mem_ofPred_eq, ← (h q).2, hext q, and_iff_right hdel]
      exact or_iff_right fun hq => hq.2.1 hdel
  · rintro ⟨hstored, hinserts, hdeletes⟩ q
    refine ⟨?_, ?_⟩
    · rw [hmem, hquads₁, hquads]
      exact hstored q
    · rw [hext q]
      by_cases hdel : q ∈ deletes
      · have hasserted : m.base.Extensional q ↔ _ := hdeletes q hdel
        rw [hasserted, and_iff_right hdel]
        exact or_iff_right fun hq => hq.2.1 hdel
      · constructor
        · rintro (hq | hq)
          · exact hq.1
          · exact absurd hq.1 hdel
        · exact fun hE => .inl ⟨hE, hdel, fun hins => hinserts q hins hE⟩

end Delta

end RdfDatalog.Endpoint
