import RdfDatalog.Datalog.AssertionStatus
import RdfDatalog.Datalog.RecordedClauses

namespace RdfDatalog.Datalog

open GroundProgram FallibleFold DatalogProgram

variable {Expr : Type}

/-- The reverse index counts the derivations by every rule in force that has a negated atom. -/
structure DatalogProgram.TracksNegation (p : DatalogProgram Expr) : Prop where
  exact : p.derivedFrom.ByRuleExact
  triggering : ∀ id r, p.Enabled id r → r.notPatterns ≠ [] →
    id ∈ p.derivedFrom.negativelyTriggeringRules

def TracksNegation (programs : List (DatalogProgram Expr)) : Prop :=
  ∀ p ∈ programs, p.TracksNegation

/-- No rule in force has a negated atom. -/
def Positive (rules : List (Rule Expr)) : Prop := ∀ r ∈ rules, r.notPatterns = []

namespace DatalogProgram

variable {p : DatalogProgram Expr}

theorem TracksNegation.withDerivedFrom (h : p.TracksNegation) {x : DerivedFromIndex}
    (hexact : x.ByRuleExact)
    (hsame : x.negativelyTriggeringRules = p.derivedFrom.negativelyTriggeringRules) :
    (p.withDerivedFrom x).TracksNegation := by
  refine ⟨hexact, ?_⟩
  intro id r henabled hne
  have htrigger := h.triggering id r henabled hne
  rw [← hsame] at htrigger
  exact htrigger

theorem TracksNegation.remove (h : p.TracksNegation) (q : Quad) :
    (p.withDerivedFrom (p.derivedFrom.remove q)).TracksNegation :=
  h.withDerivedFrom (h.exact.remove q) (p.derivedFrom.remove_negativelyTriggeringRules q)

end DatalogProgram

theorem Reaches.tracks {env : ReasonerEnv Expr} {p : DatalogProgram Expr} {N : Set Quad}
    {m m' : Materialisation} (h : Reaches env p N m m') (hm : m.derivedFrom.ByRuleExact) :
    m'.derivedFrom.ByRuleExact ∧
      m'.derivedFrom.negativelyTriggeringRules = m.derivedFrom.negativelyTriggeringRules := by
  induction h with
  | refl => exact ⟨hm, rfl⟩
  | @tail m₁ m₂ _ hstep ih =>
    cases hstep with
    | @fire id r sub h ws =>
      obtain ⟨hexact, hsame⟩ := ih
      have hrecord := m₁.derivedFrom.record_negativelyTriggeringRules h ⟨id, ws⟩
      exact ⟨hexact.record h ⟨id, ws⟩, hrecord.trans hsame⟩

theorem Swept.tracks {env : ReasonerEnv Expr} {delta : List Quad}
    {ps : List (DatalogProgram Expr)} {base : QuadStore} {s : Sweep Expr}
    (h : Swept env delta ps base s) (htracks : TracksNegation ps) : TracksNegation s.programs := by
  induction h with
  | nil => exact htracks
  | @cons delta given p ps base m s hgiven hrun hrest ih =>
    obtain ⟨facts, start, -, -, hderived, -, hR⟩ := hrun
    have hp := htracks p List.mem_cons_self
    have hstart : start.derivedFrom.ByRuleExact := by
      rw [hderived]
      exact hp.exact
    obtain ⟨hexact, hsame⟩ := hR.tracks hstart
    rw [hderived] at hsame
    intro p' hp'
    rcases List.mem_cons.mp hp' with rfl | hp'
    · exact hp.withDerivedFrom hexact hsame
    · exact ih (fun p hp => htracks p (List.mem_cons_of_mem _ hp)) p' hp'

namespace IncrementalReasoner

theorem tracks_foldl_retract {m : IncrementalReasoner Expr} (h : TracksNegation m.programs)
    (pd : List Quad) : TracksNegation (pd.foldl retract m).programs := by
  induction pd generalizing m with
  | nil => exact h
  | cons q pd ih =>
    apply ih
    intro p hp
    obtain ⟨p', hp', rfl⟩ := List.mem_map.mp hp
    exact (h p' hp').remove q

section Seeds

variable {env : ReasonerEnv Expr} {r : Rule Expr} {sub : Substitution}

theorem matchWitnesses_of_denotes {ps : List QuadPattern} {ws : List Quad} {a : Substitution}
    (hws : List.Forall₂ (fun p q => applySubstitutionQuad sub p = some q) ps ws)
    (ha : a.ExtendedBy sub) : ∃ b, reconstructSubstitution.matchWitnesses a ps ws = some b ∧
      b.ExtendedBy sub ∧ a.ExtendedBy b ∧ ∀ p ∈ ps, ∀ v ∈ p.getVariables, (b v).isSome := by
  induction hws generalizing a with
  | nil => exact ⟨a, rfl, ha, .refl a, nofun⟩
  | @cons p w ps ws hw hws ih =>
    obtain ⟨c, hc, hcsub⟩ := exists_getSubstitutions ha hw
    obtain ⟨hcp, hac, -⟩ := getSubstitutions_spec hc
    obtain ⟨b, hb, hbsub, hcb, hbound⟩ := ih hcsub
    refine ⟨b, ?_, hbsub, hac.trans hcb, ?_⟩
    · rw [reconstructSubstitution.matchWitnesses, hc]
      exact hb
    · intro p' hp' v hv
      rcases List.mem_cons.mp hp' with rfl | hp'
      · have hsome := isSome_of_applySubstitutionQuad hcp hv
        rw [← hcb.eq_of_isSome hsome]
        exact hsome
      · exact hbound p' hp' v hv

theorem reconstructSubstitution_of_grounds (hg : r.Grounds env sub) {ws : List Quad}
    (hws : r.bodyWitnesses sub = some ws) (id : Nat) :
    reconstructSubstitution r ⟨id, ws⟩ = some sub := by
  obtain ⟨b, hb, hbsub, -, hbound⟩ :=
    matchWitnesses_of_denotes (mapM_eq_some_iff.mp hws) (Substitution.ExtendedBy.empty sub)
  have heq : b = sub := by
    funext v
    by_cases hv : (sub v).isSome
    · obtain ⟨p, hp, hvp⟩ := (hg.dom v).mp hv
      exact hbsub.eq_of_isSome (hbound p hp v hvp)
    · have hnone : sub v = none := Option.not_isSome_iff_eq_none.mp hv
      cases hbv : b v with
      | none => exact hnone.symm
      | some x => exact (hbsub v x hbv).symm
  rw [reconstructSubstitution, hb, heq]

theorem mem_negationInvalidatedSeeds {programs : List (DatalogProgram Expr)} {facts : List Quad}
    (h : TracksNegation programs) {c : Clause Quad} (hc : c ∈ recordedClauses env programs)
    {b : Quad} (hb : b ∈ c.neg) (hfact : b ∈ facts) :
    c.head ∈ negationInvalidatedSeeds programs facts := by
  obtain ⟨p, hp, id, r, sub, ws, henabled, hg, hh, hws, hrec, hclause⟩ := hc
  rw [hclause] at hb
  obtain ⟨pattern, hpattern, hmatch⟩ := hb
  obtain ⟨hexact, htrigger⟩ := h p hp
  have hne : r.notPatterns ≠ [] := List.ne_nil_of_mem hpattern
  have hempty : Matches emptySubstitution pattern b := by
    obtain ⟨sub', -, hsub'⟩ := hmatch
    exact ⟨sub', .empty sub', hsub'⟩
  have hrule : (id, pattern) ∈ p.negativelyTriggeredRules b :=
    (mem_negativelyTriggeredRules hempty).mpr ⟨r, henabled, hpattern⟩
  have hquads : c.head ∈ p.derivedFrom.quadsForRule id :=
    (hexact id (htrigger id r henabled hne) c.head).mpr ⟨_, hrec, rfl⟩
  have hfalsifies : falsifies p b id pattern c.head = true := by
    rw [falsifies, henabled.1]
    dsimp only
    rw [List.any_eq_true]
    refine ⟨⟨id, ws⟩, hrec, ?_⟩
    rw [reconstructSubstitution_of_grounds hg hws id]
    rw [← getSubstitutions_isSome] at hmatch
    simp [hmatch]
  rw [negationInvalidatedSeeds, List.mem_dedup, List.mem_flatMap]
  refine ⟨b, hfact, List.mem_flatMap.mpr ⟨p, hp, List.mem_flatMap.mpr ⟨_, hrule, ?_⟩⟩⟩
  exact List.mem_filter.mpr ⟨hquads, hfalsifies⟩

end Seeds

end IncrementalReasoner

/-- Every active instance has its head quad in `M`. -/
def Saturated (env : ReasonerEnv Expr) (rules : List (Rule Expr)) (M : Set Quad) : Prop :=
  ∀ r ∈ rules, ∀ sub, r.Grounds env sub → r.ActiveIn sub M → ∃ q ∈ M, r.headQuad sub = some q

section Saturated

variable {env : ReasonerEnv Expr} {rules : List (Rule Expr)} {strata : List (List (Rule Expr))}
  {M E : Set Quad}

theorem Saturated.closed (h : Saturated env rules M) :
    ∀ c ∈ clausesOf env rules, c.Active M → c.head ∈ M := by
  rintro _ ⟨r, hr, sub, q, hg, hh, rfl⟩ hact
  obtain ⟨q', hq', hh'⟩ := h r hr sub hg hact
  rw [hh] at hh'
  cases hh'
  exact hq'

theorem Saturated.consistent (h : Saturated env rules M) : Consistent env rules M := by
  intro r hr sub hg hact
  obtain ⟨q, -, hh⟩ := h r hr sub hg hact
  rw [hh]
  rfl

theorem saturated_of_closed (hclosed : ∀ c ∈ clausesOf env rules, c.Active M → c.head ∈ M)
    (hcons : Consistent env rules M) : Saturated env rules M := by
  intro r hr sub hg hact
  obtain ⟨q, hh⟩ := Option.isSome_iff_exists.mp (hcons r hr sub hg hact)
  exact ⟨q, hclosed _ ⟨r, hr, sub, q, hg, hh, rfl⟩ hact, hh⟩

theorem OrderedStrata.saturated_strataModel (hs : OrderedStrata strata)
    (hcons : Consistent env strata.flatten (strataModel env strata E)) :
    Saturated env strata.flatten (strataModel env strata E) :=
  saturated_of_closed (fun _ hc hact => (hs.strataModel_isStable env E).head_mem hc hact) hcons

theorem Saturated.factHeads_subset (h : Saturated env rules M) : factHeads rules ⊆ M := by
  intro q hq
  obtain ⟨c, hc, rfl, hact⟩ := exists_clause_of_fact env hq
  exact h.closed c hc (hact M)

theorem OrderedStrata.eq_strataModel (hs : OrderedStrata strata)
    (h : Saturated env strata.flatten M) (hE : E ⊆ M)
    (hsub : M ⊆ closure (clausesOf env strata.flatten) M E) : M = strataModel env strata E :=
  (hs.isStable_iff env).mp (.of_closed hE h.closed hsub)

theorem OrderedStrata.strataModel_union_factHeads (hs : OrderedStrata strata)
    (env : ReasonerEnv Expr) (E : Set Quad) :
    strataModel env strata (E ∪ factHeads strata.flatten) = strataModel env strata E := by
  rw [hs.strataModel_eq_iff env]
  constructor
  · exact Set.union_subset (subset_strataModel env strata E) (hs.factHeads_subset env E)
  · exact Set.subset_union_left.trans (subset_strataModel env strata _)

end Saturated

section Forward

variable {env : ReasonerEnv Expr} {ps : List (DatalogProgram Expr)} {base : QuadStore}
  {s : Sweep Expr} {delta : List Quad}

theorem Swept.mem_cases (h : Swept env delta ps base s) (hs : OrderedStrata (activeStrata ps))
    (hdelta : ∀ q ∈ delta, q ∈ base) {q : Quad} (hq : q ∈ s.base) :
    q ∈ base ∨ ∃ c ∈ clausesOf env (activeStrata ps).flatten, c.head = q := by
  rcases mem_closure_cases (h.backed hs hdelta hq) with (hq | hfact) | ⟨c, hc, heq⟩
  · exact .inl hq
  · obtain ⟨c, hc, heq, -⟩ := exists_clause_of_fact env hfact
    exact .inr ⟨c, hc, heq⟩
  · refine .inr ⟨c, ?_, heq⟩
    rw [← h.strata]
    exact recordedClauses_subset env _ hc

theorem materialiseForward_saturated (hf : env.FixedFilters) {B : Set Quad}
    (hs : OrderedStrata (activeStrata ps)) (hdelta : ∀ q ∈ delta, q ∈ base)
    (hB : B ⊆ base.quads) (hnew : ∀ q ∈ base, q ∈ B ∨ q ∈ delta)
    (hsat : Saturated env (activeStrata ps).flatten B) (hstored : RecordsStored ps base)
    (h : materialiseForward env delta ps base = .ok s) :
    Saturated env (activeStrata ps).flatten s.base.quads := by
  induction ps generalizing delta base s with
  | nil => exact nofun
  | cons p ps ih =>
    have hrules : (activeStrata (p :: ps)).flatten = p.activeRules ++ (activeStrata ps).flatten :=
      rfl
    rw [hrules] at hsat ⊢
    obtain ⟨m, s', hm, hs', rfl⟩ := sweep_cons_ok h
    have hrun := runsOver_fromFacts hf hm
    have hgrows := hrun.grows
    have hdelta' := mem_delta_append hrun hdelta
    have hrest := swept_materialiseForward hf hs'
    obtain ⟨facts, hfacts, hR, hcov⟩ := materialiseSeminaiveTrackedFromFacts_ok hf hm
    have hstart := p.mem_fedWith base facts delta
    have hown : Saturated env p.activeRules B :=
      fun r hr => hsat r (List.mem_append_left _ hr)
    have hfactB : ∀ q ∈ facts, q ∈ B := by
      intro q hq
      exact hown.factHeads_subset ((mem_facts_iff hfacts q).mp hq)
    -- what the stratum does not hold in `B` triggers its rules
    have htrigger : ∀ q, q ∉ B → q ∈ delta ∨ q ∉ (p.fedWith base facts delta).base := by
      intro q hq
      by_cases hmem : q ∈ (p.fedWith base facts delta).base
      · rcases (hstart q).mp hmem with hbase | hfact | hd
        · exact .inl ((hnew q hbase).resolve_left hq)
        · exact absurd (hfactB q hfact) hq
        · exact .inl hd
      · exact .inr hmem
    have hstored₁ : ∀ q d, (p.fedWith base facts delta).derivedFrom.Recorded q d →
        q ∈ (p.fedWith base facts delta).base :=
      fun q d hd => (hstart q).mpr (.inl (hstored p List.mem_cons_self q d hd))
    have hnew' : ∀ q ∈ m.base, q ∈ B ∨ q ∈ delta ++ m.track.map Prod.fst := by
      intro q hq
      rcases hR.logged hstored₁ q hq with hq | hq
      · rcases (hstart q).mp hq with hbase | hfact | hd
        · exact (hnew q hbase).imp_right (List.mem_append_left _)
        · exact .inl (hfactB q hfact)
        · exact .inr (List.mem_append_left _ hd)
      · exact .inr (List.mem_append_right _ hq)
    have hstored' : RecordsStored ps m.base :=
      fun p' hp' q d hd => hgrows q (hstored p' (List.mem_cons_of_mem _ hp') q d hd)
    have hlater := ih hs.tail hdelta' (fun q hq => hgrows q (hB hq)) hnew'
      (fun r hr => hsat r (List.mem_append_right _ hr)) hstored' hs'
    intro r hr sub hg hact
    rcases List.mem_append.mp hr with hr | hr
    · have hbefore : RunsBefore p.activeRules (activeStrata ps).flatten := by
        intro r hr producer hp
        obtain ⟨rules, hrules, hp⟩ := List.mem_flatten.mp hp
        exact (List.pairwise_cons.mp hs.order).1 rules hrules r hr producer hp
      have hpos : r.witnesses sub ⊆ m.base.quads := by
        intro w hw
        rcases hrest.mem_cases hs.tail hdelta'
          (hact.1 hw) with hm | ⟨_, ⟨producer, hp, sub', q, -, hh, rfl⟩, rfl⟩
        · exact hm
        · exact absurd (feedsPositive_of_head hh hw) (hbefore r hr producer hp).1
      have hneg : ∀ b ∈ r.blockers sub, b ∉ m.base := fun b hb hm => hact.2 b hb (hrest.grows b hm)
      by_cases hold : r.witnesses sub ⊆ B
      · obtain ⟨q, hq, hh⟩ := hown r hr sub hg
          ⟨hold, fun b hb hbB => hneg b hb (hgrows b (hB hbB))⟩
        exact ⟨q, hrest.grows q (hgrows q (hB hq)), hh⟩
      · obtain ⟨w, hw, hwB⟩ := Set.not_subset.mp hold
        obtain ⟨id, henabled⟩ := mem_activeRules.mp hr
        obtain ⟨q, ws, hh, -, hq, -⟩ :=
          hcov id r sub henabled hg hpos ⟨w, hw, htrigger w hwB⟩ hneg
        exact ⟨q, hrest.grows q hq, hh⟩
    · exact hlater r hr sub hg hact

theorem factHeads_subset_closure (env : ReasonerEnv Expr) (rules : List (Rule Expr))
    (N E : Set Quad) : factHeads rules ⊆ closure (clausesOf env rules) N E := by
  intro q hq
  obtain ⟨c, hc, rfl, hact⟩ := exists_clause_of_fact env hq
  have hpos : c.pos ⊆ closure (clausesOf env rules) N E := fun a ha => absurd ((hact ∅).1 ha) id
  exact head_mem_closure hc hpos (hact N).2

theorem Swept.model (h : Swept env delta ps base s) (hs : OrderedStrata (activeStrata ps))
    (hdelta : ∀ q ∈ delta, q ∈ base)
    (hsat : Saturated env (activeStrata ps).flatten s.base.quads) :
    s.base.quads = strataModel env (activeStrata ps) base.quads := by
  refine hs.eq_strataModel hsat h.grows ?_
  have hback := h.backed hs hdelta
  have hclauses := recordedClauses_subset env s.programs
  rw [h.strata] at hclauses
  have hmono := closure_mono (N := s.base.quads) hclauses Set.Subset.rfl
    (Set.Subset.rfl (s := base.quads ∪ factHeads (activeStrata ps).flatten))
  rw [closure_union_of_subset (factHeads_subset_closure env _ _ _)] at hmono
  exact hback.trans hmono

end Forward

namespace IncrementalReasoner

section Retract

variable {env : ReasonerEnv Expr} {m : IncrementalReasoner Expr} {pd : List Quad}

theorem recordedClauses_foldl_retract {c : Clause Quad}
    (hc : c ∈ recordedClauses env m.programs) (hno : c.head ∉ pd) :
    c ∈ recordedClauses env (pd.foldl retract m).programs := by
  induction pd generalizing m with
  | nil => exact hc
  | cons q pd ih =>
    rw [List.mem_cons, not_or] at hno
    refine ih ?_ hno.2
    obtain ⟨p, hp, id, r, sub, ws, henabled, hg, hh, hws, hrec, hclause⟩ := hc
    refine ⟨_, List.mem_map_of_mem hp, id, r, sub, ws, henabled, hg, hh, hws, ?_, hclause⟩
    exact (DerivedFromIndex.recorded_remove ..).mpr ⟨hrec, hno.1⟩

theorem recorded_foldl_retract {p' : DatalogProgram Expr}
    (hp' : p' ∈ (pd.foldl retract m).programs) {q : Quad} {d : Derivation}
    (hd : p'.derivedFrom.Recorded q d) :
    (∃ p ∈ m.programs, p.derivedFrom.Recorded q d) ∧ q ∉ pd := by
  induction pd generalizing m with
  | nil => exact ⟨⟨p', hp', hd⟩, List.not_mem_nil⟩
  | cons x pd ih =>
    obtain ⟨⟨p₁, hp₁, hd₁⟩, hno⟩ := ih hp'
    obtain ⟨p, hp, rfl⟩ := List.mem_map.mp hp₁
    obtain ⟨hrec, hne⟩ := (DerivedFromIndex.recorded_remove ..).mp hd₁
    refine ⟨⟨p, hp, hrec⟩, ?_⟩
    rw [List.mem_cons, not_or]
    exact ⟨hne, hno⟩

theorem recordsStored_foldl_retract (h : RecordsStored m.programs m.base) :
    RecordsStored (pd.foldl retract m).programs (pd.foldl retract m).base := by
  intro p' hp' q d hd
  obtain ⟨⟨p, hp, hrec⟩, hno⟩ := recorded_foldl_retract hp' hd
  exact (m.mem_foldl_retract pd q).mpr ⟨h p hp q d hrec, hno⟩

theorem supports_of_recorded {c : Clause Quad} (hc : c ∈ recordedClauses env m.programs)
    {w : Quad} (hw : w ∈ c.pos) : Supports m.programs w c.head := by
  obtain ⟨p, hp, id, r, sub, ws, -, -, -, hws, hrec, hclause⟩ := hc
  rw [hclause] at hw
  exact ⟨p, hp, ⟨id, ws⟩, hrec, (Rule.mem_bodyWitnesses hws w).mpr hw⟩

end Retract

section Tracks

variable {env : ReasonerEnv Expr} (hf : env.FixedFilters) {m m' : IncrementalReasoner Expr}
include hf

variable (h : TracksNegation m.programs)

include h

theorem rederive_tracks {pd : List Quad} {s : Sweep Expr}
    (hs : rederive env m pd = .ok s) : TracksNegation s.programs :=
  (swept_materialiseAll hf hs).tracks (tracks_foldl_retract h pd)

theorem retractNegationInvalidated_tracks {fuel : Nat}
    {check : List Quad} (hok : retractNegationInvalidated env fuel m check = .ok m') :
    TracksNegation m'.programs := by
  induction fuel generalizing m check with
  | zero => cases hok
  | succ fuel ih =>
    rw [retractNegationInvalidated] at hok
    split_ifs at hok with hseeds
    · cases hok
      exact h
    · split at hok
      · cases hok
      · rename_i s hs
        exact ih (rederive_tracks hf h hs) hok

theorem applyInsertions_tracks {fuel : Nat} {inserts : List Quad}
    (hok : applyInsertions env fuel m inserts = .ok m') : TracksNegation m'.programs := by
  rw [applyInsertions] at hok
  split at hok
  · cases hok
  · rename_i s hs
    have hswept := swept_materialiseForward hf hs
    exact retractNegationInvalidated_tracks hf (m := ⟨s.programs, s.base⟩) (hswept.tracks h) hok

theorem applyDeletions_tracks {deletes : List Quad} {n : Nat}
    (hno : ¬ m.FallsBack deletes) (hok : applyDeletions env m deletes = .ok (m', n)) :
    TracksNegation m'.programs := by
  obtain ⟨-, rfl⟩ | ⟨hfall, -⟩ | ⟨-, s, hs, rfl⟩ := applyDeletions_cases hok
  · exact h
  · exact absurd hfall hno
  · exact rederive_tracks hf
      (m := { m with base := deletes.foldl QuadStore.removeQuad m.base }) h hs

omit h

end Tracks

/-- A state between two rounds of an insertion: every stored quad follows from the facts `F` by
derivations on record, negation being read without the quads that are still to be checked. -/
structure Supported (env : ReasonerEnv Expr) (F : Set Quad) (check : List Quad)
    (m : IncrementalReasoner Expr) : Prop where
  ordered : OrderedStrata (activeStrata m.programs)
  facts : ∀ q, q ∈ F ↔
    m.base.Extensional q ∨ q ∈ factHeads (activeStrata m.programs).flatten
  saturated : Saturated env (activeStrata m.programs).flatten m.base.quads
  stored : RecordsStored m.programs m.base
  backed : m.base.quads ⊆
    closure (recordedClauses env m.programs) {q | q ∈ m.base ∧ q ∉ check} F

/-- A derivation on record that is not blocked stays so in the model of the store with the quads to
insert. -/
def Unfalsified (env : ReasonerEnv Expr) (m : IncrementalReasoner Expr) (inserts : List Quad) :
    Prop :=
  ∀ c ∈ recordedClauses env m.programs, (∀ b ∈ c.neg, b ∉ m.base) → ∀ b ∈ c.neg,
    b ∉ strataModel env (activeStrata m.programs) (m.base.quads ∪ {q | q ∈ inserts})

theorem unfalsified_of_positive {env : ReasonerEnv Expr} {m : IncrementalReasoner Expr}
    (h : Positive (activeStrata m.programs).flatten) (inserts : List Quad) :
    Unfalsified env m inserts := by
  intro c hc _ b hb
  obtain ⟨r, hr, sub, q, -, -, rfl⟩ := recordedClauses_subset env m.programs hc
  obtain ⟨p, hp, -⟩ := hb
  rw [h r hr] at hp
  cases hp

def newlyAsserted (m : IncrementalReasoner Expr) (inserts : List Quad) : Set Quad :=
  {q | q ∈ inserts ∧ ¬ m.base.Derived q}

namespace Supported

variable {env : ReasonerEnv Expr} {F : Set Quad} {check : List Quad}
  {m m' : IncrementalReasoner Expr} {s : Sweep Expr}

theorem facts_stored (h : Supported env F check m) : F ⊆ m.base.quads := by
  intro q hq
  rcases (h.facts q).mp hq with hq | hq
  · exact hq.1
  · exact h.saturated.factHeads_subset hq

theorem model (h : Supported env F [] m) :
    m.base.quads = strataModel env (activeStrata m.programs) F := by
  refine h.ordered.eq_strataModel h.saturated h.facts_stored ?_
  have hall : {q | q ∈ m.base ∧ q ∉ ([] : List Quad)} = m.base.quads := by
    ext q
    simp
  have hback := h.backed
  rw [hall] at hback
  exact hback.trans (closure_mono (recordedClauses_subset env _) Set.Subset.rfl Set.Subset.rfl)

theorem settled (h : Supported env F check m) (htracks : TracksNegation m.programs)
    (hseeds : negationInvalidatedSeeds m.programs check = []) : Supported env F [] m := by
  refine ⟨h.ordered, h.facts, h.saturated, h.stored, ?_⟩
  refine h.backed.trans (closure_subset (subset_closure _ _ _) ?_)
  intro c hc hpos hno
  refine head_mem_closure hc hpos ?_
  intro b hb ⟨hbase, _⟩
  refine hno b hb ⟨hbase, fun hcheck => ?_⟩
  have hseed := mem_negationInvalidatedSeeds htracks hc hb hcheck
  rw [hseeds] at hseed
  cases hseed

section Round

variable (hf : env.FixedFilters) {pd seeds : List Quad}
  (hpd : ∀ q, q ∈ pd ↔ q ∈ cascadePd m seeds) (hs : rederive env m pd = .ok s)
include hf hpd hs

variable (h : Supported env F check m)

include h

theorem kept_backed {N N' : Set Quad}
    (hblock : ∀ c ∈ recordedClauses env m.programs, c.head ∉ pd → ¬ m.base.Extensional c.head →
      (∀ b ∈ c.neg, b ∉ N) → ∀ b ∈ c.neg, b ∉ N') {q : Quad}
    (hq : Derives (recordedClauses env m.programs) N F q) (hkept : q ∉ pd) :
    q ∈ closure (recordedClauses env s.programs) N' F := by
  have hrecorded := (swept_materialiseAll hf hs).recorded
  induction hq with
  | base ha => exact subset_closure _ _ _ ha
  | @fire c hc hpos hneg ih =>
    by_cases hext : m.base.Extensional c.head
    · exact subset_closure _ _ _ ((h.facts c.head).mpr (.inl hext))
    · have hwitness : ∀ w ∈ c.pos, w ∉ pd := by
        intro w hw hmem
        obtain ⟨x, hx, hxext, hxw⟩ := mem_cascadePd.mp ((hpd w).mp hmem)
        have hstep := hxw.tail ⟨supports_of_recorded hc hw, hext⟩
        exact hkept ((hpd c.head).mpr (mem_cascadePd.mpr ⟨x, hx, hxext, hstep⟩))
      exact head_mem_closure (hrecorded (recordedClauses_foldl_retract hc hkept))
        (fun w hw => ih w hw (hwitness w hw)) (hblock c hc hkept hext hneg)

theorem rederived {N' : List Quad}
    (hkept : ∀ q ∈ m.base, q ∉ pd → q ∈ closure (recordedClauses env s.programs)
      {q | q ∈ s.base ∧ q ∉ N'} F) : Supported env F N' ⟨s.programs, s.base⟩ := by
  have hswept := swept_materialiseAll hf hs
  have hstrata := rederive_strata hs
  have hstatus := rederive_status hs
  obtain ⟨hquads, hcons⟩ := rederive_ok hf h.ordered hs
  have hordered' : OrderedStrata (activeStrata (pd.foldl retract m).programs) := by
    rw [activeStrata_foldl_retract]
    exact h.ordered
  constructor
  · rw [hstrata]
    exact h.ordered
  · intro q
    rw [hstrata, h.facts q]
    constructor
    · rintro (hq | hq)
      · refine .inl ((hstatus q).1 hq fun hmem => ?_)
        exact mem_cascadePd_not_extensional ((hpd q).mp hmem) hq
      · exact .inr hq
    · rintro (hq | hq)
      · exact ((hstatus q).2 hq).imp_left And.left
      · exact .inr hq
  · rw [hstrata]
    dsimp only
    rw [hquads] at hcons ⊢
    exact h.ordered.saturated_strataModel hcons
  · exact hswept.recordsStored (recordsStored_foldl_retract h.stored)
  · refine (hswept.backed hordered' nofun).trans (closure_subset ?_ ?_)
    · rw [activeStrata_foldl_retract]
      apply Set.union_subset
      · intro q hq
        obtain ⟨hmem, hno⟩ := (m.mem_foldl_retract pd q).mp hq
        exact hkept q hmem hno
      · exact fun q hq => GroundProgram.subset_closure _ _ _ ((h.facts q).mpr (.inr hq))
    · exact fun c hc hpos hno => head_mem_closure hc hpos fun b hb hmem => hno b hb hmem.1

theorem round (htracks : TracksNegation m.programs)
    (hseeds : seeds = negationInvalidatedSeeds m.programs check) :
    Supported env F (s.tracked.flatten.map Prod.fst) ⟨s.programs, s.base⟩ := by
  refine h.rederived hf hpd hs fun q hq hno => h.kept_backed hf hpd hs ?_ (h.backed hq) hno
  intro c hc hkept hext hneg b hb ⟨hbase, hnew⟩
  have hlogged := (swept_materialiseAll hf hs).logged (recordsStored_foldl_retract h.stored)
    nofun b hbase
  rw [activeStrata_foldl_retract] at hlogged
  have hold : b ∈ m.base := by
    rcases hlogged with hold | hfact | htrack
    · exact ((m.mem_foldl_retract pd b).mp hold).1
    · exact h.saturated.factHeads_subset hfact
    · exact absurd htrack hnew
  refine hneg b hb ⟨hold, fun hcheck => hkept ((hpd c.head).mpr ?_)⟩
  have hseed := mem_negationInvalidatedSeeds htracks hc hb hcheck
  rw [← hseeds] at hseed
  exact mem_cascadePd.mpr ⟨c.head, hseed, hext, .refl⟩

omit h

theorem round_settled (h : Supported env F [] m) : Supported env F [] ⟨s.programs, s.base⟩ := by
  have hsame : s.base.quads = m.base.quads := by
    rw [(rederive_ok hf h.ordered hs).1, h.model, h.ordered.strataModel_eq_iff env]
    have hmodel := h.model
    constructor
    · intro q hq
      rw [← hmodel]
      exact hq.1
    · intro q hq
      rcases (h.facts q).mp hq with hext | hfact
      · refine subset_strataModel env _ _ ⟨hext.1, fun hmem => ?_⟩
        exact mem_cascadePd_not_extensional ((hpd q).mp hmem) hext
      · exact h.ordered.factHeads_subset env _ hfact
  refine h.rederived hf hpd hs fun q hq hno => h.kept_backed hf hpd hs ?_ (h.backed hq) hno
  intro c _ _ _ hneg b hb hmem
  refine hneg b hb ⟨?_, hmem.2⟩
  rw [← QuadStore.mem_quads, ← hsame]
  exact hmem.1

end Round

section Rounds

variable (hf : env.FixedFilters) {fuel : Nat}
include hf

theorem retractNegationInvalidated (h : Supported env F check m)
    (htracks : TracksNegation m.programs)
    (hok : IncrementalReasoner.retractNegationInvalidated env fuel m check = .ok m') :
    Supported env F [] m' := by
  induction fuel generalizing m check with
  | zero => cases hok
  | succ fuel ih =>
    rw [IncrementalReasoner.retractNegationInvalidated] at hok
    split_ifs at hok with hseeds
    · cases hok
      exact h.settled htracks (List.isEmpty_iff.mp hseeds)
    · split at hok
      · cases hok
      · rename_i s hs
        exact ih (h.round hf (fun q => (env.quadOrder_perm _).mem_iff) hs htracks rfl)
          (rederive_tracks hf htracks hs) hok

theorem retractNegationInvalidated_settled (h : Supported env F [] m) {facts : List Quad}
    (hok : IncrementalReasoner.retractNegationInvalidated env fuel m facts = .ok m') :
    Supported env F [] m' := by
  induction fuel generalizing m facts with
  | zero => cases hok
  | succ fuel ih =>
    rw [IncrementalReasoner.retractNegationInvalidated] at hok
    split_ifs at hok with hseeds
    · cases hok
      exact h
    · split at hok
      · cases hok
      · rename_i s hs
        exact ih (h.round_settled hf (fun q => (env.quadOrder_perm _).mem_iff) hs) hok

end Rounds

section Insertion

variable (hf : env.FixedFilters) (h : Supported env F [] m) {base : QuadStore}
  {inserts : List Quad} {fuel : Nat}
include hf h

theorem feed (hquads : ∀ q, q ∈ base ↔ q ∈ m.base ∨ q ∈ inserts)
    (hext : ∀ q, base.Extensional q ↔ m.base.Extensional q ∨ q ∈ m.newlyAsserted inserts)
    (hs : materialiseForward env inserts m.programs base = .ok s) {N' : List Quad}
    (hblock : ∀ c ∈ recordedClauses env m.programs, (∀ b ∈ c.neg, b ∉ m.base) →
      ∀ b ∈ c.neg, b ∉ s.base ∨ b ∈ N') :
    Supported env (F ∪ m.newlyAsserted inserts) N' ⟨s.programs, s.base⟩ := by
  have hdelta : ∀ q ∈ inserts, q ∈ base := fun q hq => (hquads q).mpr (.inr hq)
  have hB : m.base.quads ⊆ base.quads := fun q hq => (hquads q).mpr (.inl hq)
  have hstored : RecordsStored m.programs base := fun p hp q d hd => hB (h.stored p hp q d hd)
  have hswept := swept_materialiseForward hf hs
  have hstep := materialiseForward_status hdelta hs
  constructor
  · rw [hswept.strata]
    exact h.ordered
  · intro q
    rw [hswept.strata]
    constructor
    · rintro (hq | hq)
      · rcases (h.facts q).mp hq with hq | hq
        · exact .inl (hstep.keeps q ((hext q).mpr (.inl hq)))
        · exact .inr hq
      · exact .inl (hstep.keeps q ((hext q).mpr (.inr hq)))
    · rintro (hq | hq)
      · rcases hstep.adds q hq with hq | hq
        · exact ((hext q).mp hq).imp_left fun hq => (h.facts q).mpr (.inl hq)
        · exact .inl ((h.facts q).mpr (.inr hq))
      · exact .inl ((h.facts q).mpr (.inr hq))
  · rw [hswept.strata]
    exact materialiseForward_saturated hf h.ordered hdelta hB (fun q hq => (hquads q).mp hq)
      h.saturated hstored hs
  · exact hswept.recordsStored hstored
  · refine (hswept.backed h.ordered hdelta).trans (closure_subset ?_ ?_)
    · have hold : m.base.quads ⊆ closure (recordedClauses env s.programs)
          {q | q ∈ s.base ∧ q ∉ N'} (F ∪ m.newlyAsserted inserts) := by
        refine h.backed.trans (closure_subset ?_ ?_)
        · exact fun q hq => GroundProgram.subset_closure _ _ _ (.inl hq)
        · intro c hc hpos hno
          refine head_mem_closure (hswept.recorded hc) hpos ?_
          intro b hb ⟨hbase, hnew⟩
          have hno' := hblock c hc (fun b hb hmem => hno b hb ⟨hmem, List.not_mem_nil⟩) b hb
          exact hno'.elim (fun hno => hno hbase) hnew
      apply Set.union_subset
      · intro q hq
        by_cases hmem : q ∈ m.base
        · exact hold hmem
        · have hins := ((hquads q).mp hq).resolve_left hmem
          exact GroundProgram.subset_closure _ _ _ (.inr ⟨hins, fun hd => hmem hd.mem⟩)
      · exact h.saturated.factHeads_subset.trans hold
    · exact fun c hc hpos hno => head_mem_closure hc hpos fun b hb hmem => hno b hb hmem.1

/-- The first pass and the rounds over a store to which quads were added: the reverse index is
intact, or no derivation on record is blocked by what the first pass leaves. -/
theorem fed (hquads : ∀ q, q ∈ base ↔ q ∈ m.base ∨ q ∈ inserts)
    (hext : ∀ q, base.Extensional q ↔ m.base.Extensional q ∨ q ∈ m.newlyAsserted inserts)
    (hneg : TracksNegation m.programs ∨ Unfalsified env m inserts)
    (hs : materialiseForward env inserts m.programs base = .ok s)
    (hok : IncrementalReasoner.retractNegationInvalidated env fuel ⟨s.programs, s.base⟩
      (inserts ++ s.tracked.flatten.map Prod.fst) = .ok m') :
    Supported env (F ∪ m.newlyAsserted inserts) [] m' := by
  have hdelta : ∀ q ∈ inserts, q ∈ base := fun q hq => (hquads q).mpr (.inr hq)
  have hB : m.base.quads ⊆ base.quads := fun q hq => (hquads q).mpr (.inl hq)
  have hstored : RecordsStored m.programs base := fun p hp q d hd => hB (h.stored p hp q d hd)
  have hswept := swept_materialiseForward hf hs
  rcases hneg with htracks | hclean
  · refine retractNegationInvalidated hf (h.feed hf hquads hext hs ?_) (hswept.tracks htracks) hok
    intro c _ hno b hb
    by_cases hbase : b ∈ s.base
    · right
      rw [List.mem_append]
      rcases hswept.logged hstored hdelta b hbase with hq | hq | hq
      · exact ((hquads b).mp hq).elim (fun hq => absurd hq (hno b hb)) .inl
      · exact absurd (h.saturated.factHeads_subset hq) (hno b hb)
      · exact .inr hq
    · exact .inl hbase
  · refine retractNegationInvalidated_settled hf (h.feed hf hquads hext hs ?_) hok
    have hsat := materialiseForward_saturated hf h.ordered hdelta hB (fun q hq => (hquads q).mp hq)
      h.saturated hstored hs
    have hmodel := hswept.model h.ordered hdelta hsat
    have hstart : base.quads = m.base.quads ∪ {q | q ∈ inserts} := by
      ext q
      exact hquads q
    rw [hstart] at hmodel
    intro c hc hno b hb
    refine .inl fun hbase => hclean c hc hno b hb ?_
    rw [← hmodel]
    exact hbase

omit hf in
theorem unfalsified_of_stored (hstored : ∀ q ∈ inserts, q ∈ m.base) :
    Unfalsified env m inserts := by
  have hunion : m.base.quads ∪ {q | q ∈ inserts} = m.base.quads :=
    Set.union_eq_self_of_subset_right hstored
  have hclosed : strataModel env (activeStrata m.programs) m.base.quads = m.base.quads :=
    (h.ordered.eq_strataModel h.saturated Set.Subset.rfl (subset_closure _ _ _)).symm
  intro c _ hno b hb hmem
  rw [hunion, hclosed] at hmem
  exact hno b hb hmem

theorem applyInsertions (hneg : TracksNegation m.programs ∨ Unfalsified env m inserts)
    (hok : IncrementalReasoner.applyInsertions env fuel m inserts = .ok m') :
    Supported env (F ∪ m.newlyAsserted inserts) [] m' := by
  rw [IncrementalReasoner.applyInsertions] at hok
  split at hok
  · cases hok
  · rename_i s hs
    exact h.fed hf (fun q => m.base.mem_foldl_addQuad inserts q)
      (fun q => extensional_foldl_addQuad m.base inserts q) hneg hs hok

end Insertion

end Supported

end IncrementalReasoner

end RdfDatalog.Datalog
