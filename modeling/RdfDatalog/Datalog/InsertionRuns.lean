import RdfDatalog.Datalog.Insertion

namespace RdfDatalog.Datalog

open GroundProgram FallibleFold DerivedFromIndex DatalogProgram

variable {Expr : Type}

section FullPass

variable {env : ReasonerEnv Expr} {p : DatalogProgram Expr} {ps : List (DatalogProgram Expr)}
  {base : QuadStore} {s : Sweep Expr}

theorem materialiseAll_cons_ok (h : materialiseAll env (p :: ps) base = .ok s) :
    ∃ m s', p.materialiseSeminaiveTracked env base = .ok m ∧
      materialiseAll env ps m.base = .ok s' ∧ s = s'.cons p m := by
  have hdelta : ∀ (ps : List (DatalogProgram Expr)) (delta : List Quad) (base : QuadStore),
      sweep (fun _ p base => p.materialiseSeminaiveTracked env base) delta ps base =
        materialiseAll env ps base := by
    intro ps
    induction ps with
    | nil => exact fun _ _ => rfl
    | cons p ps ih =>
      intro delta base
      rw [materialiseAll, sweep, sweep]
      simp only [ih]
  obtain ⟨m, s', hm, hs', rfl⟩ := sweep_cons_ok h
  rw [hdelta] at hs'
  exact ⟨m, s', hm, hs', rfl⟩

theorem recorded_of_active (hf : env.FixedFilters) (hs : OrderedStrata (activeStrata ps))
    (h : materialiseAll env ps base = .ok s) {c : Clause Quad}
    (hc : c ∈ clausesOf env (activeStrata ps).flatten) (hact : c.Active s.base.quads) :
    c ∈ recordedClauses env s.programs ∨ c.head ∈ factHeads (activeStrata ps).flatten := by
  induction ps generalizing base s with
  | nil =>
    obtain ⟨r, hr, -⟩ := hc
    cases hr
  | cons p ps ih =>
    obtain ⟨m, s', hm, hs', rfl⟩ := materialiseAll_cons_ok h
    have hrest := swept_materialiseAll hf hs'
    obtain ⟨facts, -, -, hcov⟩ := materialiseSeminaiveTracked_ok hf hm
    have hprograms : recordedClauses env (s'.cons p m).programs =
        (p.withDerivedFrom m.derivedFrom).recorded env ∪ recordedClauses env s'.programs :=
      recordedClauses_cons env _ _
    rw [hprograms]
    obtain ⟨r, hr, sub, q, hg, hh, rfl⟩ := hc
    rcases List.mem_append.mp (show r ∈ p.activeRules ++ (activeStrata ps).flatten from hr)
      with hr | hr
    · by_cases hbody : r.body = []
      · obtain rfl := hg.eq_empty hbody
        exact .inr ⟨r, List.mem_append_left _ hr, hbody, hh⟩
      · have hpos : r.witnesses sub ⊆ m.base.quads := by
          intro w hw
          rcases hrest.mem_cases hs.tail nofun (hact.1 hw) with
            hmem | ⟨_, ⟨producer, hp, sub', q', -, hh', rfl⟩, rfl⟩
          · exact hmem
          · obtain ⟨rules, hrules, hp⟩ := List.mem_flatten.mp hp
            have hbefore := (List.pairwise_cons.mp hs.order).1 rules hrules r hr producer hp
            exact absurd (feedsPositive_of_head hh' hw) hbefore.1
        have hneg : ∀ b ∈ r.blockers sub, b ∉ m.base :=
          fun b hb hmem => hact.2 b hb (hrest.grows b hmem)
        obtain ⟨pattern, hpattern⟩ := List.exists_mem_of_ne_nil _ (hg.evaluated.resolve_right hbody)
        obtain ⟨w, hw⟩ := hg.exists_witness hpattern
        obtain ⟨id, henabled⟩ := mem_activeRules.mp hr
        obtain ⟨q', ws, hh', hws, -, hrec⟩ :=
          hcov id r sub henabled hg hpos ⟨w, ⟨pattern, hpattern, hw⟩, trivial⟩ hneg
        obtain rfl : q' = q := Option.some.inj (hh'.symm.trans hh)
        exact .inl (.inl ⟨id, r, sub, ws, henabled, hg, hh', hws, hrec, rfl⟩)
    · have hc : r.clause sub q ∈ clausesOf env (activeStrata ps).flatten :=
        ⟨r, hr, sub, q, hg, hh, rfl⟩
      rcases ih hs.tail hs' hc hact with hrec | ⟨r', hr', hfact⟩
      · exact .inl (.inr hrec)
      · exact .inr ⟨r', List.mem_append_right _ hr', hfact⟩

end FullPass

theorem DatalogProgram.tracksNegation_ofRules (rules : List (Rule Expr)) :
    (DatalogProgram.ofRules rules).TracksNegation := by
  refine ⟨byRuleExact_with _, ?_⟩
  intro id r henabled hne
  obtain ⟨pattern, hpattern⟩ := List.exists_mem_of_ne_nil _ hne
  have hids := (RuleMaps.foldl_indexRule rules.zipIdx .empty).2.2 id
  refine hids.mpr (.inr ?_)
  exact ⟨(r, id), List.mem_zipIdx_iff_getElem?.mpr henabled.1, rfl, pattern, hpattern⟩

namespace IncrementalReasoner

/-- The facts a store rests on: the asserted quads, and the heads of body-less rules. -/
def asserted (m : IncrementalReasoner Expr) : Set Quad :=
  {q | m.base.Extensional q ∨ q ∈ factHeads (activeStrata m.programs).flatten}

section Supported

variable {env : ReasonerEnv Expr} (hf : env.FixedFilters)
include hf

theorem supported_of_materialiseAll {ps : List (DatalogProgram Expr)} {base : QuadStore}
    {s : Sweep Expr} (hs : OrderedStrata (activeStrata ps))
    (hbase : base.quads ⊆ strataModel env (activeStrata ps) {q | base.Extensional q})
    (hstored : ∀ p ∈ ps, ∀ q d, p.derivedFrom.Recorded q d → q ∈ s.base)
    (h : materialiseAll env ps base = .ok s) :
    Supported env (asserted ⟨s.programs, s.base⟩) [] ⟨s.programs, s.base⟩ := by
  have hswept := swept_materialiseAll hf h
  have hstep := materialiseAll_status h
  obtain ⟨hquads, hcons⟩ := materialiseAll_ok hf hs h
  have hext : {q | base.Extensional q} ⊆ base.quads := fun q hq => hq.1
  have hmodel : s.base.quads = strataModel env (activeStrata ps) {q | base.Extensional q} := by
    rw [hquads, hs.strataModel_eq_iff env]
    exact ⟨hbase, hext.trans (subset_strataModel env _ _)⟩
  have hfacts : asserted ⟨s.programs, s.base⟩ =
      {q | s.base.Extensional q ∨ q ∈ factHeads (activeStrata ps).flatten} := by
    rw [asserted, hswept.strata]
  constructor
  · rw [hswept.strata]
    exact hs
  · exact fun q => Iff.rfl
  · rw [hswept.strata]
    dsimp only
    rw [hquads] at hcons ⊢
    exact hs.saturated_strataModel hcons
  · intro p' hp' q d hd
    rcases hswept.recorded_cases hp' hd with ⟨p, hp, hd⟩ | hq
    · exact hstored p hp q d hd
    · exact hq
  · have hstable := hs.strataModel_isStable env {q | base.Extensional q}
    rw [← hmodel] at hstable
    have hall : {q | q ∈ s.base ∧ q ∉ ([] : List Quad)} = s.base.quads := by
      ext q
      simp
    dsimp only
    rw [hall, hfacts]
    intro q hq
    have hderives : Derives (clausesOf env (activeStrata ps).flatten) s.base.quads
        {q | base.Extensional q} q := by
      rw [IsStable] at hstable
      have hmem : q ∈ closure (clausesOf env (activeStrata ps).flatten) s.base.quads
          {q | base.Extensional q} := by
        rw [← hstable]
        exact hq
      exact hmem
    clear hq
    induction hderives with
    | base ha => exact GroundProgram.subset_closure _ _ _ (.inl (hstep.keeps _ ha))
    | @fire c hc hpos hneg ih =>
      have hpos' : c.pos ⊆ s.base.quads := by
        intro a ha
        have hmem : a ∈ closure (clausesOf env (activeStrata ps).flatten) s.base.quads
            {q | base.Extensional q} := hpos a ha
        rw [← hstable] at hmem
        exact hmem
      rcases recorded_of_active hf hs h hc ⟨hpos', hneg⟩ with hrec | hfact
      · exact head_mem_closure hrec ih hneg
      · exact GroundProgram.subset_closure _ _ _ (.inr hfact)

omit hf in
theorem activeStrata_reset (programs : List (DatalogProgram Expr)) :
    activeStrata (programs.map fun p => p.withDerivedFrom .new) = activeStrata programs := by
  rw [activeStrata, List.map_map]
  rfl

theorem supported_of_reset {programs : List (DatalogProgram Expr)} {base : QuadStore}
    {s : Sweep Expr} (hs : OrderedStrata (activeStrata programs))
    (h : materialiseAll env (programs.map fun p => p.withDerivedFrom .new) (assertedOnly base) =
      .ok s) : Supported env (asserted ⟨s.programs, s.base⟩) [] ⟨s.programs, s.base⟩ := by
  have hreset := activeStrata_reset programs
  rw [← hreset] at hs
  refine supported_of_materialiseAll hf hs ?_ ?_ h
  · intro q hq
    have hext := (extensional_assertedOnly base q).2.mpr ((extensional_assertedOnly base q).1.mp hq)
    exact subset_strataModel env _ _ hext
  · intro p' hp' q d hd
    obtain ⟨p, -, rfl⟩ := List.mem_map.mp hp'
    exact absurd hd (not_recorded_new q d)

variable {m m' : IncrementalReasoner Expr}

theorem rebuildFromBase_supported (hs : OrderedStrata (activeStrata m.programs))
    (h : rebuildFromBase env m = .ok m') : Supported env m'.asserted [] m' := by
  rw [rebuildFromBase] at h
  split at h
  · cases h
  · rename_i s hrun
    cases h
    exact supported_of_reset hf hs hrun

def keptAsserted (m : IncrementalReasoner Expr) (deletes : List Quad) : Set Quad :=
  {q | m.base.Extensional q ∧ q ∉ deletes ∧ ¬ Suspect m.programs deletes q}

def DeletesCleanly (env : ReasonerEnv Expr) (m : IncrementalReasoner Expr)
    (deletes : List Quad) : Prop :=
  m.kept deletes ⊆ strataModel env (activeStrata m.programs) (m.keptAsserted deletes) ∧
    ∀ q ∈ deletes, (∃ p ∈ m.programs, ∃ d, p.derivedFrom.Recorded q d) →
      Suspect m.programs deletes q ∨
        q ∈ strataModel env (activeStrata m.programs) (m.kept deletes)

/-- A deletion from a store that need not be a model: the derivations on record are those of
quads that are stored or to be deleted. -/
theorem applyDeletions_supported {deletes : List Quad} {n : Nat}
    (hs : OrderedStrata (activeStrata m.programs))
    (hstored : ∀ p ∈ m.programs, ∀ q d, p.derivedFrom.Recorded q d → q ∈ m.base ∨ q ∈ deletes)
    (hne : deletes ≠ []) (hclean : m.FallsBack deletes ∨ m.DeletesCleanly env deletes)
    (h : applyDeletions env m deletes = .ok (m', n)) : Supported env m'.asserted [] m' := by
  obtain ⟨hnil, -⟩ | ⟨-, s, hrun, rfl⟩ | ⟨hfall, s, hrun, rfl⟩ := applyDeletions_cases h
  · exact absurd hnil hne
  · exact supported_of_reset hf hs (materialiseReset_eq_ok hrun)
  · obtain ⟨hkept, hstale⟩ := hclean.resolve_left hfall
    let m₁ : IncrementalReasoner Expr :=
      { m with base := deletes.foldl QuadStore.removeQuad m.base }
    have hpd : ∀ q, q ∈ env.quadOrder (backwardPhase m.programs deletes) ↔
        Suspect m.programs deletes q :=
      fun q => ((env.quadOrder_perm _).mem_iff).trans mem_backwardPhase
    have hactive := activeStrata_foldl_retract m₁ (env.quadOrder (backwardPhase m.programs deletes))
    have hquads := (rederive_ok hf (m := m₁) hs hrun).1
    have hkept_eq := kept_eq env m deletes
    rw [hkept_eq] at hquads
    have hstart : ((env.quadOrder (backwardPhase m.programs deletes)).foldl retract m₁).base.quads =
        m.kept deletes := by
      rw [← hkept_eq]
      ext q
      exact m₁.mem_foldl_retract _ q
    have hext : {q | ((env.quadOrder (backwardPhase m.programs deletes)).foldl retract
        m₁).base.Extensional q} = m.keptAsserted deletes := by
      ext q
      rw [Set.mem_ofPred_eq, foldl_retract_base, extensional_foldl_removeQuad, hpd,
        extensional_foldl_removeQuad, and_assoc]
      rfl
    refine supported_of_materialiseAll hf ?_ ?_ ?_ hrun
    · rw [hactive]
      exact hs
    · rw [hactive, hstart, hext]
      exact hkept
    · intro p' hp' q d hd
      obtain ⟨⟨p, hp, hrec⟩, hno⟩ := recorded_foldl_retract hp' hd
      rw [hpd] at hno
      have hmem : q ∈ strataModel env (activeStrata m.programs) (m.kept deletes) := by
        by_cases hdel : q ∈ deletes
        · exact (hstale q hdel ⟨p, hp, d, hrec⟩).resolve_left hno
        · have hbase := (hstored p hp q d hrec).resolve_right hdel
          exact subset_strataModel env _ _ ⟨hbase, hdel, hno⟩
      have hmem : q ∈ s.base.quads := by
        rw [hquads]
        exact hmem
      exact hmem

variable [DecidableEq Expr] {rules : List (Rule Expr)} {strata : List (List (Rule Expr))}
  {base fresh : QuadStore}

theorem new_supported (horder : (RulePartitioner.new rules).orderRules = .ok strata)
    (hs : OrderedStrata strata)
    (hbase : base.quads ⊆ strataModel env strata {q | base.Extensional q})
    (h : new env rules base = .ok m) : Supported env m.asserted [] m := by
  obtain ⟨-, s, hrun, rfl⟩ := new_eq_ok horder h
  have hactive := activeStrata_ofRules strata
  refine supported_of_materialiseAll hf ?_ ?_ ?_ hrun
  · rw [hactive]
    exact hs
  · rw [hactive]
    exact hbase
  · intro p hp q d hd
    obtain ⟨rules, -, rfl⟩ := List.mem_map.mp hp
    exact absurd hd (not_recorded_with q d _)

theorem new_tracks (horder : (RulePartitioner.new rules).orderRules = .ok strata)
    (h : new env rules base = .ok m) : TracksNegation m.programs := by
  obtain ⟨-, s, hrun, rfl⟩ := new_eq_ok horder h
  refine (swept_materialiseAll hf hrun).tracks fun p hp => ?_
  obtain ⟨rules, -, rfl⟩ := List.mem_map.mp hp
  exact tracksNegation_ofRules rules

end Supported

inductive StoreCall where
  | insert (quads : List Quad)
  | delete (quads : List Quad)
  | rebuild

/-- A successful call, for some number of rounds of an insertion. -/
def StoreCall.Applies (env : ReasonerEnv Expr) (m m' : IncrementalReasoner Expr) :
    StoreCall → Prop
  | .insert quads => ∃ fuel, applyInsertions env fuel m quads = .ok m'
  | .delete quads => ∃ n, applyDeletions env m quads = .ok (m', n)
  | .rebuild => rebuildFromBase env m = .ok m'

/-- An insertion leaves no falsified derivation behind: the reverse index is intact, or nothing is
falsified. A deletion keeps none: the closure is rebuilt, or nothing that is kept is falsified. -/
def StoreCall.Clean (env : ReasonerEnv Expr) (m : IncrementalReasoner Expr) : StoreCall → Prop
  | .insert quads => TracksNegation m.programs ∨ Unfalsified env m quads
  | .delete quads => m.FallsBack quads ∨ m.DeletesCleanly env quads
  | .rebuild => True

inductive CleanRun (env : ReasonerEnv Expr) (m₀ : IncrementalReasoner Expr) :
    IncrementalReasoner Expr → Prop
  | start : CleanRun env m₀ m₀
  | step {m m' : IncrementalReasoner Expr} (c : StoreCall) :
    CleanRun env m₀ m → c.Clean env m → c.Applies env m m' → CleanRun env m₀ m'

section Runs

variable {env : ReasonerEnv Expr} (hf : env.FixedFilters) {m₀ m m' : IncrementalReasoner Expr}

theorem StoreCall.Applies.strata {c : StoreCall} (h : c.Applies env m m') :
    activeStrata m'.programs = activeStrata m.programs := by
  cases c with
  | insert quads =>
    obtain ⟨fuel, h⟩ := h
    exact (applyInsertions_status h).1
  | delete quads =>
    obtain ⟨n, h⟩ := h
    exact (applyDeletions_status h).1
  | rebuild =>
    have h : rebuildFromBase env m = .ok m' := h
    rw [rebuildFromBase] at h
    split at h
    · cases h
    · rename_i s hrun
      cases h
      exact (activeStrata_of_forall₂ (sweep_programs hrun)).trans (activeStrata_reset m.programs)

include hf

theorem StoreCall.Applies.supported {c : StoreCall} (h : c.Applies env m m')
    (hclean : c.Clean env m) (hm : Supported env m.asserted [] m) :
    Supported env m'.asserted [] m' := by
  cases c with
  | insert quads =>
    obtain ⟨fuel, h⟩ := h
    have hm' := hm.applyInsertions hf hclean h
    have hfacts : m.asserted ∪ m.newlyAsserted quads = m'.asserted := Set.ext hm'.facts
    rw [← hfacts]
    exact hm'
  | delete quads =>
    obtain ⟨n, h⟩ := h
    by_cases hnil : quads = []
    · subst hnil
      cases h
      exact hm
    · exact applyDeletions_supported hf hm.ordered
        (fun p hp q d hd => .inl (hm.stored p hp q d hd)) hnil hclean h
  | rebuild => exact rebuildFromBase_supported hf hm.ordered h

theorem CleanRun.supported (h : CleanRun env m₀ m) (hm₀ : Supported env m₀.asserted [] m₀) :
    Supported env m.asserted [] m ∧ activeStrata m.programs = activeStrata m₀.programs := by
  induction h with
  | start => exact ⟨hm₀, rfl⟩
  | step c _ hclean happly ih =>
    obtain ⟨hm, hstrata⟩ := ih
    exact ⟨happly.supported hf hclean hm, happly.strata.trans hstrata⟩

variable [DecidableEq Expr] {rules : List (Rule Expr)} {strata : List (List (Rule Expr))}
  {base fresh : QuadStore} {inserts : List Quad} {fuel : Nat}

/-- After clean calls a clean insertion leaves what a new reasoner computes over the asserted quads
and the inserted ones iff the inserted quads that were stored as derived ones follow from the
others. -/
theorem applyInsertions_exact_iff (horder : (RulePartitioner.new rules).orderRules = .ok strata)
    (hs : OrderedStrata strata)
    (hbase : base.quads ⊆ strataModel env strata {q | base.Extensional q})
    (hnew : new env rules base = .ok m₀) (hrun : CleanRun env m₀ m)
    (hclean : (StoreCall.insert inserts).Clean env m)
    (hok : applyInsertions env fuel m inserts = .ok m')
    (hfresh : ∀ q, q ∈ fresh ↔ m.base.Extensional q ∨ q ∈ inserts) :
    (∃ r, new env rules fresh = .ok r ∧ r.base.quads = m'.base.quads) ↔
      ∀ q ∈ inserts, m.base.Derived q →
        q ∈ strataModel env strata ({q | m.base.Extensional q} ∪ m.newlyAsserted inserts) := by
  have hm₀ := new_supported hf horder hs hbase hnew
  obtain ⟨hm, hstrata⟩ := hrun.supported hf hm₀
  have hstrata := hstrata.trans (new_ok hf horder hs hnew).1
  have hm' := hm.applyInsertions hf hclean hok
  have hstrata' := (applyInsertions_status hok).1.trans hstrata
  have hcons := hm'.saturated.consistent
  have hmodel := hm'.model
  rw [hstrata'] at hcons hmodel
  have hfacts : m.asserted ∪ m.newlyAsserted inserts =
      ({q | m.base.Extensional q} ∪ m.newlyAsserted inserts) ∪ factHeads strata.flatten := by
    rw [asserted, hstrata, Set.union_right_comm]
    rfl
  rw [hfacts, hs.strataModel_union_factHeads env] at hmodel
  rw [new_quads_eq_iff hf horder hs (new_eq_ok horder hnew).1 hcons, hmodel,
    hs.strataModel_eq_iff env]
  have hsub : {q | m.base.Extensional q} ∪ m.newlyAsserted inserts ⊆ fresh.quads :=
    fun q hq => (hfresh q).mpr (hq.imp_right And.left)
  constructor
  · exact fun h q hq _ => h.2 ((hfresh q).mpr (.inr hq))
  · intro h
    refine ⟨hsub.trans (subset_strataModel env _ _), ?_⟩
    intro q hq
    rcases (hfresh q).mp hq with hext | hins
    · exact subset_strataModel env _ _ (.inl hext)
    · by_cases hd : m.base.Derived q
      · exact h q hins hd
      · exact subset_strataModel env _ _ (.inr ⟨hins, hd⟩)

/-- The store does not tell how it was reached: clean runs that end with the same asserted quads
end with the same quads, whatever they started from. -/
theorem CleanRun.historyIndependent {base' : QuadStore} {n₀ n : IncrementalReasoner Expr}
    (horder : (RulePartitioner.new rules).orderRules = .ok strata) (hs : OrderedStrata strata)
    (hbase : base.quads ⊆ strataModel env strata {q | base.Extensional q})
    (hbase' : base'.quads ⊆ strataModel env strata {q | base'.Extensional q})
    (hm₀ : new env rules base = .ok m₀) (hn₀ : new env rules base' = .ok n₀)
    (hm : CleanRun env m₀ m) (hn : CleanRun env n₀ n)
    (hsame : ∀ q, m.base.Extensional q ↔ n.base.Extensional q) : m.base.quads = n.base.quads := by
  have hmodel {base : QuadStore} {m₀ m : IncrementalReasoner Expr}
      (hbase : base.quads ⊆ strataModel env strata {q | base.Extensional q})
      (hnew : new env rules base = .ok m₀) (hrun : CleanRun env m₀ m) :
      m.base.quads = strataModel env strata {q | m.base.Extensional q} := by
    obtain ⟨hm, hstrata⟩ := hrun.supported hf (new_supported hf horder hs hbase hnew)
    have hstrata := hstrata.trans (new_ok hf horder hs hnew).1
    have hquads := hm.model
    rw [asserted, hstrata] at hquads
    exact hquads.trans (hs.strataModel_union_factHeads env _)
  rw [hmodel hbase hm₀ hm, hmodel hbase' hn₀ hn]
  exact congrArg (strataModel env strata) (Set.ext hsame)

end Runs

theorem base_storeOf {env : ReasonerEnv Empty} {strata : List (List (Rule Empty))}
    (quads : List Quad) : (storeOf quads).quads ⊆
      strataModel env strata {q | (storeOf quads).Extensional q} := by
  intro q hq
  have hq := (extensional_storeOf _ q).1.mp hq
  exact subset_strataModel _ _ _ ((extensional_storeOf _ q).2.mpr hq)

theorem CleanRun.historyIndependent_unary : ∃ m₀ m n₀ n : IncrementalReasoner Empty,
    new .plain [unaryRule 2 [1] [3]] (storeOf [unaryQuad 1 0]) = .ok m₀ ∧
      applyInsertions .plain 2 m₀ [unaryQuad 3 0] = .ok m ∧
      new .plain [unaryRule 2 [1] [3]] (storeOf [unaryQuad 3 0]) = .ok n₀ ∧
      applyInsertions .plain 2 n₀ [unaryQuad 1 0] = .ok n ∧ m.base.quads = n.base.quads := by
  obtain ⟨m₀, hm₀, m, hm, hmext, n₀, hn₀, n, hn, hnext⟩ :
      ∃ m₀, new .plain [unaryRule 2 [1] [3]] (storeOf [unaryQuad 1 0]) = .ok m₀ ∧
        ∃ m, applyInsertions .plain 2 m₀ [unaryQuad 3 0] = .ok m ∧
          m.base.table.extensionalQuads = [unaryQuad 1 0, unaryQuad 3 0] ∧
        ∃ n₀, new .plain [unaryRule 2 [1] [3]] (storeOf [unaryQuad 3 0]) = .ok n₀ ∧
        ∃ n, applyInsertions .plain 2 n₀ [unaryQuad 1 0] = .ok n ∧
          n.base.table.extensionalQuads = [unaryQuad 3 0, unaryQuad 1 0] := by decide
  have hf : ReasonerEnv.plain.FixedFilters := ReasonerEnv.plain_fixedFilters
  have horder : (RulePartitioner.new [unaryRule 2 [1] [3]]).orderRules =
    .ok [[unaryRule 2 [1] [3]]] := by decide
  refine ⟨m₀, m, n₀, n, hm₀, hm, hn₀, hn, CleanRun.historyIndependent hf horder
    (.of_clash (by decide)) (base_storeOf _) (base_storeOf _) hm₀ hn₀
    (.step (.insert _) .start (.inl (new_tracks hf horder hm₀)) ⟨2, hm⟩)
    (.step (.insert _) .start (.inl (new_tracks hf horder hn₀)) ⟨2, hn⟩) fun q => ?_⟩
  rw [← (extensional_assertedOnly m.base q).1, ← (extensional_assertedOnly n.base q).1,
    assertedOnly, assertedOnly, hmext, hnext, QuadStore.mem_foldl_addQuad,
    QuadStore.mem_foldl_addQuad]
  simp [or_comm]

theorem applyInsertions_exact_iff_unary : ∃ m₀ m m' : IncrementalReasoner Empty,
    new .plain [unaryRule 2 [1] [3]] (storeOf [unaryQuad 1 0]) = .ok m₀ ∧
      applyInsertions .plain 2 m₀ [unaryQuad 3 0] = .ok m ∧
      applyInsertions .plain 2 m [unaryQuad 1 1] = .ok m' ∧
      ((∃ r, new .plain [unaryRule 2 [1] [3]]
          (storeOf [unaryQuad 1 0, unaryQuad 3 0, unaryQuad 1 1]) = .ok r ∧
        r.base.quads = m'.base.quads) ↔
      ∀ q ∈ [unaryQuad 1 1], m.base.Derived q →
        q ∈ strataModel .plain [[unaryRule 2 [1] [3]]]
          ({q | m.base.Extensional q} ∪ m.newlyAsserted [unaryQuad 1 1])) := by
  obtain ⟨m₀, hnew, m, hins, hext, hlast⟩ :
      ∃ m₀, new .plain [unaryRule 2 [1] [3]] (storeOf [unaryQuad 1 0]) = .ok m₀ ∧
        ∃ m, applyInsertions .plain 2 m₀ [unaryQuad 3 0] = .ok m ∧
          m.base.table.extensionalQuads = [unaryQuad 1 0, unaryQuad 3 0] ∧
          (applyInsertions .plain 2 m [unaryQuad 1 1]).toBool = true := by decide
  obtain ⟨m', hok⟩ := exists_ok_of_toBool hlast
  have hf : ReasonerEnv.plain.FixedFilters := ReasonerEnv.plain_fixedFilters
  have horder : (RulePartitioner.new [unaryRule 2 [1] [3]]).orderRules =
    .ok [[unaryRule 2 [1] [3]]] := by decide
  have htracks := new_tracks hf horder hnew
  refine ⟨m₀, m, m', hnew, hins, hok, applyInsertions_exact_iff hf horder
    (.of_clash (by decide)) ?_ hnew (.step (.insert _) .start (.inl htracks) ⟨2, hins⟩)
    (.inl (applyInsertions_tracks hf htracks hins)) hok ?_⟩
  · intro q hq
    have hq := (extensional_storeOf _ q).1.mp hq
    exact subset_strataModel _ _ _ ((extensional_storeOf _ q).2.mpr hq)
  · intro q
    have hstore : assertedOnly m.base = storeOf [unaryQuad 1 0, unaryQuad 3 0] := by
      rw [assertedOnly, hext]
      rfl
    have hq := (extensional_assertedOnly m.base q).1
    rw [hstore, (extensional_storeOf _ q).1] at hq
    rw [(extensional_storeOf _ q).1, ← hq]
    simp [or_assoc]

/-- After a rebuild an inserted quad falsifies a derived one, which stays. -/
theorem applyInsertions_keeps_falsified : ∃ m₀ m m' r : IncrementalReasoner Empty,
    new .plain [unaryRule 2 [1] [3]] (storeOf [unaryQuad 1 0]) = .ok m₀ ∧
      rebuildFromBase .plain m₀ = .ok m ∧ (∀ q, m.base.Extensional q ↔ q = unaryQuad 1 0) ∧
      applyInsertions .plain 2 m [unaryQuad 3 0] = .ok m' ∧
      new .plain [unaryRule 2 [1] [3]] (storeOf [unaryQuad 1 0, unaryQuad 3 0]) = .ok r ∧
      unaryQuad 2 0 ∈ m'.base ∧ unaryQuad 2 0 ∉ r.base := by
  obtain ⟨m₀, hnew, m, hre, hext, m', hok, r, hr, hin, hout⟩ :
      ∃ m₀, new .plain [unaryRule 2 [1] [3]] (storeOf [unaryQuad 1 0]) = .ok m₀ ∧
        ∃ m, rebuildFromBase .plain m₀ = .ok m ∧
          m.base.table.extensionalQuads = [unaryQuad 1 0] ∧
        ∃ m', applyInsertions .plain 2 m [unaryQuad 3 0] = .ok m' ∧
        ∃ r, new .plain [unaryRule 2 [1] [3]] (storeOf [unaryQuad 1 0, unaryQuad 3 0]) = .ok r ∧
          unaryQuad 2 0 ∈ m'.base ∧ unaryQuad 2 0 ∉ r.base := by decide
  refine ⟨m₀, m, m', r, hnew, hre, fun q => ?_, hok, hr, hin, hout⟩
  have hstore : assertedOnly m.base = storeOf [unaryQuad 1 0] := by
    rw [assertedOnly, hext]
    rfl
  have hq := (extensional_assertedOnly m.base q).1
  rw [hstore, (extensional_storeOf _ q).1, List.mem_singleton] at hq
  exact hq.symm

end IncrementalReasoner

end RdfDatalog.Datalog
