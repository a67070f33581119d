import RdfDatalog.Datalog.Passes

namespace RdfDatalog.Datalog

open FallibleFold

variable {Expr : Type} {env : ReasonerEnv Expr}

/-- A run of a stratum keeps what is stored, asserts nothing, and logs only quads it stores. -/
structure Materialisation.Grows (m m' : Materialisation) : Prop where
  stored : ∀ q, q ∈ m.base → q ∈ m'.base
  status : ∀ q, m'.base.Extensional q ↔ m.base.Extensional q
  logged : ∀ e ∈ m'.track, e ∈ m.track ∨ e.1 ∈ m'.base

namespace Materialisation.Grows

variable {m m' m'' : Materialisation}

theorem refl (m : Materialisation) : m.Grows m :=
  ⟨fun _ h => h, fun _ => Iff.rfl, fun _ he => .inl he⟩

theorem trans (h : m.Grows m') (h' : m'.Grows m'') : m.Grows m'' := by
  refine ⟨fun q hq => h'.stored q (h.stored q hq), fun q => (h'.status q).trans (h.status q), ?_⟩
  intro e he
  rcases h'.logged e he with he | he
  · exact (h.logged e he).imp_right (h'.stored e.1)
  · exact .inr he

theorem derive (m : Materialisation) (q : Quad) (d : Derivation) : m.Grows (m.derive q d) := by
  refine ⟨fun x hx => (m.mem_derive x q d).mpr (.inl hx), fun x => m.extensional_derive x q d, ?_⟩
  intro e he
  rw [track_derive, List.mem_append] at he
  refine he.imp_right fun he => ?_
  split_ifs at he with hold
  · cases he
  · rw [List.mem_singleton.mp he]
    exact (m.mem_derive q q d).mpr (.inr rfl)

end Materialisation.Grows

section Stratum

variable {p : DatalogProgram Expr} {m m' : Materialisation} {base : QuadStore}

theorem Materialisation.Derives.grows (h : m.Derives m') : m.Grows m' := by
  obtain ⟨entries, rfl⟩ := h
  induction entries generalizing m with
  | nil => exact .refl m
  | cons e entries ih => exact (Grows.derive m e.1 e.2).trans (@ih (m.derive e.1 e.2))

theorem DatalogProgram.materialiseDeltaIteration_grows {delta : List Quad}
    (h : p.materialiseDeltaIteration env delta m = .ok m') : m.Grows m' := by
  have hderives := materialiseDeltaIteration_derives env p delta m
  rw [h] at hderives
  exact hderives.grows

theorem DatalogProgram.materialiseLoop_grows {fuel start : Nat}
    (h : p.materialiseLoop env fuel start m = .ok m') : m.Grows m' := by
  have hderives := materialiseLoop_derives env p fuel start m
  rw [h] at hderives
  exact hderives.grows

/-- What a stratum does to the status of quads: its body-less rules assert their heads where they
are absent, and nothing else is asserted. -/
structure StatusStep (rules : List (Rule Expr)) (base base' : QuadStore) : Prop where
  stored : ∀ q, q ∈ base → q ∈ base'
  keeps : ∀ q, base.Extensional q → base'.Extensional q
  adds : ∀ q, base'.Extensional q → base.Extensional q ∨ q ∈ factHeads rules

theorem StatusStep.refl (base : QuadStore) : StatusStep ([] : List (Rule Expr)) base base :=
  ⟨fun _ h => h, fun _ h => h, fun _ h => .inl h⟩

theorem StatusStep.append {rules rules' : List (Rule Expr)} {base base' base'' : QuadStore}
    (h : StatusStep rules base base') (h' : StatusStep rules' base' base'') :
    StatusStep (rules ++ rules') base base'' := by
  refine ⟨fun q hq => h'.stored q (h.stored q hq), fun q hq => h'.keeps q (h.keeps q hq), ?_⟩
  intro q hq
  rcases h'.adds q hq with hq | ⟨r, hr, hb, hh⟩
  · rcases h.adds q hq with hq | ⟨r, hr, hb, hh⟩
    · exact .inl hq
    · exact .inr ⟨r, List.mem_append_left _ hr, hb, hh⟩
  · exact .inr ⟨r, List.mem_append_right _ hr, hb, hh⟩

theorem StatusStep.grows {rules : List (Rule Expr)} (h : StatusStep rules base m.base)
    (hgrows : m.Grows m') (hnil : m.track = []) :
    StatusStep rules base m'.base ∧ ∀ e ∈ m'.track, e.1 ∈ m'.base := by
  refine ⟨⟨fun q hq => hgrows.stored q (h.stored q hq),
    fun q hq => (hgrows.status q).mpr (h.keeps q hq),
    fun q hq => h.adds q ((hgrows.status q).mp hq)⟩, ?_⟩
  have hlogged := hgrows.logged
  rw [hnil] at hlogged
  exact fun e he => (hlogged e he).resolve_left List.not_mem_nil

theorem DatalogProgram.seeded_status {facts : List Quad} (h : p.getFacts = .ok facts)
    (base : QuadStore) : StatusStep p.activeRules base (p.seeded base facts).base := by
  refine ⟨fun q hq => (p.mem_seeded base facts q).mpr (.inl hq), ?_, ?_⟩
  · exact fun q hq => (extensional_seeded p base facts q).mpr (.inl hq)
  · intro q hq
    rcases (extensional_seeded p base facts q).mp hq with hq | ⟨-, hq⟩
    · exact .inl hq
    · exact .inr (((getFacts_ok h).1 q).mp hq)

theorem DatalogProgram.materialiseSeminaiveTracked_status
    (h : p.materialiseSeminaiveTracked env base = .ok m) :
    StatusStep p.activeRules base m.base ∧ ∀ e ∈ m.track, e.1 ∈ m.base := by
  cases hfacts : p.getFacts with
  | error e => simp [materialiseSeminaiveTracked, materialiseSeminaiveTrackedFrom, hfacts] at h
  | ok facts =>
    rw [materialiseSeminaiveTracked_of_facts hfacts] at h
    exact (p.seeded_status hfacts base).grows (materialiseLoop_grows h) rfl

theorem DatalogProgram.materialiseSeminaiveTrackedFromFacts_status {delta : List Quad}
    (hdelta : ∀ q ∈ delta, q ∈ base)
    (h : p.materialiseSeminaiveTrackedFromFacts env base delta = .ok m) :
    StatusStep p.activeRules base m.base ∧ ∀ e ∈ m.track, e.1 ∈ m.base := by
  cases hfacts : p.getFacts with
  | error e => simp [materialiseSeminaiveTrackedFromFacts, hfacts] at h
  | ok facts =>
    have hseeded := p.seeded_status hfacts base
    have hstart : StatusStep p.activeRules base (p.fedWith base facts delta).base := by
      have hmem : ∀ q, q ∈ (p.fedWith base facts delta).base ↔ q ∈ (p.seeded base facts).base := by
        intro q
        rw [mem_fedWith, mem_seeded]
        constructor
        · rintro (hq | hq | hq)
          · exact .inl hq
          · exact .inr hq
          · exact .inl (hdelta q hq)
        · exact fun hq => hq.imp_right .inl
      have hder : ∀ q, (p.fedWith base facts delta).base.Derived q ↔
          (p.seeded base facts).base.Derived q :=
        fun q => QuadStore.derived_foldl_addQuad _ delta q
      have hext : ∀ q, (p.fedWith base facts delta).base.Extensional q ↔
          (p.seeded base facts).base.Extensional q :=
        fun q => and_congr (hmem q) (not_congr (hder q))
      exact ⟨fun q hq => (hmem q).mpr (hseeded.stored q hq),
        fun q hq => (hext q).mpr (hseeded.keeps q hq), fun q hq => hseeded.adds q ((hext q).mp hq)⟩
    simp only [materialiseSeminaiveTrackedFromFacts, hfacts] at h
    split at h
    · cases h
    · rename_i m₁ hiter
      exact hstart.grows ((materialiseDeltaIteration_grows hiter).trans (materialiseLoop_grows h))
        rfl

end Stratum

section Passes

variable {ps : List (DatalogProgram Expr)} {base : QuadStore} {s : Sweep Expr}

/-- A pass is a step when each of its strata is. -/
theorem sweep_status {materialise : List Quad → DatalogProgram Expr → QuadStore →
      Outcome Expr Materialisation} {delta : List Quad}
    (hstep : ∀ {delta p base m}, (∀ q ∈ delta, q ∈ base) → materialise delta p base = .ok m →
      StatusStep p.activeRules base m.base ∧ ∀ e ∈ m.track, e.1 ∈ m.base)
    (hdelta : ∀ q ∈ delta, q ∈ base) (h : sweep materialise delta ps base = .ok s) :
    StatusStep (activeStrata ps).flatten base s.base := by
  induction ps generalizing delta base s with
  | nil =>
    cases h
    exact .refl base
  | cons p ps ih =>
    obtain ⟨m, s', hm, hs', rfl⟩ := sweep_cons_ok h
    obtain ⟨hfirst, htrack⟩ := hstep hdelta hm
    have hdelta' : ∀ q ∈ delta ++ m.track.map Prod.fst, q ∈ m.base := by
      intro q hq
      rcases List.mem_append.mp hq with hq | hq
      · exact hfirst.stored q (hdelta q hq)
      · obtain ⟨e, he, rfl⟩ := List.mem_map.mp hq
        exact htrack e he
    have hrest := ih hdelta' hs'
    exact hfirst.append hrest

theorem materialiseAll_status (h : materialiseAll env ps base = .ok s) :
    StatusStep (activeStrata ps).flatten base s.base :=
  sweep_status (fun _ => DatalogProgram.materialiseSeminaiveTracked_status)
    (List.forall_mem_nil _) h

theorem materialiseReset_eq_ok (h : materialiseReset env ps base = .ok s) :
    materialiseAll env (ps.map fun p => p.withDerivedFrom .new) base = .ok s := by
  unfold materialiseReset at h
  unfold materialiseAll
  generalize ([] : List Quad) = delta at h ⊢
  induction ps generalizing delta base s with
  | nil => exact h
  | cons p ps ih =>
    obtain ⟨m, s', hm, hs', rfl⟩ := sweep_cons_ok h
    rw [List.map_cons, sweep, hm]
    dsimp only
    rw [ih _ hs']
    rfl

theorem materialiseForward_status {delta : List Quad} (hdelta : ∀ q ∈ delta, q ∈ base)
    (h : materialiseForward env delta ps base = .ok s) :
    StatusStep (activeStrata ps).flatten base s.base :=
  sweep_status DatalogProgram.materialiseSeminaiveTrackedFromFacts_status hdelta h

end Passes

namespace IncrementalReasoner

section Operations

variable {m m' : IncrementalReasoner Expr}

theorem foldl_retract_base (m : IncrementalReasoner Expr) (pd : List Quad) :
    (pd.foldl retract m).base = pd.foldl QuadStore.removeQuad m.base := by
  induction pd generalizing m with
  | nil => rfl
  | cons x pd ih => exact ih (m.retract x)

theorem extensional_foldl_addQuad (base : QuadStore) (l : List Quad) (q : Quad) :
    (l.foldl QuadStore.addQuad base).Extensional q ↔
      base.Extensional q ∨ (q ∈ l ∧ ¬ base.Derived q) := by
  rw [QuadStore.Extensional, QuadStore.mem_foldl_addQuad, QuadStore.derived_foldl_addQuad,
    or_and_right]
  rfl

theorem rederive_status {pd : List Quad} {s : Sweep Expr} (h : rederive env m pd = .ok s)
    (q : Quad) :
    (m.base.Extensional q → q ∉ pd → s.base.Extensional q) ∧
      (s.base.Extensional q → (m.base.Extensional q ∧ q ∉ pd) ∨
        q ∈ factHeads (activeStrata m.programs).flatten) := by
  have hstep := materialiseAll_status h
  have hbase := extensional_foldl_removeQuad m.base pd q
  rw [← foldl_retract_base] at hbase
  rw [activeStrata_foldl_retract] at hstep
  exact ⟨fun hq hno => hstep.keeps q (hbase.mpr ⟨hq, hno⟩),
    fun hq => (hstep.adds q hq).imp_left hbase.mp⟩

theorem rederive_strata {pd : List Quad} {s : Sweep Expr} (h : rederive env m pd = .ok s) :
    activeStrata s.programs = activeStrata m.programs :=
  (activeStrata_of_forall₂ (sweep_programs h)).trans (m.activeStrata_foldl_retract pd)

theorem mem_cascadePd_not_extensional {seeds : List Quad} {q : Quad}
    (h : q ∈ cascadePd m seeds) : ¬ m.base.Extensional q := by
  obtain ⟨x, -, hx, hxq⟩ := mem_cascadePd.mp h
  cases hxq with
  | refl => exact hx
  | tail _ hstep => exact hstep.2

theorem retractNegationInvalidated_status {fuel : Nat} {check : List Quad}
    (h : retractNegationInvalidated env fuel m check = .ok m') :
    activeStrata m'.programs = activeStrata m.programs ∧
      ∀ q, (m.base.Extensional q → m'.base.Extensional q) ∧ (m'.base.Extensional q →
        m.base.Extensional q ∨ q ∈ factHeads (activeStrata m.programs).flatten) := by
  induction fuel generalizing m check with
  | zero => cases h
  | succ fuel ih =>
    rw [retractNegationInvalidated] at h
    split_ifs at h with hseeds
    · cases h
      exact ⟨rfl, fun q => ⟨id, .inl⟩⟩
    · split at h
      · cases h
      · rename_i s hs
        obtain ⟨hstrata, hstatus⟩ := ih h
        have hsame := rederive_strata hs
        dsimp only at hstrata hstatus
        rw [hsame] at hstrata hstatus
        refine ⟨hstrata, fun q => ?_⟩
        obtain ⟨hkeep, hadd⟩ := rederive_status hs q
        constructor
        · intro hq
          refine (hstatus q).1 (hkeep hq fun hmem => ?_)
          exact mem_cascadePd_not_extensional ((env.quadOrder_perm _).mem_iff.mp hmem) hq
        · intro hq
          rcases (hstatus q).2 hq with hq | hq
          · exact (hadd hq).imp_left And.left
          · exact .inr hq

theorem applyInsertions_status {fuel : Nat} {inserts : List Quad}
    (h : applyInsertions env fuel m inserts = .ok m') :
    activeStrata m'.programs = activeStrata m.programs ∧ ∀ q,
      (m.base.Extensional q ∨ (q ∈ inserts ∧ ¬ m.base.Derived q) → m'.base.Extensional q) ∧
      (m'.base.Extensional q → m.base.Extensional q ∨ (q ∈ inserts ∧ ¬ m.base.Derived q) ∨
        q ∈ factHeads (activeStrata m.programs).flatten) := by
  rw [applyInsertions] at h
  split at h
  · cases h
  · rename_i s hs
    have hdelta : ∀ q ∈ inserts, q ∈ inserts.foldl QuadStore.addQuad m.base :=
      fun q hq => (m.base.mem_foldl_addQuad inserts q).mpr (.inr hq)
    have hstep := materialiseForward_status hdelta hs
    have hsame := activeStrata_of_forall₂ (sweep_programs hs)
    obtain ⟨hstrata, hstatus⟩ := retractNegationInvalidated_status h
    dsimp only at hstrata hstatus
    rw [hsame] at hstrata hstatus
    refine ⟨hstrata, fun q => ?_⟩
    have hbase := extensional_foldl_addQuad m.base inserts q
    constructor
    · exact fun hq => (hstatus q).1 (hstep.keeps q (hbase.mpr hq))
    · intro hq
      rcases (hstatus q).2 hq with hq | hq
      · rcases hstep.adds q hq with hq | hq
        · exact (hbase.mp hq).imp_right .inl
        · exact .inr (.inr hq)
      · exact .inr (.inr hq)

theorem applyDeletions_status {deletes : List Quad} {n : Nat}
    (h : applyDeletions env m deletes = .ok (m', n)) :
    activeStrata m'.programs = activeStrata m.programs ∧ ∀ q,
      (m.base.Extensional q → q ∉ deletes →
        m.FallsBack deletes ∨ ¬ Suspect m.programs deletes q → m'.base.Extensional q) ∧
      (m'.base.Extensional q → (m.base.Extensional q ∧ q ∉ deletes) ∨
        q ∈ factHeads (activeStrata m.programs).flatten) := by
  obtain ⟨rfl, rfl⟩ | ⟨-, s, hs, rfl⟩ | ⟨hfall, s, hs, rfl⟩ := applyDeletions_cases h
  · exact ⟨rfl, fun q => ⟨fun hq _ _ => hq, fun hq => .inl ⟨hq, List.not_mem_nil⟩⟩⟩
  · have hstep := materialiseAll_status (materialiseReset_eq_ok hs)
    have hreset : activeStrata (m.programs.map fun p => p.withDerivedFrom .new) =
        activeStrata m.programs := by
      rw [activeStrata, List.map_map]
      rfl
    rw [hreset] at hstep
    refine ⟨activeStrata_of_forall₂ (sweep_programs hs), fun q => ?_⟩
    have hbase := (extensional_assertedOnly (deletes.foldl QuadStore.removeQuad m.base) q).2
    rw [extensional_foldl_removeQuad] at hbase
    exact ⟨fun hq hno _ => hstep.keeps q (hbase.mpr ⟨hq, hno⟩),
      fun hq => (hstep.adds q hq).imp_left hbase.mp⟩
  · have hstrata := rederive_strata hs
    refine ⟨hstrata, fun q => ?_⟩
    obtain ⟨hkeep, hadd⟩ := rederive_status hs q
    have hbase := extensional_foldl_removeQuad m.base deletes q
    constructor
    · intro hq hno hsus
      refine hkeep (hbase.mpr ⟨hq, hno⟩) fun hmem => ?_
      have hpd := mem_backwardPhase.mp ((env.quadOrder_perm _).mem_iff.mp hmem)
      exact (hsus.resolve_left hfall) hpd
    · exact fun hq => (hadd hq).imp_left fun hq => hbase.mp hq.1

end Operations

section Run

inductive QuadUpdate where
  | insert (quads : List Quad)
  | delete (quads : List Quad)

/-- A successful call, for some number of rounds of an insertion. -/
def QuadUpdate.Applies (env : ReasonerEnv Expr) (m m' : IncrementalReasoner Expr) :
    QuadUpdate → Prop
  | .insert quads => ∃ fuel, applyInsertions env fuel m quads = .ok m'
  | .delete quads => ∃ n, applyDeletions env m quads = .ok (m', n)

/-- What the request asks of the asserted quads. -/
def QuadUpdate.asserted (E : Set Quad) : QuadUpdate → Set Quad
  | .insert quads => {q | q ∈ E ∨ q ∈ quads}
  | .delete quads => {q | q ∈ E ∧ q ∉ quads}

/-- No quad to insert is stored as a derived one; no asserted quad that stays is reached from a
deleted one through recorded derivations, unless the closure is rebuilt; and the heads of
body-less rules are asserted, before and after. -/
def QuadUpdate.KeepsStatus (m : IncrementalReasoner Expr) : QuadUpdate → Prop
  | .insert quads => (∀ q ∈ quads, ¬ m.base.Derived q) ∧
      ∀ q ∈ factHeads (activeStrata m.programs).flatten, m.base.Extensional q ∨ q ∈ quads
  | .delete quads => (m.FallsBack quads ∨
      ∀ q, m.base.Extensional q → q ∉ quads → ¬ Suspect m.programs quads q) ∧
      ∀ q ∈ factHeads (activeStrata m.programs).flatten, m.base.Extensional q ∧ q ∉ quads

/-- A run of successful calls, each of which keeps the status of quads. -/
inductive StatusRun (env : ReasonerEnv Expr) (m₀ : IncrementalReasoner Expr) :
    List QuadUpdate → IncrementalReasoner Expr → Prop
  | start : StatusRun env m₀ [] m₀
  | step {us : List QuadUpdate} {m m' : IncrementalReasoner Expr} (u : QuadUpdate) :
    StatusRun env m₀ us m → u.KeepsStatus m → u.Applies env m m' →
      StatusRun env m₀ (us ++ [u]) m'

theorem QuadUpdate.Applies.status {m m' : IncrementalReasoner Expr} {u : QuadUpdate}
    (h : u.Applies env m m') (hkeep : u.KeepsStatus m) :
    {q | m'.base.Extensional q} = u.asserted {q | m.base.Extensional q} := by
  cases u with
  | insert quads =>
    obtain ⟨fuel, h⟩ := h
    obtain ⟨hnew, hfacts⟩ := hkeep
    ext q
    obtain ⟨hto, hfrom⟩ := (applyInsertions_status h).2 q
    constructor
    · intro hq
      rcases hfrom hq with hq | ⟨hq, -⟩ | hq
      · exact .inl hq
      · exact .inr hq
      · exact hfacts q hq
    · exact fun hq => hto (hq.imp_right fun hq => ⟨hq, hnew q hq⟩)
  | delete quads =>
    obtain ⟨n, h⟩ := h
    obtain ⟨hclean, hfacts⟩ := hkeep
    ext q
    obtain ⟨hto, hfrom⟩ := (applyDeletions_status h).2 q
    constructor
    · exact fun hq => (hfrom hq).elim id (hfacts q)
    · exact fun hq => hto hq.1 hq.2 (hclean.imp_right fun hno => hno q hq.1 hq.2)

/-- In a run whose steps keep the status of quads, the asserted quads are those the requests ask
for. -/
theorem StatusRun.asserted {m₀ m : IncrementalReasoner Expr} {us : List QuadUpdate}
    (h : StatusRun env m₀ us m) :
    {q | m.base.Extensional q} = us.foldl QuadUpdate.asserted {q | m₀.base.Extensional q} := by
  induction h with
  | start => rfl
  | step u _ hkeep happly ih => rw [happly.status hkeep, List.foldl_append, ih]; rfl

end Run

theorem factHeads_unary {m : IncrementalReasoner Empty}
    (h : m.activeRules = [unaryRule 2 [1] []]) (q : Quad) :
    q ∉ factHeads (activeStrata m.programs).flatten := by
  intro ⟨r, hr, hb, _⟩
  change r ∈ m.activeRules at hr
  rw [h, List.mem_singleton] at hr
  rw [hr] at hb
  cases hb

theorem StatusRun.asserted_unary : ∃ m₀ m : IncrementalReasoner Empty,
    new .plain [unaryRule 2 [1] []] (storeOf [unaryQuad 1 0]) = .ok m₀ ∧
      {q | m.base.Extensional q} =
        [QuadUpdate.insert [unaryQuad 1 1], QuadUpdate.delete [unaryQuad 1 0]].foldl
          QuadUpdate.asserted {q | m₀.base.Extensional q} := by
  obtain ⟨m₀, hnew, hactive₀, hfresh, m₁, hins, hactive, hfall, hok⟩ :
      ∃ m₀, new .plain [unaryRule 2 [1] []] (storeOf [unaryQuad 1 0]) = .ok m₀ ∧
        m₀.activeRules = [unaryRule 2 [1] []] ∧ ¬ m₀.base.Derived (unaryQuad 1 1) ∧
        ∃ m₁, applyInsertions .plain 2 m₀ [unaryQuad 1 1] = .ok m₁ ∧
          m₁.activeRules = [unaryRule 2 [1] []] ∧
          exceedsThreshold m₁.programs (backwardPhase m₁.programs [unaryQuad 1 0]) = true ∧
          (applyDeletions .plain m₁ [unaryQuad 1 0]).toBool = true := by decide
  obtain ⟨⟨m, n⟩, hdel⟩ := exists_ok_of_toBool hok
  have hkeep₀ : (QuadUpdate.insert [unaryQuad 1 1]).KeepsStatus m₀ := by
    refine ⟨?_, fun q hq => absurd hq (factHeads_unary hactive₀ q)⟩
    intro q hq
    rw [List.mem_singleton.mp hq]
    exact hfresh
  have hkeep₁ : (QuadUpdate.delete [unaryQuad 1 0]).KeepsStatus m₁ :=
    ⟨.inl hfall, fun q hq => absurd hq (factHeads_unary hactive q)⟩
  exact ⟨m₀, m, hnew, StatusRun.asserted
    (.step _ (.step _ .start hkeep₀ ⟨2, hins⟩) hkeep₁ ⟨n, hdel⟩)⟩

/-- A quad inserted while it is stored as a derived one stays derived. -/
theorem applyInsertions_leaves_derived : ∃ m m' : IncrementalReasoner Empty,
    new .plain [unaryRule 2 [1] []] (storeOf [unaryQuad 1 0]) = .ok m ∧
      applyInsertions .plain 2 m [unaryQuad 2 0] = .ok m' ∧
      ¬ m'.base.Extensional (unaryQuad 2 0) := by
  obtain ⟨m, hnew, m', hins, hderived⟩ :
      ∃ m, new .plain [unaryRule 2 [1] []] (storeOf [unaryQuad 1 0]) = .ok m ∧
        ∃ m', applyInsertions .plain 2 m [unaryQuad 2 0] = .ok m' ∧
          ¬ m'.base.Extensional (unaryQuad 2 0) := by decide
  exact ⟨m, m', hnew, hins, hderived⟩

end IncrementalReasoner

end RdfDatalog.Datalog
