import RdfDatalog.Datalog.Maintenance

namespace RdfDatalog.Datalog

open GroundProgram FallibleFold Materialisation DatalogProgram

variable {Expr : Type}

def DatalogProgram.recorded (env : ReasonerEnv Expr) (p : DatalogProgram Expr) :
    Set (Clause Quad) :=
  {c | ∃ id r sub ws, p.Enabled id r ∧ r.Grounds env sub ∧ r.headQuad sub = some c.head ∧
    r.bodyWitnesses sub = some ws ∧ p.derivedFrom.Recorded c.head ⟨id, ws⟩ ∧
    c = r.clause sub c.head}

def recordedClauses (env : ReasonerEnv Expr) (programs : List (DatalogProgram Expr)) :
    Set (Clause Quad) :=
  {c | ∃ p ∈ programs, c ∈ p.recorded env}

def RecordsStored (programs : List (DatalogProgram Expr)) (base : QuadStore) : Prop :=
  ∀ p ∈ programs, ∀ q d, p.derivedFrom.Recorded q d → q ∈ base

section Clauses

variable {env : ReasonerEnv Expr} {p : DatalogProgram Expr} {ps : List (DatalogProgram Expr)}

theorem DatalogProgram.recorded_subset (env : ReasonerEnv Expr) (p : DatalogProgram Expr) :
    p.recorded env ⊆ clausesOf env p.activeRules := by
  intro c ⟨id, r, sub, ws, henabled, hg, hh, _, _, hc⟩
  exact ⟨r, mem_activeRules.mpr ⟨id, henabled⟩, sub, c.head, hg, hh, hc⟩

theorem DatalogProgram.recorded_mono {x : DerivedFromIndex}
    (h : ∀ q d, p.derivedFrom.Recorded q d → x.Recorded q d) :
    p.recorded env ⊆ (p.withDerivedFrom x).recorded env := by
  intro c ⟨id, r, sub, ws, henabled, hg, hh, hws, hrec, hc⟩
  exact ⟨id, r, sub, ws, henabled, hg, hh, hws, h _ _ hrec, hc⟩

theorem recordedClauses_cons (env : ReasonerEnv Expr) (p : DatalogProgram Expr)
    (ps : List (DatalogProgram Expr)) :
    recordedClauses env (p :: ps) = p.recorded env ∪ recordedClauses env ps := by
  ext c
  simp [recordedClauses]

theorem recordedClauses_subset (env : ReasonerEnv Expr) (ps : List (DatalogProgram Expr)) :
    recordedClauses env ps ⊆ clausesOf env (activeStrata ps).flatten := by
  intro c ⟨p, hp, hc⟩
  obtain ⟨r, hr, hrule⟩ := p.recorded_subset env hc
  exact ⟨r, List.mem_flatten.mpr ⟨p.activeRules, List.mem_map_of_mem hp, hr⟩, hrule⟩

end Clauses

section Stratum

variable {env : ReasonerEnv Expr} {p : DatalogProgram Expr} {N : Set Quad} {m m' : Materialisation}

theorem Reaches.backed (h : Reaches env p N m m') :
    m'.base.quads ⊆
      closure ((p.withDerivedFrom m'.derivedFrom).recorded env) N m.base.quads := by
  induction h with
  | refl => exact subset_closure _ _ _
  | @tail m₁ m₂ _ hstep ih =>
    cases hstep with
    | @fire id r sub h ws henabled hg hne hhead hws hpos hneg =>
      have hmono : (p.withDerivedFrom m₁.derivedFrom).recorded env ⊆
          (p.withDerivedFrom (m₁.derive h ⟨id, ws⟩).derivedFrom).recorded env :=
        recorded_mono (p := p.withDerivedFrom m₁.derivedFrom)
          fun q d hd => (recorded_derive ..).mpr (.inl hd)
      have hold := ih.trans (closure_mono (N := N) hmono Set.Subset.rfl Set.Subset.rfl)
      intro q hq
      rcases (mem_derive ..).mp hq with hq | rfl
      · exact hold hq
      · have hrec : (m₁.derive q ⟨id, ws⟩).derivedFrom.Recorded q ⟨id, ws⟩ :=
          (recorded_derive ..).mpr (.inr ⟨rfl, rfl⟩)
        have hc : r.clause sub q ∈
            (p.withDerivedFrom (m₁.derive q ⟨id, ws⟩).derivedFrom).recorded env :=
          ⟨id, r, sub, ws, henabled, hg, hhead, hws, hrec, rfl⟩
        exact head_mem_closure hc (hpos.trans hold) hneg

theorem Reaches.recorded_cases (h : Reaches env p N m m') {q : Quad} {d : Derivation}
    (hd : m'.derivedFrom.Recorded q d) : m.derivedFrom.Recorded q d ∨ q ∈ m'.base := by
  induction h with
  | refl => exact .inl hd
  | tail _ hstep ih =>
    cases hstep with
    | fire =>
      rcases (recorded_derive ..).mp hd with hd | ⟨rfl, -⟩
      · exact (ih hd).imp_right fun hq => (mem_derive ..).mpr (.inl hq)
      · exact .inr ((mem_derive ..).mpr (.inr rfl))

theorem Reaches.logged (h : Reaches env p N m m')
    (hstored : ∀ q d, m.derivedFrom.Recorded q d → q ∈ m.base) :
    ∀ q ∈ m'.base, q ∈ m.base ∨ q ∈ m'.track.map Prod.fst := by
  induction h with
  | refl => exact fun q hq => .inl hq
  | @tail m₁ m₂ hrun hstep ih =>
    cases hstep with
    | @fire id r sub h ws henabled hg hne hhead hws hpos hneg =>
      have hstored₁ : ∀ q d, m₁.derivedFrom.Recorded q d → q ∈ m₁.base :=
        fun q d hd => (Reaches.recorded_cases hrun hd).elim
          (fun hd => Reaches.quads_subset hrun (hstored q d hd)) fun hq => hq
      intro q hq
      rw [track_derive, List.map_append]
      rcases (mem_derive ..).mp hq with hq | rfl
      · exact (ih q hq).imp_right fun hm => List.mem_append_left _ hm
      · by_cases hold : q ∈ m₁.base
        · exact (ih q hold).imp_right fun hm => List.mem_append_left _ hm
        · right
          rw [if_neg fun hrec => hold (hstored₁ q _ hrec)]
          exact List.mem_append_right _ (List.mem_singleton_self q)

/-- A stratum runs over `base` and the quads `delta`, its body-less rules asserted first. -/
def RunsOver (env : ReasonerEnv Expr) (delta : List Quad) (p : DatalogProgram Expr)
    (base : QuadStore) (m : Materialisation) : Prop :=
  ∃ facts start, p.getFacts = .ok facts ∧
    (∀ q, q ∈ start.base ↔ q ∈ base ∨ q ∈ facts ∨ q ∈ delta) ∧
    start.derivedFrom = p.derivedFrom ∧ start.track = [] ∧
    Reaches env p start.base.quads start m

variable {base : QuadStore}

theorem runsOver_tracked (hf : env.FixedFilters)
    (h : p.materialiseSeminaiveTracked env base = .ok m) : RunsOver env [] p base m := by
  obtain ⟨facts, hfacts, hR, -⟩ := materialiseSeminaiveTracked_ok hf h
  refine ⟨facts, _, hfacts, fun q => ?_, rfl, rfl, hR⟩
  rw [p.mem_seeded]
  simp

theorem runsOver_fromFacts (hf : env.FixedFilters) {delta : List Quad}
    (h : p.materialiseSeminaiveTrackedFromFacts env base delta = .ok m) :
    RunsOver env delta p base m := by
  obtain ⟨facts, hfacts, hR, -⟩ := materialiseSeminaiveTrackedFromFacts_ok hf h
  exact ⟨facts, _, hfacts, p.mem_fedWith base facts delta, rfl, rfl, hR⟩

end Stratum

/-- A successful pass: every stratum runs over what the earlier ones leave, on some of the facts
that it is handed. -/
inductive Swept (env : ReasonerEnv Expr) :
    List Quad → List (DatalogProgram Expr) → QuadStore → Sweep Expr → Prop
  | nil {delta : List Quad} {base : QuadStore} : Swept env delta [] base ⟨[], base, []⟩
  | cons {delta given : List Quad} {p : DatalogProgram Expr} {ps : List (DatalogProgram Expr)}
      {base : QuadStore} {m : Materialisation} {s : Sweep Expr} (hgiven : given ⊆ delta)
      (hrun : RunsOver env given p base m)
      (hrest : Swept env (delta ++ m.track.map Prod.fst) ps m.base s) :
      Swept env delta (p :: ps) base (s.cons p m)

section Passes

variable {env : ReasonerEnv Expr} {delta : List Quad} {ps : List (DatalogProgram Expr)}
  {base : QuadStore} {s : Sweep Expr}

theorem swept_of_sweep {materialise : List Quad → DatalogProgram Expr → QuadStore →
    Outcome Expr Materialisation}
    (hrun : ∀ delta p base m, materialise delta p base = .ok m →
      ∃ given ⊆ delta, RunsOver env given p base m)
    (h : sweep materialise delta ps base = .ok s) : Swept env delta ps base s := by
  induction ps generalizing delta base s with
  | nil =>
    cases h
    exact .nil
  | cons p ps ih =>
    obtain ⟨m, s', hm, hs', rfl⟩ := sweep_cons_ok h
    obtain ⟨given, hgiven, hruns⟩ := hrun delta p base m hm
    exact .cons hgiven hruns (ih hs')

theorem swept_materialiseAll (hf : env.FixedFilters) (h : materialiseAll env ps base = .ok s) :
    Swept env [] ps base s :=
  swept_of_sweep (fun _ _ _ _ hm => ⟨[], List.nil_subset _, runsOver_tracked hf hm⟩) h

theorem swept_materialiseForward (hf : env.FixedFilters)
    (h : materialiseForward env delta ps base = .ok s) : Swept env delta ps base s :=
  swept_of_sweep (fun delta _ _ _ hm => ⟨delta, List.Subset.refl _, runsOver_fromFacts hf hm⟩) h

variable {given : List Quad} {p : DatalogProgram Expr} {m : Materialisation}

theorem RunsOver.grows (h : RunsOver env given p base m) : ∀ q ∈ base, q ∈ m.base := by
  obtain ⟨facts, start, -, hstart, -, -, hR⟩ := h
  exact fun q hq => hR.quads_subset ((hstart q).mpr (.inl hq))

theorem RunsOver.track_mem (h : RunsOver env given p base m) :
    ∀ q ∈ m.track.map Prod.fst, q ∈ m.base := by
  obtain ⟨facts, start, -, -, -, htrack, hR⟩ := h
  intro q hq
  obtain ⟨e, he, rfl⟩ := List.mem_map.mp hq
  refine (hR.track_mem e he).resolve_left fun hold => ?_
  rw [htrack] at hold
  cases hold

variable (h : Swept env delta ps base s)

include h

theorem Swept.grows : ∀ q ∈ base, q ∈ s.base := by
  induction h with
  | nil => exact fun q hq => hq
  | cons hgiven hrun hrest ih => exact fun q hq => ih q (hrun.grows q hq)

theorem Swept.strata :
    activeStrata s.programs = activeStrata ps := by
  induction h with
  | nil => rfl
  | cons hgiven hrun hrest ih => exact congrArg₂ List.cons rfl ih

omit h

theorem mem_delta_append (h : RunsOver env given p base m) (hdelta : ∀ q ∈ delta, q ∈ base) :
    ∀ q ∈ delta ++ m.track.map Prod.fst, q ∈ m.base := by
  intro q hq
  exact (List.mem_append.mp hq).elim (fun hq => h.grows q (hdelta q hq)) (h.track_mem q)

theorem exists_clause_of_fact (env : ReasonerEnv Expr) {rules : List (Rule Expr)} {q : Quad}
    (hq : q ∈ factHeads rules) : ∃ c ∈ clausesOf env rules, c.head = q ∧ ∀ M, c.Active M := by
  obtain ⟨r, hr, hb, hh⟩ := hq
  exact ⟨r.clause emptySubstitution q, ⟨r, hr, _, q, r.grounds_fact env hb, hh, rfl⟩, rfl,
    r.activeIn_fact hb emptySubstitution⟩

theorem mem_facts_iff {facts : List Quad} (h : p.getFacts = .ok facts) (q : Quad) :
    q ∈ facts ↔ q ∈ factHeads p.activeRules :=
  (getFacts_ok h).1 q

include h

/-- What a pass over ordered strata leaves follows, by derivations that it has on record, from what
it starts with. -/
theorem Swept.backed (hs : OrderedStrata (activeStrata ps))
    (hdelta : ∀ q ∈ delta, q ∈ base) :
    s.base.quads ⊆ closure (recordedClauses env s.programs) s.base.quads
      (base.quads ∪ factHeads (activeStrata ps).flatten) := by
  induction h with
  | nil => exact Set.subset_union_left.trans (subset_closure _ _ _)
  | @cons delta given p ps base m s hgiven hrun hrest ih =>
    have hdelta' := mem_delta_append hrun hdelta
    obtain ⟨facts, start, hfacts, hstart, hderived, -, hR⟩ := hrun
    have hmodel := ih hs.tail hdelta'
    have hstrat := hs.stratified env
    have hprec : Precedes (clausesOf env p.activeRules)
        (clausesOf env (activeStrata ps).flatten) := by
      have hhead := hstrat.head_precedes
      rw [union_map_clausesOf] at hhead
      exact hhead
    have hneg : NegationFree (clausesOf env p.activeRules) :=
      negationFree_clausesOf (hs.negation _ (.head _)) env
    have hback := hR.backed
    have hown := (p.withDerivedFrom m.derivedFrom).recorded_subset env
    -- nothing that the later strata add blocks a derivation of this one
    have hblock : ∀ c ∈ (p.withDerivedFrom m.derivedFrom).recorded env,
        (∀ a ∈ c.neg, a ∉ start.base.quads) → ∀ a ∈ c.neg, a ∉ s.base.quads := by
      intro c hc hno a ha hmem
      have hclause := hown hc
      have hlater {d : Clause Quad} (hd : d ∈ clausesOf env (activeStrata ps).flatten)
          (heq : d.head = a) : False := (hprec c hclause d hd).2 (heq ▸ ha)
      rcases mem_closure_cases (hmodel hmem) with (hm | hfact) | ⟨d, hd, heq⟩
      · rcases mem_closure_cases (hback hm) with hbase | ⟨d, hd, rfl⟩
        · exact hno a ha hbase
        · exact hneg c hclause d (hown hd) ha
      · obtain ⟨d, hd, heq, -⟩ := exists_clause_of_fact env hfact
        exact hlater hd heq
      · rw [← hrest.strata] at hlater
        exact hlater (recordedClauses_subset env _ hd) heq
    have hprograms : recordedClauses env (s.cons p m).programs =
        (p.withDerivedFrom m.derivedFrom).recorded env ∪ recordedClauses env s.programs :=
      recordedClauses_cons env _ _
    have hfactHeads : factHeads (activeStrata ps).flatten ⊆
        factHeads (activeStrata (p :: ps)).flatten :=
      fun q ⟨r, hr, hfact⟩ => ⟨r, List.mem_append_right _ hr, hfact⟩
    have hfirst : m.base.quads ⊆ closure (recordedClauses env (s.cons p m).programs) s.base.quads
        (base.quads ∪ factHeads (activeStrata (p :: ps)).flatten) := by
      refine hback.trans (closure_subset ?_ ?_)
      · intro q hq
        apply GroundProgram.subset_closure
        rcases (hstart q).mp hq with hq | hq | hq
        · exact .inl hq
        · obtain ⟨r, hr, hfact⟩ := (mem_facts_iff hfacts q).mp hq
          exact .inr ⟨r, List.mem_append_left _ hr, hfact⟩
        · exact .inl (hdelta q (hgiven hq))
      · intro c hc hpos hno
        rw [hprograms] at hpos ⊢
        exact head_mem_closure (.inl hc) hpos (hblock c hc hno)
    refine hmodel.trans (closure_subset (Set.union_subset hfirst ?_) ?_)
    · exact (hfactHeads.trans Set.subset_union_right).trans (subset_closure _ _ _)
    · intro c hc hpos hno
      rw [hprograms] at hpos ⊢
      exact head_mem_closure (.inr hc) hpos hno

theorem Swept.recorded_cases {p' : DatalogProgram Expr}
    (hp' : p' ∈ s.programs) {q : Quad} {d : Derivation} (hd : p'.derivedFrom.Recorded q d) :
    (∃ p ∈ ps, p.derivedFrom.Recorded q d) ∨ q ∈ s.base := by
  induction h with
  | nil => exact .inl ⟨p', hp', hd⟩
  | @cons delta given p ps base m s hgiven hrun hrest ih =>
    obtain ⟨facts, start, -, -, hderived, -, hR⟩ := hrun
    rcases List.mem_cons.mp hp' with rfl | hp'
    · rcases hR.recorded_cases hd with hd | hq
      · rw [hderived] at hd
        exact .inl ⟨p, List.mem_cons_self, hd⟩
      · exact .inr (hrest.grows q hq)
    · rcases ih hp' with ⟨p₁, hp₁, hd⟩ | hq
      · exact .inl ⟨p₁, List.mem_cons_of_mem _ hp₁, hd⟩
      · exact .inr hq

theorem Swept.recordsStored (hstored : RecordsStored ps base) :
    RecordsStored s.programs s.base := by
  intro p' hp' q d hd
  rcases h.recorded_cases hp' hd with ⟨p, hp, hd⟩ | hq
  · exact h.grows q (hstored p hp q d hd)
  · exact hq

theorem Swept.logged (hstored : RecordsStored ps base)
    (hdelta : ∀ q ∈ delta, q ∈ base) :
    ∀ q ∈ s.base, q ∈ base ∨ q ∈ factHeads (activeStrata ps).flatten ∨
      q ∈ s.tracked.flatten.map Prod.fst := by
  induction h with
  | nil => exact fun q hq => .inl hq
  | @cons delta given p ps base m s hgiven hrun hrest ih =>
    have hgrows := hrun.grows
    have hdelta' := mem_delta_append hrun hdelta
    obtain ⟨facts, start, hfacts, hstart, hderived, -, hR⟩ := hrun
    have hstart₁ : ∀ q d, start.derivedFrom.Recorded q d → q ∈ start.base := by
      intro q d hd
      rw [hderived] at hd
      exact (hstart q).mpr (.inl (hstored p List.mem_cons_self q d hd))
    have hlogged := ih
      (fun p' hp' q d hd => hgrows q (hstored p' (List.mem_cons_of_mem _ hp') q d hd)) hdelta'
    have htracked : (s.cons p m).tracked.flatten.map Prod.fst =
        m.track.map Prod.fst ++ s.tracked.flatten.map Prod.fst := by
      rw [Sweep.cons, List.flatten_cons, List.map_append]
    intro q hq
    rw [htracked]
    rcases hlogged q hq with hq | ⟨r, hr, hfact⟩ | hq
    · rcases hR.logged hstart₁ q hq with hq | hq
      · rcases (hstart q).mp hq with hq | hq | hq
        · exact .inl hq
        · obtain ⟨r, hr, hfact⟩ := (mem_facts_iff hfacts q).mp hq
          exact .inr (.inl ⟨r, List.mem_append_left _ hr, hfact⟩)
        · exact .inl (hdelta q (hgiven hq))
      · exact .inr (.inr (List.mem_append_left _ hq))
    · exact .inr (.inl ⟨r, List.mem_append_right _ hr, hfact⟩)
    · exact .inr (.inr (List.mem_append_right _ hq))

theorem Swept.recorded :
    recordedClauses env ps ⊆ recordedClauses env s.programs := by
  induction h with
  | nil => exact Set.Subset.rfl
  | @cons delta given p ps base m s hgiven hrun hrest ih =>
    obtain ⟨facts, start, -, -, hderived, -, hR⟩ := hrun
    have hprograms : recordedClauses env (s.cons p m).programs =
        (p.withDerivedFrom m.derivedFrom).recorded env ∪ recordedClauses env s.programs :=
      recordedClauses_cons env _ _
    rw [hprograms, recordedClauses_cons]
    refine Set.union_subset_union (recorded_mono fun q d hd => hR.recorded ?_) ih
    rw [hderived]
    exact hd

omit h

end Passes

end RdfDatalog.Datalog
