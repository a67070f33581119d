import RdfDatalog.Datalog.SemiNaive
import Mathlib.Tactic.Ring

namespace RdfDatalog.Datalog

open GroundProgram FallibleFold

variable {Expr : Type}

theorem QuadStore.quadCount_eq (s : QuadStore) : s.table.quadCount = s.quadList.length :=
  s.wellFormed.count

/-- Every unblocked enabled instance over `S` that has a witness in `trigger` is done. -/
def Covered (env : ReasonerEnv Expr) (p : DatalogProgram Expr) (trigger S : Set Quad)
    (m : Materialisation) : Prop :=
  ∀ id r sub, p.Enabled id r → r.Grounds env sub → r.witnesses sub ⊆ S →
    (∃ w ∈ r.witnesses sub, w ∈ trigger) → (∀ b ∈ r.blockers sub, b ∉ m.base) → Done m id r sub

section Loop

variable {env : ReasonerEnv Expr} {p : DatalogProgram Expr} {N trigger : Set Quad}
  {m m' : Materialisation} {f : Fault Expr}

theorem materialiseLoop_succ (fuel deltaStart : Nat) :
    p.materialiseLoop env (fuel + 1) deltaStart m =
    if m.base.quadList.length ≤ deltaStart then .ok m
    else (match p.materialiseDeltaIteration env (m.base.quadList.drop deltaStart) m with
      | .error e => .error e
      | .ok m₁ => p.materialiseLoop env fuel m.base.quadList.length m₁) := by
  change (if m.base.table.quadCount ≤ deltaStart then (.ok m : Outcome Expr Materialisation)
    else (match p.materialiseDeltaIteration env
        ((m.base.quadList.take m.base.table.quadCount).drop deltaStart) m with
      | .error e => .error e
      | .ok m₁ => p.materialiseLoop env fuel m.base.table.quadCount m₁)) = _
  rw [QuadStore.quadCount_eq, List.take_length]

theorem materialiseLoop_reached {I : Materialisation → Prop}
    (hstep : ∀ delta m, I m → I (reached (p.materialiseDeltaIteration env delta m)))
    (fuel start : Nat) (h : I m) : I (reached (p.materialiseLoop env fuel start m)) := by
  induction fuel generalizing start m with
  | zero => exact h
  | succ fuel ih =>
    rw [materialiseLoop_succ]
    split_ifs
    · exact h
    · have hiter := hstep (m.base.quadList.drop start) m h
      cases hrun : p.materialiseDeltaIteration env (m.base.quadList.drop start) m with
      | error e =>
        rw [hrun] at hiter
        exact hiter
      | ok m₁ =>
        rw [hrun] at hiter
        exact ih _ hiter

theorem Covered.iterate (hf : env.FixedFilters) (hN : N ⊆ m.base.quads) {start : Nat}
    (hinv : Covered env p trigger {q | q ∈ m.base.quadList.take start} m)
    (h : p.materialiseDeltaIteration env (m.base.quadList.drop start) m = .ok m') :
    Reaches env p N m m' ∧
      Covered env p trigger {q | q ∈ m'.base.quadList.take m.base.quadList.length} m' := by
  obtain ⟨hR, hD⟩ := materialiseDeltaIteration_ok hf hN h
  refine ⟨hR, ?_⟩
  intro id r sub henabled hg hpos htrig hneg
  rw [← List.prefix_iff_eq_take.mp hR.quadList_isPrefix] at hpos
  by_cases hold : ∀ w ∈ r.witnesses sub, w ∈ m.base.quadList.take start
  · have hneg' : ∀ b ∈ r.blockers sub, b ∉ m.base :=
      fun b hb hbm => hneg b hb (hR.quads_subset hbm)
    exact (hinv id r sub henabled hg hold htrig hneg').mono hR
  · obtain ⟨w, hw⟩ := not_forall.mp hold
    obtain ⟨hw, hnot⟩ := Classical.not_imp.mp hw
    have hmem : w ∈ m.base.quadList.take start ++ m.base.quadList.drop start := by
      rw [List.take_append_drop]
      exact hpos hw
    rcases List.mem_append.mp hmem with hmem | hmem
    · exact absurd hmem hnot
    · exact hD id r sub henabled hg ⟨w, hw, hmem⟩ hpos hneg

theorem materialiseLoop_ok (hf : env.FixedFilters) {fuel start : Nat} (hN : N ⊆ m.base.quads)
    (hinv : Covered env p trigger {q | q ∈ m.base.quadList.take start} m)
    (h : p.materialiseLoop env fuel start m = .ok m') :
    Reaches env p N m m' ∧ Covered env p trigger m'.base.quads m' := by
  induction fuel generalizing start m with
  | zero => cases h
  | succ fuel ih =>
    rw [materialiseLoop_succ] at h
    split_ifs at h with hend
    · cases h
      rw [List.take_of_length_le hend] at hinv
      exact ⟨.refl, hinv⟩
    · split at h
      · cases h
      · next m₁ hit =>
        obtain ⟨hR, hinv₁⟩ := hinv.iterate hf hN hit
        obtain ⟨hR', hcov⟩ := ih (hN.trans hR.quads_subset) hinv₁ h
        exact ⟨hR.trans hR', hcov⟩

theorem materialiseLoop_error (hf : env.FixedFilters) {fuel start : Nat} (hN : N ⊆ m.base.quads)
    (h : p.materialiseLoop env fuel start m = .error (f, m')) :
    Reaches env p N m m' ∧ (f = .outOfFuel ∨ Stuck env p N m'.base.quads) := by
  induction fuel generalizing start m with
  | zero =>
    cases h
    exact ⟨.refl, .inl rfl⟩
  | succ fuel ih =>
    rw [materialiseLoop_succ] at h
    split_ifs at h with hend
    cases hit : p.materialiseDeltaIteration env (m.base.quadList.drop start) m with
    | error e =>
      rw [hit] at h
      cases h
      obtain ⟨hR, hstuck, -⟩ := materialiseDeltaIteration_error hf hN hit
      exact ⟨hR, .inr hstuck⟩
    | ok m₁ =>
      rw [hit] at h
      obtain ⟨hR, -⟩ := materialiseDeltaIteration_ok hf hN hit
      obtain ⟨hR', hout⟩ := ih (hN.trans hR.quads_subset) h
      exact ⟨hR.trans hR', hout⟩

/-- The loop ends: each iteration but the last adds a quad, and there are at most `B`. The states it
goes through satisfy `I`, and each is related to the next. -/
theorem materialiseLoop_ends {R : Materialisation → Materialisation → Prop}
    {I : Materialisation → Prop} (hrefl : ∀ a, R a a) (htrans : ∀ {a b c}, R a b → R b c → R a c)
    (hgrows : ∀ {a b}, R a b → a.base.quadList.length ≤ b.base.quadList.length)
    (hstep : ∀ {delta a b}, I a → p.materialiseDeltaIteration env delta a = .ok b → R a b ∧ I b)
    (hfault : ∀ {delta a f b}, I a → p.materialiseDeltaIteration env delta a = .error (f, b) →
      f ≠ .outOfFuel) {fuel start B : Nat} (hI : I m)
    (hB : ∀ m₁, R m m₁ → m₁.base.quadList.length ≤ B) (hfuel : B < start + fuel)
    (hstart : start ≤ m.base.quadList.length)
    (h : p.materialiseLoop env fuel start m = .error (f, m')) : f ≠ .outOfFuel := by
  induction fuel generalizing start m with
  | zero =>
    have hlen := hB m (hrefl m)
    omega
  | succ fuel ih =>
    rw [materialiseLoop_succ] at h
    split_ifs at h with hend
    cases hit : p.materialiseDeltaIteration env (m.base.quadList.drop start) m with
    | error e =>
      rw [hit] at h
      cases h
      exact hfault hI hit
    | ok m₁ =>
      rw [hit] at h
      obtain ⟨hR, hI₁⟩ := hstep hI hit
      have hlen := hgrows hR
      have hfuel' : B < m.base.quadList.length + fuel := by omega
      exact ih hI₁ (fun m₂ h₂ => hB m₂ (htrans hR h₂)) hfuel' hlen h

theorem materialiseLoop_fuel (hf : env.FixedFilters) {fuel start B : Nat}
    (hN : N ⊆ m.base.quads)
    (hB : ∀ m₁, Reaches env p N m m₁ → m₁.base.quadList.length ≤ B)
    (hfuel : B < start + fuel) (hstart : start ≤ m.base.quadList.length)
    (h : p.materialiseLoop env fuel start m = .error (f, m')) : f ≠ .outOfFuel := by
  have hstep {delta : List Quad} {a b : Materialisation} (ha : N ⊆ a.base.quads)
      (hit : p.materialiseDeltaIteration env delta a = .ok b) :
      Reaches env p N a b ∧ N ⊆ b.base.quads := by
    obtain ⟨hR, -⟩ := materialiseDeltaIteration_ok hf ha hit
    exact ⟨hR, ha.trans hR.quads_subset⟩
  exact materialiseLoop_ends (fun _ => .refl) (fun h h₁ => h.trans h₁)
    (fun hR => hR.quadList_isPrefix.length_le) hstep
    (fun ha hit => (materialiseDeltaIteration_error hf ha hit).2.2) hN hB hfuel hstart h

end Loop

section Herbrand

open DatalogProgram

theorem mem_quadIds_of_apply {sub : Substitution} {p : QuadPattern} {q : Quad}
    (h : applySubstitutionQuad sub p = some q) {v : String} (hv : v ∈ p.getVariables)
    {x : GraphElementId} (hx : sub v = some x) : x ∈ quadIds q := by
  have hterm : ∀ {t : Term} {y : GraphElementId}, applySubstitutionResource sub t = some y →
      v ∈ t.getVariables → x = y := by
    intro t y ht hvt
    cases t with
    | resource r => cases hvt
    | var w =>
      obtain rfl : v = w := by simpa [Term.getVariables] using hvt
      exact Option.some.inj (hx.symm.trans ht)
  obtain ⟨hg, hs, hp, ho⟩ := applySubstitutionQuad_eq_some.mp h
  rcases mem_getVariables.mp hv with h | h | h | h
  · simp [quadIds, hterm hg h]
  · simp [quadIds, hterm hs h]
  · simp [quadIds, hterm hp h]
  · simp [quadIds, hterm ho h]

theorem headQuad_ids {env : ReasonerEnv Expr} {r : Rule Expr} {sub : Substitution} {h : Quad}
    (hg : r.Grounds env sub) (hh : r.headQuad sub = some h) {x : GraphElementId}
    (hx : x ∈ quadIds h) : x ∈ headIds r ∨ ∃ w ∈ r.witnesses sub, x ∈ quadIds w := by
  unfold Rule.headQuad at hh
  cases hr : r.head with
  | contradiction => rw [hr] at hh; cases hh
  | normalHead p =>
    rw [hr] at hh
    obtain ⟨hg', hs, hp, ho⟩ := applySubstitutionQuad_eq_some.mp hh
    have hterm : ∀ t : Term, t ∈ [p.graph, p.subject, p.predicate, p.object] →
        applySubstitutionResource sub t = some x →
        x ∈ headIds r ∨ ∃ w ∈ r.witnesses sub, x ∈ quadIds w := by
      intro t ht htx
      cases t with
      | resource y =>
        obtain rfl : y = x := Option.some.inj htx
        refine .inl ?_
        rw [headIds, hr]
        exact List.mem_flatMap.mpr ⟨_, ht, by simp [Term.ids]⟩
      | var v =>
        have hv : sub v = some x := htx
        obtain ⟨pat, hpat, hvp⟩ := (hg.dom v).mp (by simp [hv])
        obtain ⟨w, hw⟩ := hg.exists_witness hpat
        exact .inr ⟨w, ⟨pat, hpat, hw⟩, mem_quadIds_of_apply hw hvp hv⟩
    simp only [quadIds, List.mem_cons, List.not_mem_nil, or_false] at hx
    rcases hx with rfl | rfl | rfl | rfl
    · exact hterm _ (by simp) hg'
    · exact hterm _ (by simp) hs
    · exact hterm _ (by simp) hp
    · exact hterm _ (by simp) ho

theorem Reaches.ids {env : ReasonerEnv Expr} {p : DatalogProgram Expr} {N : Set Quad}
    {m m' : Materialisation} (h : Reaches env p N m m') {ids : List GraphElementId}
    (hrules : ∀ r ∈ p.rules, ∀ x ∈ headIds r, x ∈ ids)
    (hbase : ∀ q ∈ m.base, ∀ x ∈ quadIds q, x ∈ ids) :
    ∀ q ∈ m'.base, ∀ x ∈ quadIds q, x ∈ ids := by
  induction h with
  | refl => exact hbase
  | tail _ hstep ih =>
    cases hstep with
    | @fire id r sub h ws henabled hg hne hhead hws hpos hneg =>
      intro q hq x hx
      rcases (Materialisation.mem_derive ..).mp hq with hq | rfl
      · exact ih q hq x hx
      · rcases headQuad_ids hg hhead hx with hx | ⟨w, hw, hx⟩
        · exact hrules r (List.mem_of_getElem? henabled.1) x hx
        · exact ih w (hpos hw) x hx

theorem length_le_of_ids (s : QuadStore) {ids : List GraphElementId}
    (h : ∀ q ∈ s, ∀ x ∈ quadIds q, x ∈ ids) : s.quadList.length ≤ ids.length ^ 4 := by
  let I := ids.toFinset
  let U := (I ×ˢ I ×ˢ I ×ˢ I).image fun t => (⟨t.1, t.2.1, t.2.2.1, t.2.2.2⟩ : Quad)
  have hsub : s.quadList.toFinset ⊆ U := by
    intro q hq
    have hids := h q (List.mem_toFinset.mp hq)
    have hI : ∀ x ∈ quadIds q, x ∈ I := fun x hx => List.mem_toFinset.mpr (hids x hx)
    refine Finset.mem_image.mpr ⟨(q.tripleId, q.subject, q.predicate, q.obj), ?_, rfl⟩
    simp only [Finset.mem_product]
    exact ⟨hI _ (by simp [quadIds]), hI _ (by simp [quadIds]), hI _ (by simp [quadIds]),
      hI _ (by simp [quadIds])⟩
  have hcard : U.card ≤ I.card ^ 4 := by
    refine Finset.card_image_le.trans (le_of_eq ?_)
    simp only [Finset.card_product]
    ring
  calc s.quadList.length = s.quadList.toFinset.card :=
        (List.toFinset_card_of_nodup s.nodup_quadList).symm
    _ ≤ U.card := Finset.card_le_card hsub
    _ ≤ I.card ^ 4 := hcard
    _ ≤ ids.length ^ 4 := Nat.pow_le_pow_left (List.toFinset_card_le ids) 4

theorem length_le_iterationBound {env : ReasonerEnv Expr} {p : DatalogProgram Expr} {N : Set Quad}
    {m m' : Materialisation} (h : Reaches env p N m m') :
    m'.base.quadList.length < p.iterationBound m.base := by
  have hrules : ∀ r ∈ p.rules, ∀ x ∈ headIds r, x ∈ p.herbrandIds m.base :=
    fun r hr x hx => List.mem_append_left _ (List.mem_flatMap.mpr ⟨r, hr, hx⟩)
  have hbase : ∀ q ∈ m.base, ∀ x ∈ quadIds q, x ∈ p.herbrandIds m.base :=
    fun q hq x hx => List.mem_append_right _ (List.mem_flatMap.mpr ⟨q, hq, hx⟩)
  exact Nat.lt_succ_of_le (length_le_of_ids m'.base (h.ids hrules hbase))

end Herbrand

namespace DatalogProgram

variable {env : ReasonerEnv Expr} (hf : env.FixedFilters) {p : DatalogProgram Expr}
  {base : QuadStore} {m : Materialisation} {f : Fault Expr}

/-- The state in which the iterations of a run begin. -/
def seeded (p : DatalogProgram Expr) (base : QuadStore) (facts : List Quad) : Materialisation :=
  ⟨facts.foldl QuadStore.addQuad base, p.derivedFrom, []⟩

theorem mem_seeded (p : DatalogProgram Expr) (base : QuadStore) (facts : List Quad) (q : Quad) :
    q ∈ (p.seeded base facts).base ↔ q ∈ base ∨ q ∈ facts :=
  base.mem_foldl_addQuad facts q

theorem seeded_subset (env : ReasonerEnv Expr) {facts : List Quad} (h : p.getFacts = .ok facts)
    {N E : Set Quad}
    (hE : base.quads ⊆ closure (clausesOf env p.activeRules) N E) :
    (p.seeded base facts).base.quads ⊆ closure (clausesOf env p.activeRules) N E := by
  intro q hq
  rcases (p.mem_seeded base facts q).mp hq with hq | hq
  · exact hE hq
  · obtain ⟨r, hr, hb, hh⟩ := ((getFacts_ok h).1 q).mp hq
    have hact := r.activeIn_fact hb emptySubstitution
    have hc : r.clause emptySubstitution q ∈ clausesOf env p.activeRules :=
      ⟨r, hr, _, q, r.grounds_fact env hb, hh, rfl⟩
    exact head_mem_closure hc (hact _).1 (hact N).2

theorem stuck_of_getFacts_error (h : p.getFacts = .error f) (N S : Set Quad) :
    Stuck env p N S := by
  obtain ⟨⟨r, hr, hb, hnone⟩, -⟩ := getFacts_error h
  have hact := r.activeIn_fact hb emptySubstitution
  exact ⟨r, hr, emptySubstitution, r.grounds_fact env hb, hnone, (hact S).1, (hact N).2⟩

theorem materialiseSeminaiveTracked_of_facts {facts : List Quad} (h : p.getFacts = .ok facts) :
    p.materialiseSeminaiveTracked env base =
      p.materialiseLoop env (p.iterationBound (p.seeded base facts).base) 0
        (p.seeded base facts) := by
  simp only [materialiseSeminaiveTracked, materialiseSeminaiveTrackedFrom, h]
  rfl

include hf

/-- A successful run from scratch: derivation steps, after which every instance that holds is
done. -/
theorem materialiseSeminaiveTracked_ok (h : p.materialiseSeminaiveTracked env base = .ok m) :
    ∃ facts, p.getFacts = .ok facts ∧
      Reaches env p (p.seeded base facts).base.quads (p.seeded base facts) m ∧
      Covered env p Set.univ m.base.quads m := by
  cases hfacts : p.getFacts with
  | error e => simp [materialiseSeminaiveTracked, materialiseSeminaiveTrackedFrom, hfacts] at h
  | ok facts =>
    rw [materialiseSeminaiveTracked_of_facts hfacts] at h
    have hinit : Covered env p Set.univ
        {q | q ∈ (p.seeded base facts).base.quadList.take 0} (p.seeded base facts) := by
      intro id r sub _ _ hpos ⟨w, hw, _⟩
      have hnil := hpos hw
      simp at hnil
    exact ⟨facts, rfl, materialiseLoop_ok hf Set.Subset.rfl hinit h⟩

/-- After a successful run every instance that holds has its head, and none is a contradiction. -/
theorem materialiseSeminaiveTracked_done (h : p.materialiseSeminaiveTracked env base = .ok m)
    {r : Rule Expr} (hr : r ∈ p.activeRules) {sub : Substitution} (hg : r.Grounds env sub)
    (hact : r.ActiveIn sub m.base.quads) : ∃ q, r.headQuad sub = some q ∧ q ∈ m.base := by
  obtain ⟨facts, hfacts, hR, hcov⟩ := materialiseSeminaiveTracked_ok hf h
  by_cases hb : r.body = []
  · obtain rfl := hg.eq_empty hb
    obtain ⟨q, hq⟩ := Option.isSome_iff_exists.mp ((getFacts_ok hfacts).2 r hr hb)
    have hfact := ((getFacts_ok hfacts).1 q).mpr ⟨r, hr, hb, hq⟩
    exact ⟨q, hq, hR.quads_subset ((p.mem_seeded base facts q).mpr (.inr hfact))⟩
  · obtain ⟨id, henabled⟩ := mem_activeRules.mp hr
    have hne : r.positivePatterns ≠ [] := hg.evaluated.resolve_right hb
    obtain ⟨pat, hpat⟩ := List.exists_mem_of_ne_nil _ hne
    obtain ⟨w, hw⟩ := hg.exists_witness hpat
    obtain ⟨q, ws, hq, -, hmem, -⟩ :=
      hcov id r sub henabled hg hact.1 ⟨w, ⟨pat, hpat, hw⟩, trivial⟩ hact.2
    exact ⟨q, hq, hmem⟩

theorem materialiseSeminaiveTracked_consistent
    (h : p.materialiseSeminaiveTracked env base = .ok m) :
    Consistent env p.activeRules m.base.quads := by
  intro r hr sub hg hact
  obtain ⟨q, hq, -⟩ := materialiseSeminaiveTracked_done hf h hr hg hact
  rw [hq]
  rfl

theorem materialiseSeminaiveTracked_closure
    (hneg : NegationFree (clausesOf env p.activeRules))
    (h : p.materialiseSeminaiveTracked env base = .ok m) :
    m.base.quads = closure (clausesOf env p.activeRules) base.quads base.quads ∧
      Consistent env p.activeRules m.base.quads := by
  obtain ⟨facts, hfacts, hR, -⟩ := materialiseSeminaiveTracked_ok hf h
  have hbase : base.quads ⊆ (p.seeded base facts).base.quads :=
    fun q hq => (p.mem_seeded base facts q).mpr (.inl hq)
  have hstart := seeded_subset env hfacts (subset_closure _ base.quads base.quads)
  have hsound : m.base.quads ⊆ closure (clausesOf env p.activeRules) base.quads base.quads := by
    have hR' : Reaches env p base.quads (p.seeded base facts) m := by
      refine Relation.ReflTransGen.mono ?_ _ _ hR
      intro m₁ m₂ hstep
      cases hstep with
      | fire henabled hg hne hhead hws hpos hneg =>
        exact .fire henabled hg hne hhead hws hpos fun b hb hbN => hneg b hb (hbase hbN)
    exact hR'.sound hstart
  refine ⟨hneg.eq_closure (hbase.trans hR.quads_subset) hsound ?_,
    materialiseSeminaiveTracked_consistent hf h⟩
  rintro _ ⟨r, hr, sub, q, hg, hh, rfl⟩ hact
  obtain ⟨q', hq', hmem⟩ := materialiseSeminaiveTracked_done hf h hr hg hact
  obtain rfl : q = q' := Option.some.inj (hh.symm.trans hq')
  exact hmem

theorem materialiseSeminaiveTracked_error
    (h : p.materialiseSeminaiveTracked env base = .error (f, m)) :
    f ≠ .outOfFuel ∧ Stuck env p base.quads
      (closure (clausesOf env p.activeRules) base.quads base.quads) := by
  cases hfacts : p.getFacts with
  | error e =>
    simp only [materialiseSeminaiveTracked, materialiseSeminaiveTrackedFrom, hfacts,
      Except.error.injEq, Prod.mk.injEq] at h
    rw [← h.1]
    exact ⟨(getFacts_error hfacts).2, stuck_of_getFacts_error hfacts _ _⟩
  | ok facts =>
    rw [materialiseSeminaiveTracked_of_facts hfacts] at h
    have hbase : base.quads ⊆ (p.seeded base facts).base.quads :=
      fun q hq => (p.mem_seeded base facts q).mpr (.inl hq)
    obtain ⟨hR, hout⟩ := materialiseLoop_error hf (N := base.quads) hbase h
    have hfuel : f ≠ .outOfFuel := by
      refine materialiseLoop_fuel hf (N := base.quads) hbase
        (B := p.iterationBound (p.seeded base facts).base - 1) ?_ ?_ (Nat.zero_le _) h
      · intro m₁ hR₁
        have hlt := length_le_iterationBound hR₁
        omega
      · have hpos : 0 < p.iterationBound (p.seeded base facts).base := Nat.succ_pos _
        omega
    refine ⟨hfuel, ?_⟩
    obtain ⟨r, hr, sub, hg, hnone, hpos, hno⟩ := hout.resolve_left hfuel
    have hsound := hR.sound (seeded_subset env hfacts (subset_closure _ base.quads _))
    exact ⟨r, hr, sub, hg, hnone, hpos.trans hsound, hno⟩

/-- The state in which a run on the facts `delta` begins. -/
def fedWith (p : DatalogProgram Expr) (base : QuadStore) (facts delta : List Quad) :
    Materialisation :=
  ⟨delta.foldl QuadStore.addQuad (facts.foldl QuadStore.addQuad base), p.derivedFrom, []⟩

omit hf in
theorem mem_fedWith (p : DatalogProgram Expr) (base : QuadStore) (facts delta : List Quad)
    (q : Quad) : q ∈ (p.fedWith base facts delta).base ↔ q ∈ base ∨ q ∈ facts ∨ q ∈ delta := by
  rw [fedWith, QuadStore.mem_foldl_addQuad, QuadStore.mem_foldl_addQuad, or_assoc]

/-- A successful run on given facts: derivation steps, after which every instance that holds and
uses one of the facts or a new quad is done. -/
theorem materialiseSeminaiveTrackedFromFacts_ok {delta : List Quad}
    (h : p.materialiseSeminaiveTrackedFromFacts env base delta = .ok m) :
    ∃ facts, p.getFacts = .ok facts ∧
      Reaches env p (p.fedWith base facts delta).base.quads (p.fedWith base facts delta) m ∧
      Covered env p {q | q ∈ delta ∨ q ∉ (p.fedWith base facts delta).base} m.base.quads m := by
  cases hfacts : p.getFacts with
  | error e => simp [materialiseSeminaiveTrackedFromFacts, hfacts] at h
  | ok facts =>
    simp only [materialiseSeminaiveTrackedFromFacts, hfacts] at h
    change (match p.materialiseDeltaIteration env delta (p.fedWith base facts delta) with
      | .error e => (.error e : Outcome Expr Materialisation)
      | .ok m => p.materialiseLoop env (p.iterationBound (p.fedWith base facts delta).base)
          (p.fedWith base facts delta).base.table.quadCount m) = .ok m at h
    split at h
    · cases h
    · next m₁ hit =>
      obtain ⟨hR, hD⟩ := materialiseDeltaIteration_ok hf Set.Subset.rfl hit
      rw [QuadStore.quadCount_eq] at h
      have hinv : Covered env p {q | q ∈ delta ∨ q ∉ (p.fedWith base facts delta).base}
          {q | q ∈ m₁.base.quadList.take (p.fedWith base facts delta).base.quadList.length} m₁ := by
        rw [← List.prefix_iff_eq_take.mp hR.quadList_isPrefix]
        rintro id r sub henabled hg hpos ⟨w, hw, htrig⟩ hneg
        exact hD id r sub henabled hg ⟨w, hw, htrig.resolve_right fun hno => hno (hpos hw)⟩
          hpos hneg
      obtain ⟨hR', hcov⟩ := materialiseLoop_ok hf hR.quads_subset hinv h
      exact ⟨facts, rfl, hR.trans hR', hcov⟩

end DatalogProgram

end RdfDatalog.Datalog
