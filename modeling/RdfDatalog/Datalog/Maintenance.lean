import RdfDatalog.Datalog.Incremental
import RdfDatalog.Datalog.Batch

namespace RdfDatalog.Datalog

open GroundProgram BucketIndex WorklistSearch FallibleFold

variable {Expr : Type}

namespace IncrementalReasoner

/-- A recorded derivation of `q` uses `w`. -/
def Supports (programs : List (DatalogProgram Expr)) (w q : Quad) : Prop :=
  ∃ p ∈ programs, ∃ d, p.derivedFrom.Recorded q d ∧ w ∈ d.bodyWitnesses

section Search

variable {programs : List (DatalogProgram Expr)} {w q : Quad}

theorem mem_witnessPairs : (w, q) ∈ witnessPairs programs ↔ Supports programs w q := by
  unfold witnessPairs Supports
  simp only [List.mem_flatMap, List.mem_map, Prod.mk.injEq]
  constructor
  · rintro ⟨p, hp, e, he, d, hd, w', hw, rfl, rfl⟩
    exact ⟨p, hp, d, p.derivedFrom.mem_iter.mp ⟨e.2, he, hd⟩, hw⟩
  · intro ⟨p, hp, d, hd, hw⟩
    obtain ⟨ds, hds, hd⟩ := p.derivedFrom.mem_iter.mpr hd
    exact ⟨p, hp, (q, ds), hds, d, hd, w, hw, rfl, rfl⟩

theorem mem_foldl_push (entries : List (Quad × Quad)) (reverse : Flat Quad Quad) :
    q ∈ (entries.foldl (fun reverse e => reverse.push e.1 e.2) reverse).bucket w ↔
      q ∈ reverse.bucket w ∨ (w, q) ∈ entries := by
  induction entries generalizing reverse with
  | nil => simp
  | cons e entries ih =>
    rw [List.foldl_cons, ih, RuleMaps.mem_push, List.mem_cons, or_assoc, Prod.ext_iff]

theorem mem_buildReverseIndex :
    q ∈ (buildReverseIndex programs).bucket w ↔ Supports programs w q := by
  rw [buildReverseIndex, mem_foldl_push, mem_witnessPairs]
  simp [Flat.bucket]

theorem mem_followReverse {allowed : Quad → Bool} {s : State Quad}
    (h : ∀ x ∈ s.found, x ∈ s.pending) : q ∈ followReverse programs allowed s ↔ q ∈ s.found ∨
      ∃ x ∈ s.pending, Relation.TransGen
        (fun x y => Supports programs x y ∧ allowed y = true) x q := by
  have hfollowed : Followed (buildReverseIndex programs).bucket allowed s :=
    fun x hx hno => absurd (h x hx) hno
  have hsucc : ∀ x, ∀ y ∈ (buildReverseIndex programs).bucket x,
      y ∈ ((witnessPairs programs).map Prod.snd).toFinset := by
    intro x y hy
    rw [List.mem_toFinset, List.mem_map]
    exact ⟨(x, y), mem_witnessPairs.mpr (mem_buildReverseIndex.mp hy), rfl⟩
  have hwork : work ((witnessPairs programs).map Prod.snd).toFinset s <
      s.pending.length + (witnessPairs programs).length + 1 := by
    have hcard : (((witnessPairs programs).map Prod.snd).toFinset \ s.found.toFinset).card ≤
        (witnessPairs programs).length :=
      (Finset.card_le_card Finset.sdiff_subset).trans
        ((List.toFinset_card_le _).trans (le_of_eq (List.length_map _)))
    rw [work]
    omega
  have hnext : Next (buildReverseIndex programs).bucket allowed =
      fun x y => Supports programs x y ∧ allowed y = true := by
    funext x y
    rw [Next, mem_buildReverseIndex]
  rw [followReverse, mem_run hsucc hfollowed hwork q, hnext]

/-- `q` is reached from a deleted quad through recorded derivations. -/
def Suspect (programs : List (DatalogProgram Expr)) (deletes : List Quad) (q : Quad) : Prop :=
  ∃ x ∈ deletes, Relation.TransGen (Supports programs) x q

theorem mem_backwardPhase {deletes : List Quad} :
    q ∈ backwardPhase programs deletes ↔ Suspect programs deletes q := by
  rw [backwardPhase, mem_followReverse fun x hx => by cases hx]
  simp only [List.not_mem_nil, false_or, and_true]
  rfl

theorem mem_cascadePd {m : IncrementalReasoner Expr} {seeds : List Quad} :
    q ∈ cascadePd m seeds ↔ ∃ x ∈ seeds, ¬ m.base.Extensional x ∧ Relation.ReflTransGen
      (fun x y => Supports m.programs x y ∧ ¬ m.base.Extensional y) x q := by
  obtain ⟨hfound, hpending, -, hnew⟩ :=
    foldl_discover (fun q => !m.base.isExtensional q) ⟨[], []⟩ seeds
  have hadmit : ∀ y, (!m.base.isExtensional y) = true ↔ ¬ m.base.Extensional y := by
    intro y
    rw [← m.base.isExtensional_iff y, Bool.not_eq_true', Bool.eq_false_iff]
  simp only [List.not_mem_nil, false_or, hadmit] at hfound hpending hnew
  rw [cascadePd, mem_followReverse hnew]
  simp only [hfound, hadmit]
  constructor
  · rintro (⟨hq, ha⟩ | ⟨x, hx, hxq⟩)
    · exact ⟨q, hq, ha, .refl⟩
    · obtain ⟨hx, ha⟩ := hpending x hx
      exact ⟨x, hx, ha, hxq.to_reflTransGen⟩
  · rintro ⟨x, hx, ha, hxq⟩
    rcases Relation.reflTransGen_iff_eq_or_transGen.mp hxq with rfl | hxq
    · exact .inl ⟨hx, ha⟩
    · exact .inr ⟨x, hnew x ((hfound x).mpr ⟨hx, ha⟩), hxq⟩

end Search

section Retract

variable (m : IncrementalReasoner Expr) (pd : List Quad)

theorem mem_foldl_retract (q : Quad) :
    q ∈ (pd.foldl retract m).base ↔ q ∈ m.base ∧ q ∉ pd := by
  have hbase : (pd.foldl retract m).base = pd.foldl QuadStore.removeQuad m.base := by
    induction pd generalizing m with
    | nil => rfl
    | cons x pd ih => exact ih (m.retract x)
  rw [hbase]
  exact m.base.mem_foldl_removeQuad pd q

theorem foldl_retract_programs : List.Forall₂ (fun p p' => ∃ x, p' = p.withDerivedFrom x)
    m.programs (pd.foldl retract m).programs := by
  induction pd generalizing m with
  | nil => exact List.forall₂_same.mpr fun p _ => ⟨p.derivedFrom, rfl⟩
  | cons q pd ih =>
    have hstep := ih (m.retract q)
    rw [List.foldl_cons]
    rw [retract, List.forall₂_map_left_iff] at hstep
    exact hstep.imp fun p p' ⟨x, hx⟩ => ⟨x, hx⟩

theorem activeStrata_foldl_retract :
    activeStrata (pd.foldl retract m).programs = activeStrata m.programs :=
  activeStrata_of_forall₂ (m.foldl_retract_programs pd)

end Retract

section Spec

variable {env : ReasonerEnv Expr} (hf : env.FixedFilters)

theorem extensional_assertedOnly (s : QuadStore) (q : Quad) :
    (q ∈ assertedOnly s ↔ s.Extensional q) ∧
      ((assertedOnly s).Extensional q ↔ s.Extensional q) := by
  have hlist : q ∈ s.table.extensionalQuads ↔ s.Extensional q := by
    rw [QuadTable.extensionalQuads, List.mem_filter, decide_eq_true_eq]
    rfl
  have hmem : q ∈ assertedOnly s ↔ s.Extensional q := by
    rw [assertedOnly, QuadStore.mem_foldl_addQuad, hlist]
    simp
  have hder : ¬ (assertedOnly s).Derived q := by
    rw [assertedOnly, QuadStore.derived_foldl_addQuad]
    exact fun hd => QuadStore.not_mem_new q hd.mem
  exact ⟨hmem, fun h => hmem.mp h.1, fun h => ⟨hmem.mpr h, hder⟩⟩

include hf

theorem rederive_ok {m : IncrementalReasoner Expr} {pd : List Quad} {s : Sweep Expr}
    (hs : OrderedStrata (activeStrata m.programs)) (h : rederive env m pd = .ok s) :
    s.base.quads = strataModel env (activeStrata m.programs) {q | q ∈ m.base ∧ q ∉ pd} ∧
      Consistent env (activeStrata m.programs).flatten s.base.quads := by
  have hactive := m.activeStrata_foldl_retract pd
  rw [← hactive] at hs ⊢
  have hkept : (pd.foldl retract m).base.quads = {q | q ∈ m.base ∧ q ∉ pd} := by
    ext q
    exact m.mem_foldl_retract pd q
  rw [← hkept]
  exact materialiseAll_ok hf hs h

variable [DecidableEq Expr] {rules : List (Rule Expr)} {strata : List (List (Rule Expr))}
  {base : QuadStore} {m : IncrementalReasoner Expr}

variable (horder : (RulePartitioner.new rules).orderRules = .ok strata)

include horder

omit hf in
theorem new_eq_ok
    (h : new env rules base = .ok m) : (∀ r ∈ strata.flatten, isSafeRule r = .ok ()) ∧
      ∃ s, materialiseAll env (strata.map DatalogProgram.ofRules) base = .ok s ∧
        m = ⟨s.programs, s.base⟩ := by
  rw [new, horder] at h
  dsimp only at h
  cases hp : strata.mapM DatalogProgram.new with
  | error e => rw [hp] at h; cases h
  | ok programs =>
    obtain ⟨hsafe, rfl⟩ := mapM_new_eq_ok_iff.mp hp
    rw [hp] at h
    dsimp only at h
    cases hs : materialiseAll env (strata.map DatalogProgram.ofRules) base with
    | error e => rw [hs] at h; cases h
    | ok s =>
      rw [hs] at h
      cases h
      exact ⟨hsafe, s, rfl, rfl⟩

theorem new_ok
    (hs : OrderedStrata strata) (h : new env rules base = .ok m) :
    activeStrata m.programs = strata ∧ m.base.quads = strataModel env strata base.quads ∧
      Consistent env strata.flatten m.base.quads ∧
      ∀ q, (base.Extensional q → m.base.Extensional q) ∧
        (m.base.Extensional q → base.Extensional q ∨ q ∈ factHeads strata.flatten) := by
  obtain ⟨-, s, hrun, rfl⟩ := new_eq_ok horder h
  have hactive := activeStrata_ofRules strata
  have hs' : OrderedStrata (activeStrata (strata.map DatalogProgram.ofRules)) := by
    rw [hactive]
    exact hs
  have hmodel := materialiseAll_ok hf hs' hrun
  have hext := materialiseAll_extensional hf hrun
  rw [hactive] at hmodel
  simp only [hactive] at hext
  exact ⟨(activeStrata_of_forall₂ (sweep_programs hrun)).trans hactive, hmodel.1, hmodel.2, hext⟩

theorem exists_new
    (hs : OrderedStrata strata) (hsafe : ∀ r ∈ strata.flatten, isSafeRule r = .ok ())
    (hcons : Consistent env strata.flatten (strataModel env strata base.quads)) :
    ∃ m, new env rules base = .ok m := by
  have hactive := activeStrata_ofRules strata
  have hs' : OrderedStrata (activeStrata (strata.map DatalogProgram.ofRules)) := by
    rw [hactive]
    exact hs
  rw [new, horder]
  dsimp only
  rw [mapM_new_eq_ok_iff.mpr ⟨hsafe, rfl⟩]
  dsimp only
  cases hrun : materialiseAll env (strata.map DatalogProgram.ofRules) base with
  | error e =>
    have hno := (materialiseAll_error hf hs' hrun).2
    rw [hactive] at hno
    exact absurd hcons hno
  | ok s => exact ⟨_, rfl⟩

/-- A store holds what a new reasoner over `base` computes iff it is the model of `base`, when
it is consistent. -/
theorem new_quads_eq_iff
    (hs : OrderedStrata strata) (hsafe : ∀ r ∈ strata.flatten, isSafeRule r = .ok ())
    {S : Set Quad} (hcons : Consistent env strata.flatten S) :
    (∃ r, new env rules base = .ok r ∧ r.base.quads = S) ↔
      S = strataModel env strata base.quads := by
  constructor
  · intro ⟨r, hr, hS⟩
    rw [← hS]
    exact (new_ok hf horder hs hr).2.1
  · rintro rfl
    obtain ⟨r, hr⟩ := exists_new hf horder hs hsafe hcons
    exact ⟨r, hr, (new_ok hf horder hs hr).2.1⟩

omit horder

end Spec

end IncrementalReasoner

end RdfDatalog.Datalog
