import RdfDatalog.Math.LeveledRounds
import Mathlib.Data.Finite.Prod
import RdfDatalog.Datalog.AllDerivations

namespace RdfDatalog.Datalog

open GroundProgram FallibleFold LeveledRounds DatalogProgram Materialisation

variable {Expr : Type}

/-- The reasoner for which every FILTER guard holds. Runs of any reasoner are runs of this one as
far as the quads and the derivations that they can add are concerned. -/
def ReasonerEnv.unguarded (env : ReasonerEnv Expr) : ReasonerEnv Expr :=
  { env with evalExprAsFilter := fun _ _ _ => true }

theorem ReasonerEnv.unguarded_fixedFilters (env : ReasonerEnv Expr) :
    env.unguarded.FixedFilters := fun _ _ _ => rfl

theorem Rule.MatchedBy.unguarded {env : ReasonerEnv Expr} {r : Rule Expr} {rdf : QuadStore}
    {sub : Substitution} (h : r.MatchedBy env rdf sub) : r.MatchedBy env.unguarded rdf sub := by
  refine ⟨h.positive, h.unbound, ?_, h.negated⟩
  have hguards := h.guards
  rw [guardsHold, Bool.and_eq_true] at hguards ⊢
  exact ⟨hguards.1, List.all_eq_true.mpr fun _ _ => rfl⟩

section Steps

variable {env : ReasonerEnv Expr} {p : DatalogProgram Expr} {N : Set Quad} {m m' : Materialisation}
  {f : Fault Expr}

variable (hN : N ⊆ m.base.quads)

include hN

theorem applyRuleMatch_reaches {fact : Quad}
    {ruleMatch : PartialRuleMatch Expr} (hm : ruleMatch ∈ p.getRulesForFact fact) :
    Reaches env.unguarded p N m (reached (applyRuleMatch env m ruleMatch)) := by
  obtain ⟨henabled, hpattern, -⟩ := mem_getRulesForFact.mp hm
  have hne := List.ne_nil_of_mem hpattern
  cases hhead : ruleMatch.partialRule.rule.head with
  | contradiction =>
    rw [applyRuleMatch_of_contradiction hhead]
    split_ifs
    · exact .refl
    · exact .refl
  | normalHead head =>
    rw [applyRuleMatch_of_normalHead hhead]
    refine foldlM_reached (I := Reaches env.unguarded p N m) ?_ .refl
    intro s sub hsub hs
    obtain ⟨hg, hpos, hneg⟩ := (Rule.matchedBy_iff env.unguarded_fixedFilters hne).mp
      (matchedBy_of_mem_evaluate hm hsub).unguarded
    cases hfire : fireMatch ruleMatch.partialRule head s sub with
    | error e =>
      obtain ⟨f, s'⟩ := e
      obtain ⟨-, hsame, -⟩ := fireMatch_error hhead hg hfire
      rw [reached_error, hsame]
      exact hs
    | ok s' =>
      obtain ⟨q, ws, hq, hws, rfl⟩ := fireMatch_ok hhead hfire
      exact hs.tail (.fire henabled hg hne hq hws (hpos.trans hs.quads_subset)
        fun b hb hbN => hneg b hb (hN hbN))

theorem materialiseDeltaIteration_reaches (delta : List Quad) :
    Reaches env.unguarded p N m (reached (p.materialiseDeltaIteration env delta m)) := by
  refine foldlM_reached (I := Reaches env.unguarded p N m) ?_ .refl
  intro s q _ hs
  refine foldlM_reached (I := Reaches env.unguarded p N m) ?_ hs
  intro s ruleMatch hm hs
  exact hs.trans (applyRuleMatch_reaches (hN.trans hs.quads_subset) hm)

theorem materialiseLoop_reaches (fuel start : Nat) :
    Reaches env.unguarded p N m (reached (p.materialiseLoop env fuel start m)) :=
  materialiseLoop_reached (I := Reaches env.unguarded p N m)
    (fun delta _ h => h.trans (materialiseDeltaIteration_reaches (hN.trans h.quads_subset) delta))
    fuel start .refl

omit hN

theorem fireMatch_fault {pr : PartialRule Expr} {head : QuadPattern} {sub : Substitution}
    (h : fireMatch pr head m sub = .error (f, m')) : f ≠ .outOfFuel := by
  rw [fireMatch] at h
  split at h
  · cases h
  · cases h
    simp

theorem applyRuleMatch_fault {ruleMatch : PartialRuleMatch Expr}
    (h : applyRuleMatch env m ruleMatch = .error (f, m')) : f ≠ .outOfFuel := by
  cases hhead : ruleMatch.partialRule.rule.head with
  | contradiction =>
    rw [applyRuleMatch_of_contradiction hhead] at h
    split_ifs at h
    cases h
    exact nofun
  | normalHead head =>
    rw [applyRuleMatch_of_normalHead hhead] at h
    obtain ⟨s, -, sub, -, hfail⟩ := foldlM_error (R := fun _ _ => True) (fun _ => trivial)
      (fun _ _ => trivial) (fun _ _ _ _ _ _ => trivial) h
    exact fireMatch_fault hfail

theorem materialiseDeltaIteration_fault {delta : List Quad}
    (h : p.materialiseDeltaIteration env delta m = .error (f, m')) : f ≠ .outOfFuel := by
  obtain ⟨s, -, fact, -, hfact⟩ := foldlM_error (R := fun _ _ => True) (fun _ => trivial)
    (fun _ _ => trivial) (fun _ _ _ _ _ _ => trivial) h
  obtain ⟨s', -, ruleMatch, -, hfail⟩ := foldlM_error (R := fun _ _ => True) (fun _ => trivial)
    (fun _ _ => trivial) (fun _ _ _ _ _ _ => trivial) hfact
  exact applyRuleMatch_fault hfail

include hN in
/-- The loop of a stratum ends, whatever its guards read: each iteration but the last adds a quad,
and there are at most `B`. -/
theorem materialiseLoop_fault {fuel start B : Nat}
    (hB : ∀ m₁, Reaches env.unguarded p N m m₁ → m₁.base.quadList.length ≤ B)
    (hfuel : B < start + fuel) (hstart : start ≤ m.base.quadList.length)
    (h : p.materialiseLoop env fuel start m = .error (f, m')) : f ≠ .outOfFuel := by
  have hstep {delta : List Quad} {a b : Materialisation} (ha : N ⊆ a.base.quads)
      (hit : p.materialiseDeltaIteration env delta a = .ok b) :
      Reaches env.unguarded p N a b ∧ N ⊆ b.base.quads := by
    have hR : Reaches env.unguarded p N a (reached (p.materialiseDeltaIteration env delta a)) :=
      materialiseDeltaIteration_reaches ha _
    rw [hit, reached_ok] at hR
    exact ⟨hR, ha.trans hR.quads_subset⟩
  exact materialiseLoop_ends (fun _ => .refl) (fun h h₁ => h.trans h₁)
    (fun hR => hR.quadList_isPrefix.length_le) hstep
    (fun _ hit => materialiseDeltaIteration_fault hit) hN hB hfuel hstart h

end Steps

section Passes

variable {env : ReasonerEnv Expr} {p : DatalogProgram Expr} {ps : List (DatalogProgram Expr)}
  {base : QuadStore} {m : Materialisation} {s : Sweep Expr} {f : Fault Expr}

theorem materialiseSeminaiveTracked_runsOver (h : p.materialiseSeminaiveTracked env base = .ok m) :
    RunsOver env.unguarded [] p base m := by
  cases hfacts : p.getFacts with
  | error e => simp [DatalogProgram.materialiseSeminaiveTracked,
      DatalogProgram.materialiseSeminaiveTrackedFrom, hfacts] at h
  | ok facts =>
    rw [materialiseSeminaiveTracked_of_facts hfacts] at h
    have hR : Reaches env.unguarded p (p.seeded base facts).base.quads (p.seeded base facts)
        (reached (p.materialiseLoop env (p.iterationBound (p.seeded base facts).base) 0
          (p.seeded base facts))) := materialiseLoop_reaches Set.Subset.rfl _ 0
    rw [h, reached_ok] at hR
    refine ⟨facts, _, hfacts, fun q => ?_, rfl, rfl, hR⟩
    rw [p.mem_seeded]
    simp

theorem materialiseSeminaiveTracked_fault
    (h : p.materialiseSeminaiveTracked env base = .error (f, m)) : f ≠ .outOfFuel := by
  cases hfacts : p.getFacts with
  | error e =>
    simp only [DatalogProgram.materialiseSeminaiveTracked,
      DatalogProgram.materialiseSeminaiveTrackedFrom, hfacts, Except.error.injEq,
      Prod.mk.injEq] at h
    rw [← h.1]
    exact (getFacts_error hfacts).2
  | ok facts =>
    rw [materialiseSeminaiveTracked_of_facts hfacts] at h
    have hpos : 0 < p.iterationBound (p.seeded base facts).base := Nat.succ_pos _
    refine materialiseLoop_fault (N := ∅) (B := p.iterationBound (p.seeded base facts).base - 1)
      (Set.empty_subset _) ?_ (by omega) (Nat.zero_le _) h
    intro m₁ hR₁
    have hlt := length_le_iterationBound hR₁
    omega

theorem swept_unguarded (h : materialiseAll env ps base = .ok s) :
    Swept env.unguarded [] ps base s :=
  swept_of_sweep
    (fun _ _ _ _ hm => ⟨[], List.nil_subset _, materialiseSeminaiveTracked_runsOver hm⟩) h

theorem materialiseAll_fault (h : materialiseAll env ps base = .error (f, s)) :
    f ≠ .outOfFuel := by
  rw [materialiseAll] at h
  generalize hdelta : ([] : List Quad) = delta at h
  clear hdelta
  induction ps generalizing delta base s with
  | nil => cases h
  | cons p ps ih =>
    rcases sweep_cons_error h with ⟨m, hm, -⟩ | ⟨m, s', -, hs', -⟩
    · exact materialiseSeminaiveTracked_fault hm
    · exact ih _ hs'

end Passes

section Levels

/-- Some rule of `rules` has a head that denotes `q`. -/
def CanYield (rules : List (Rule Expr)) (q : Quad) : Prop :=
  ∃ r ∈ rules, ∃ h, r.head = .normalHead h ∧ Matches emptySubstitution h q

open Classical in
/-- How far up the strata there is a rule that can yield `q`. -/
noncomputable def quadLevel (strata : List (List (Rule Expr))) (q : Quad) : ℕ :=
  (Finset.range strata.length).sup fun i => if CanYield ((strata[i]?).getD []) q then i + 1 else 0

variable {strata : List (List (Rule Expr))}

variable {q : Quad} {r : Rule Expr} {sub : Substitution} {B : List (Rule Expr)}

theorem quadLevel_le_iff {n : ℕ} : quadLevel strata q ≤ n ↔
    ∀ (i : ℕ) (A : List (Rule Expr)), strata[i]? = some A → CanYield A q → i + 1 ≤ n := by
  rw [quadLevel, Finset.sup_le_iff]
  constructor
  · intro h i A hA hq
    have hlt : i < strata.length := (List.getElem?_eq_some_iff.mp hA).1
    have hle := h i (Finset.mem_range.mpr hlt)
    rw [hA, Option.getD_some, if_pos hq] at hle
    exact hle
  · intro h i hi
    have hlt := Finset.mem_range.mp hi
    have hget : strata[i]? = some strata[i] := List.getElem?_eq_getElem hlt
    split_ifs with hq
    · rw [hget, Option.getD_some] at hq
      exact h i _ hget hq
    · exact Nat.zero_le n

theorem le_quadLevel {i : ℕ} {A : List (Rule Expr)} (hA : strata[i]? = some A) (hr : r ∈ A)
    (hh : r.headQuad sub = some q) :
    i + 1 ≤ quadLevel strata q := by
  obtain ⟨h, hhead, hm⟩ := Rule.headQuad_matches hh
  exact quadLevel_le_iff.mp le_rfl i A hA ⟨r, hr, h, hhead, hm⟩

theorem ValidOrder.quadLevel_le (h : ValidOrder strata) {j : ℕ} (hB : strata[j]? = some B)
    (hr : r ∈ B) {w : Quad} (hh : r.headQuad sub = some q) (hw : w ∈ r.witnesses sub) :
    quadLevel strata w ≤ quadLevel strata q := by
  refine le_trans (quadLevel_le_iff.mpr ?_) (le_quadLevel hB hr hh)
  intro i A hA ⟨producer, hp, head, hhead, hm⟩
  obtain ⟨pattern, hpattern, hm'⟩ := Rule.witnesses_matches hw
  have hle := (h i j A B hA hB producer hp r hr).1 ⟨head, hhead, pattern, hpattern, w, hm, hm'⟩
  omega

theorem ValidOrder.quadLevel_lt (h : ValidOrder strata) {j : ℕ} (hB : strata[j]? = some B)
    (hr : r ∈ B) {b : Quad} (hh : r.headQuad sub = some q) {pattern : QuadPattern}
    (hpattern : pattern ∈ r.notPatterns) (hb : Matches emptySubstitution pattern b) :
    quadLevel strata b < quadLevel strata q := by
  refine lt_of_le_of_lt (quadLevel_le_iff.mpr ?_) (Nat.lt_of_succ_le (le_quadLevel hB hr hh))
  intro i A hA ⟨producer, hp, head, hhead, hm⟩
  have hlt := (h i j A B hA hB producer hp r hr).2 ⟨head, hhead, pattern, hpattern, b, hm, hb⟩
  omega

end Levels

section Tracked

/-- An enabled rule of the program yields `q` from the witnesses of `d`, guards left aside. -/
def DatalogProgram.Genuine (p : DatalogProgram Expr) (q : Quad) (d : Derivation) : Prop :=
  ∃ r sub, p.Enabled d.ruleId r ∧ r.headQuad sub = some q ∧
    r.bodyWitnesses sub = some d.bodyWitnesses

variable {env : ReasonerEnv Expr} {p : DatalogProgram Expr} {N : Set Quad} {m m' : Materialisation}

theorem Reaches.tracked (h : Reaches env p N m m') : ∃ log, m'.track = m.track ++ log ∧
    (∀ q d, m'.derivedFrom.Recorded q d ↔ m.derivedFrom.Recorded q d ∨ (q, d) ∈ log) ∧
    ∀ e ∈ log, ¬ m.derivedFrom.Recorded e.1 e.2 := by
  induction h with
  | refl => exact ⟨[], (List.append_nil _).symm, by simp, by simp⟩
  | @tail m₁ m₂ _ hstep ih =>
    obtain ⟨log, htrack, hrecorded, hfresh⟩ := ih
    cases hstep with
    | @fire id r sub h ws henabled hg hne hhead hws hpos hneg =>
      by_cases hold : m₁.derivedFrom.Recorded h ⟨id, ws⟩
      · refine ⟨log, ?_, ?_, hfresh⟩
        · rw [track_derive, if_pos hold, List.append_nil, htrack]
        · intro q d
          rw [recorded_derive, ← hrecorded]
          refine or_iff_left_of_imp ?_
          rintro ⟨rfl, rfl⟩
          exact hold
      · refine ⟨log ++ [(h, ⟨id, ws⟩)], ?_, ?_, ?_⟩
        · rw [track_derive, if_neg hold, htrack, List.append_assoc]
        · intro q d
          rw [recorded_derive, hrecorded, List.mem_append, List.mem_singleton,
            Prod.mk.injEq, or_assoc]
        · intro e he
          rcases List.mem_append.mp he with he | he
          · exact hfresh e he
          · rw [List.mem_singleton.mp he]
            exact fun hrec => hold ((hrecorded _ _).mpr (.inl hrec))

variable {base : QuadStore} {given : List Quad}

/-- What the run of a stratum logs is what it puts on record: new, genuine derivations of stored
quads from stored quads. -/
theorem RunsOver.tracked (h : RunsOver env given p base m) :
    (∀ q d, m.derivedFrom.Recorded q d ↔ p.derivedFrom.Recorded q d ∨ (q, d) ∈ m.track) ∧
      ∀ e ∈ m.track, ¬ p.derivedFrom.Recorded e.1 e.2 ∧ p.Genuine e.1 e.2 ∧ e.1 ∈ m.base ∧
        ∀ w ∈ e.2.bodyWitnesses, w ∈ m.base := by
  have hstored := h.track_mem
  obtain ⟨facts, start, -, -, hderived, htrack, hR⟩ := h
  obtain ⟨log, hlog, hrecorded, hfresh⟩ := hR.tracked
  rw [htrack, List.nil_append] at hlog
  rw [hderived] at hrecorded hfresh
  rw [← hlog] at hrecorded hfresh
  refine ⟨hrecorded, fun e he => ⟨hfresh e he, ?_⟩⟩
  have hnot := hfresh e he
  rw [← hderived] at hnot
  obtain ⟨r, sub, henabled, -, -, hhead, hws, hpos⟩ :=
    (hR.recorded_fires ((hrecorded e.1 e.2).mpr (.inr he))).resolve_left hnot
  refine ⟨⟨r, sub, henabled, hhead, hws⟩, hstored e.1 (List.mem_map_of_mem he), ?_⟩
  intro w hw
  exact hpos ((Rule.mem_bodyWitnesses hws w).mp hw)

end Tracked

/-- A derivation on record: the place of the program, the quad, and how it was derived. -/
abbrev Entry : Type := ℕ × Quad × Derivation

section Entries

variable {env : ReasonerEnv Expr} {ps ps' : List (DatalogProgram Expr)} {base : QuadStore}
  {s : Sweep Expr} {delta : List Quad}

def onRecord (ps : List (DatalogProgram Expr)) : Set Entry :=
  {x | ∃ p, ps[x.1]? = some p ∧ p.derivedFrom.Recorded x.2.1 x.2.2}

def genuine (ps : List (DatalogProgram Expr)) : Set Entry :=
  {x | ∃ p, ps[x.1]? = some p ∧ p.Genuine x.2.1 x.2.2}

/-- What a pass logs, with the places of the programs. -/
def Sweep.added (s : Sweep Expr) : Set Entry := {x | x.2 ∈ s.logAt x.1}

theorem onRecord_finite (ps : List (DatalogProgram Expr)) : (onRecord ps).Finite := by
  let entries : List Entry := ps.zipIdx.flatMap fun e => e.1.derivedFrom.iter.flatMap fun x =>
    x.2.map fun d => (e.2, x.1, d)
  refine entries.finite_toSet.subset ?_
  intro ⟨i, q, d⟩ ⟨p, hp, hrec⟩
  obtain ⟨ds, hds, hd⟩ := p.derivedFrom.mem_iter.mpr hrec
  refine List.mem_flatMap.mpr ⟨(p, i), List.mem_zipIdx_iff_getElem?.mpr hp, ?_⟩
  exact List.mem_flatMap.mpr ⟨(q, ds), hds, List.mem_map_of_mem hd⟩

theorem genuine_of_sameRules (h : IncrementalReasoner.SameRules ps ps') :
    genuine ps' = genuine ps := by
  have hgenuine (i : ℕ) (q : Quad) (d : Derivation) :
      (∃ p, ps'[i]? = some p ∧ p.Genuine q d) ↔ ∃ p, ps[i]? = some p ∧ p.Genuine q d := by
    induction h generalizing i with
    | nil => rfl
    | cons hp _ ih =>
      obtain ⟨x, rfl⟩ := hp
      cases i with
      | zero => simp only [List.getElem?_cons_zero, Option.some.injEq, exists_eq_left']; rfl
      | succ i => exact ih i
  ext ⟨i, q, d⟩
  exact hgenuine i q d

theorem Swept.added_spec (h : Swept env delta ps base s) {x : Entry} (hx : x ∈ s.added) :
    x ∉ onRecord ps ∧ x ∈ genuine ps ∧ x.2.1 ∈ s.base ∧ ∀ w ∈ x.2.2.bodyWitnesses, w ∈ s.base := by
  obtain ⟨i, q, d⟩ := x
  induction h generalizing i with
  | nil => cases hx
  | @cons delta given p ps base m s hgiven hrun hrest ih =>
    cases i with
    | zero =>
      obtain ⟨hfresh, hgenuine, hq, hws⟩ := hrun.tracked.2 (q, d) hx
      refine ⟨?_, ⟨p, rfl, hgenuine⟩, hrest.grows q hq, fun w hw => hrest.grows w (hws w hw)⟩
      rintro ⟨p', hp', hrec⟩
      cases hp'
      exact hfresh hrec
    | succ i => exact ih i hx

theorem Swept.onRecord_eq (h : Swept env delta ps base s) :
    onRecord s.programs = onRecord ps ∪ s.added := by
  ext ⟨i, q, d⟩
  induction h generalizing i with
  | nil => simp [onRecord, Sweep.added, Sweep.logAt]
  | @cons delta given p ps base m s hgiven hrun hrest ih =>
    cases i with
    | zero =>
      have hrecorded := hrun.tracked.1 q d
      constructor
      · rintro ⟨p', hp', hrec⟩
        cases hp'
        exact (hrecorded.mp hrec).imp (fun hrec => ⟨p, rfl, hrec⟩) fun hlog => hlog
      · rintro (⟨p', hp', hrec⟩ | hlog)
        · cases hp'
          exact ⟨_, rfl, hrecorded.mpr (.inl hrec)⟩
        · exact ⟨_, rfl, hrecorded.mpr (.inr hlog)⟩
    | succ i => exact ih i

theorem mem_tracked {q : Quad} (hq : q ∈ s.tracked.flatten.map Prod.fst) :
    ∃ x ∈ s.added, x.2.1 = q := by
  obtain ⟨e, he, rfl⟩ := List.mem_map.mp hq
  obtain ⟨log, hlog, he⟩ := List.mem_flatten.mp he
  obtain ⟨i, hi⟩ := List.mem_iff_getElem?.mp hlog
  refine ⟨(i, e), ?_, rfl⟩
  rw [Sweep.added, Set.mem_ofPred_eq, Sweep.logAt, hi]
  exact he

end Entries

section Universe

open DatalogProgram

def QuadsOver (ids : List GraphElementId) : Set Quad := {q | ∀ x ∈ quadIds q, x ∈ ids}

theorem quadsOver_finite (ids : List GraphElementId) : (QuadsOver ids).Finite := by
  have hids := ids.finite_toSet
  have hall := hids.prod (hids.prod (hids.prod hids))
  refine (hall.image fun t => (⟨t.1, t.2.1, t.2.2.1, t.2.2.2⟩ : Quad)).subset ?_
  intro q hq
  refine ⟨(q.tripleId, q.subject, q.predicate, q.obj), ?_, rfl⟩
  exact ⟨hq _ (by simp [quadIds]), hq _ (by simp [quadIds]), hq _ (by simp [quadIds]),
    hq _ (by simp [quadIds])⟩

theorem finite_lists {α : Type} {A : Set α} (hA : A.Finite) (n : ℕ) :
    {l : List α | l.length = n ∧ ∀ x ∈ l, x ∈ A}.Finite := by
  induction n with
  | zero =>
    refine (Set.finite_singleton []).subset ?_
    intro l ⟨hlen, _⟩
    exact List.length_eq_zero_iff.mp hlen
  | succ n ih =>
    refine (hA.image2 List.cons ih).subset ?_
    intro l ⟨hlen, hmem⟩
    obtain ⟨x, l, rfl⟩ := List.exists_cons_of_length_eq_add_one hlen
    refine ⟨x, hmem x List.mem_cons_self, l, ⟨Nat.succ.inj hlen, ?_⟩, rfl⟩
    exact fun y hy => hmem y (List.mem_cons_of_mem x hy)

/-- The derivations that the rules can yield over the ids. -/
def derivable (ps : List (DatalogProgram Expr)) (ids : List GraphElementId) : Set Entry :=
  {x | x ∈ genuine ps ∧ x.2.1 ∈ QuadsOver ids ∧ ∀ w ∈ x.2.2.bodyWitnesses, w ∈ QuadsOver ids}

theorem derivable_finite (ps : List (DatalogProgram Expr)) (ids : List GraphElementId) :
    (derivable ps ids).Finite := by
  let places : List (ℕ × ℕ × ℕ) := ps.zipIdx.flatMap fun e => e.1.rules.zipIdx.map fun r =>
    (e.2, r.2, r.1.positivePatterns.length)
  have hquads := quadsOver_finite ids
  have hplace (t : ℕ × ℕ × ℕ) := (hquads.prod (finite_lists hquads t.2.2)).image
    fun x => ((t.1, x.1, ⟨t.2.1, x.2⟩) : Entry)
  refine (places.finite_toSet.biUnion fun t _ => hplace t).subset ?_
  intro ⟨i, q, id, ws⟩ ⟨⟨p, hp, r, sub, henabled, _, hws⟩, hq, hall⟩
  have hmem : (i, id, r.positivePatterns.length) ∈ places := by
    refine List.mem_flatMap.mpr ⟨(p, i), List.mem_zipIdx_iff_getElem?.mpr hp, ?_⟩
    exact List.mem_map.mpr ⟨(r, id), List.mem_zipIdx_iff_getElem?.mpr henabled.1, rfl⟩
  have hlen : ws.length = r.positivePatterns.length := (mapM_eq_some_iff.mp hws).length_eq.symm
  exact Set.mem_biUnion hmem ⟨(q, ws), ⟨hq, hlen, hall⟩, rfl⟩

variable {env : ReasonerEnv Expr} {p : DatalogProgram Expr} {ps : List (DatalogProgram Expr)}
  {base : QuadStore} {given delta : List Quad} {m : Materialisation} {s : Sweep Expr}
  {ids : List GraphElementId}

theorem RunsOver.inQuads (h : RunsOver env given p base m)
    (hrules : ∀ r ∈ p.rules, ∀ x ∈ headIds r, x ∈ ids) (hbase : ∀ q ∈ base, q ∈ QuadsOver ids)
    (hgiven : ∀ q ∈ given, q ∈ QuadsOver ids) : ∀ q ∈ m.base, q ∈ QuadsOver ids := by
  obtain ⟨facts, start, hfacts, hstart, -, -, hR⟩ := h
  refine hR.ids hrules ?_
  intro q hq x hx
  rcases (hstart q).mp hq with hq | hq | hq
  · exact hbase q hq x hx
  · obtain ⟨r, hr, hb, hh⟩ := ((getFacts_ok hfacts).1 q).mp hq
    obtain ⟨id, hid⟩ := mem_activeRules.mp hr
    have hmem : r ∈ p.rules := List.mem_of_getElem? hid.1
    rcases headQuad_ids (r.grounds_fact env hb) hh hx with hx | ⟨w, hw, -⟩
    · exact hrules r hmem x hx
    · exact ((r.activeIn_fact hb emptySubstitution ∅).1 hw).elim
  · exact hgiven q hq x hx

theorem Swept.inQuads (h : Swept env delta ps base s)
    (hrules : ∀ p ∈ ps, ∀ r ∈ p.rules, ∀ x ∈ headIds r, x ∈ ids)
    (hbase : ∀ q ∈ base, q ∈ QuadsOver ids) (hdelta : ∀ q ∈ delta, q ∈ QuadsOver ids) :
    ∀ q ∈ s.base, q ∈ QuadsOver ids := by
  induction h with
  | nil => exact hbase
  | @cons delta given p ps base m s hgiven hrun hrest ih =>
    have hover := hrun.inQuads (hrules p List.mem_cons_self) hbase fun q hq => hdelta q (hgiven hq)
    refine ih (fun p' hp' => hrules p' (List.mem_cons_of_mem p hp')) hover ?_
    intro q hq
    rcases List.mem_append.mp hq with hq | hq
    · exact hdelta q hq
    · exact hover q (hrun.track_mem q hq)

end Universe

namespace IncrementalReasoner

section Rounds

variable {env : ReasonerEnv Expr} {m : IncrementalReasoner Expr} {pd facts : List Quad}
  {s : Sweep Expr}

theorem onRecord_foldl_retract (m : IncrementalReasoner Expr) (pd : List Quad) :
    onRecord (pd.foldl retract m).programs = {x ∈ onRecord m.programs | x.2.1 ∉ pd} := by
  induction pd generalizing m with
  | nil => simp
  | cons q pd ih =>
    rw [List.foldl_cons, ih]
    ext ⟨i, q', d⟩
    simp only [Set.mem_ofPred_eq, onRecord, retract, List.getElem?_map, Option.map_eq_some_iff,
      List.mem_cons, not_or]
    constructor
    · rintro ⟨⟨_, ⟨p, hp, rfl⟩, hrec⟩, hno⟩
      obtain ⟨hrec, hne⟩ := (p.derivedFrom.recorded_remove ..).mp hrec
      exact ⟨⟨p, hp, hrec⟩, hne, hno⟩
    · rintro ⟨⟨p, hp, hrec⟩, hne, hno⟩
      exact ⟨⟨_, ⟨p, hp, rfl⟩, (p.derivedFrom.recorded_remove ..).mpr ⟨hrec, hne⟩⟩, hno⟩

theorem exists_blocker {programs : List (DatalogProgram Expr)} {q : Quad}
    (hq : q ∈ negationInvalidatedSeeds programs facts) :
    ∃ b ∈ facts, ∃ p ∈ programs, ∃ r d pattern, p.Enabled d.ruleId r ∧ pattern ∈ r.notPatterns ∧
      Matches emptySubstitution pattern b ∧ p.derivedFrom.Recorded q d := by
  rw [negationInvalidatedSeeds, List.mem_dedup] at hq
  obtain ⟨b, hb, hq⟩ := List.mem_flatMap.mp hq
  obtain ⟨p, hp, hq⟩ := List.mem_flatMap.mp hq
  obtain ⟨⟨id, pattern⟩, hrule, hq⟩ := List.mem_flatMap.mp hq
  obtain ⟨-, hfalsifies⟩ := List.mem_filter.mp hq
  rw [falsifies] at hfalsifies
  cases hget : p.rules[id]? with
  | none => simp [hget] at hfalsifies
  | some rule =>
    simp only [hget, List.any_eq_true, Bool.and_eq_true, decide_eq_true_eq] at hfalsifies
    obtain ⟨d, hd, rfl, hmatch⟩ := hfalsifies
    cases hsub : reconstructSubstitution rule d with
    | none => simp [hsub] at hmatch
    | some sub =>
      simp only [hsub] at hmatch
      obtain ⟨sub', hsub'⟩ := Option.isSome_iff_exists.mp hmatch
      have hempty : Matches emptySubstitution pattern b :=
        ⟨sub', .empty sub', (getSubstitutions_spec hsub').1⟩
      obtain ⟨r, henabled, hpattern⟩ :=
        (mem_negativelyTriggeredRules hempty).mp hrule
      exact ⟨b, hb, p, hp, r, d, pattern, henabled, hpattern, hempty, hd⟩

/-- When all that is retracted has genuine derivations only, it stands above one of the facts: the
seed does, and no derivation leads further down. -/
theorem exists_below_of_mem_cascadePd (hvalid : ValidOrder (activeStrata m.programs))
    (hgenuine : ∀ x ∈ onRecord m.programs,
      x.2.1 ∈ cascadePd m (negationInvalidatedSeeds m.programs facts) → x ∈ genuine m.programs)
    {q : Quad} (hq : q ∈ cascadePd m (negationInvalidatedSeeds m.programs facts)) :
    ∃ b ∈ facts, quadLevel (activeStrata m.programs) b < quadLevel (activeStrata m.programs) q := by
  obtain ⟨seed, hseed, hext, hchain⟩ := mem_cascadePd.mp hq
  clear hq
  have hmem (y : Quad) (hy : Relation.ReflTransGen
      (fun x y => Supports m.programs x y ∧ ¬ m.base.Extensional y) seed y) :
      y ∈ cascadePd m (negationInvalidatedSeeds m.programs facts) :=
    mem_cascadePd.mpr ⟨seed, hseed, hext, hy⟩
  have hstratum {i : ℕ} {p : DatalogProgram Expr} (hi : m.programs[i]? = some p) :
      (activeStrata m.programs)[i]? = some p.activeRules := by
    rw [activeStrata, List.getElem?_map, hi, Option.map_some]
  obtain ⟨b, hb, p, hp, r, d, pattern, henabled, hpattern, hmatch, hrec⟩ := exists_blocker hseed
  refine ⟨b, hb, ?_⟩
  induction hchain with
  | refl =>
    obtain ⟨i, hi⟩ := List.mem_iff_getElem?.mp hp
    obtain ⟨p', hp', r', sub, henabled', hhead, -⟩ :=
      hgenuine (i, seed, d) ⟨p, hi, hrec⟩ (hmem seed .refl)
    obtain rfl : p = p' := Option.some.inj (hi.symm.trans hp')
    obtain rfl : r = r' := Option.some.inj (henabled.1.symm.trans henabled'.1)
    exact hvalid.quadLevel_lt (hstratum hi) (mem_activeRules.mpr ⟨_, henabled⟩) hhead
      hpattern hmatch
  | @tail x y hx hstep ih =>
    obtain ⟨p, hp, d, hrec, hw⟩ := hstep.1
    obtain ⟨i, hi⟩ := List.mem_iff_getElem?.mp hp
    obtain ⟨p', hp', r, sub, henabled, hhead, hws⟩ :=
      hgenuine (i, y, d) ⟨p, hi, hrec⟩ (hmem y (hx.tail hstep))
    obtain rfl : p = p' := Option.some.inj (hi.symm.trans hp')
    refine ih.trans_le (hvalid.quadLevel_le (hstratum hi)
      (mem_activeRules.mpr ⟨_, henabled⟩) hhead ?_)
    exact (Rule.mem_bodyWitnesses hws x).mp hw

end Rounds

section Loop

variable {env : ReasonerEnv Expr} {ps : List (DatalogProgram Expr)} {ids : List GraphElementId}
  {scope : Finset Entry} {st : State scope} {m : IncrementalReasoner Expr} {pd facts : List Quad}
  {s : Sweep Expr}

/-- `st` is the record of the reasoner, and each of the facts has a fresh derivation in it. -/
structure Watched (ps : List (DatalogProgram Expr)) (ids : List GraphElementId)
    (st : State scope) (m : IncrementalReasoner Expr) (facts : List Quad) : Prop where
  present : st.present = onRecord m.programs
  inScope : ∀ x ∈ st.present, x ∈ scope
  sameRules : SameRules ps m.programs
  inQuads : ∀ q ∈ m.base, q ∈ QuadsOver ids
  facts : ∀ q ∈ facts, ∃ x ∈ st.fresh, x.2.1 = q

theorem rederive_watched (hscope : ∀ x ∈ derivable ps ids, x ∈ scope)
    (hrules : ∀ p ∈ ps, ∀ r ∈ p.rules, ∀ x ∈ DatalogProgram.headIds r, x ∈ ids)
    (hsame : SameRules ps m.programs) (hrecord : ∀ x ∈ onRecord m.programs, x ∈ scope)
    (hover : ∀ q ∈ m.base, q ∈ QuadsOver ids) (h : rederive env m pd = .ok s) :
    ∃ st : State scope, Watched ps ids st ⟨s.programs, s.base⟩ (s.tracked.flatten.map Prod.fst) ∧
      st.kept = {x ∈ onRecord m.programs | x.2.1 ∉ pd} ∧ st.fresh ⊆ genuine ps := by
  have hswept := swept_unguarded h
  have hretracted : SameRules ps (pd.foldl retract m).programs :=
    SameRules.trans hsame (m.foldl_retract_programs pd)
  have hover' : ∀ q ∈ s.base, q ∈ QuadsOver ids := by
    refine hswept.inQuads ?_ ?_ nofun
    · intro p hp r hr
      obtain ⟨p', hp', x, rfl⟩ := forall₂_exists_left hretracted hp
      exact hrules p' hp' r hr
    · intro q hq
      exact hover q ((m.mem_foldl_retract pd q).mp hq).1
  have hadded : ∀ x ∈ s.added, x ∉ onRecord (pd.foldl retract m).programs ∧ x ∈ genuine ps ∧
      x ∈ scope := by
    intro x hx
    obtain ⟨hnew, hgenuine, hq, hws⟩ := hswept.added_spec hx
    rw [genuine_of_sameRules hretracted] at hgenuine
    exact ⟨hnew, hgenuine,
      hscope x ⟨hgenuine, hover' _ hq, fun w hw => hover' w (hws w hw)⟩⟩
  have hkept : onRecord s.programs \ s.added = {x ∈ onRecord m.programs | x.2.1 ∉ pd} := by
    rw [hswept.onRecord_eq, ← onRecord_foldl_retract]
    ext x
    constructor
    · intro ⟨hx, hno⟩
      exact hx.resolve_right hno
    · exact fun hx => ⟨.inl hx, fun hx' => (hadded x hx').1 hx⟩
  have hfresh : s.added ⊆ onRecord s.programs := by
    rw [hswept.onRecord_eq]
    exact Set.subset_union_right
  refine ⟨⟨onRecord s.programs, s.added, hfresh, fun x hx => (hadded x hx).2.2⟩,
    ⟨rfl, ?_, ?_, hover', fun q hq => mem_tracked hq⟩, hkept, fun x hx => (hadded x hx).2.1⟩
  · intro x hx
    by_cases hnew : x ∈ s.added
    · exact (hadded x hnew).2.2
    · have hold : x ∈ onRecord s.programs \ s.added := ⟨hx, hnew⟩
      rw [hkept] at hold
      exact hrecord x hold.1
  · exact SameRules.trans hretracted (sweep_programs h)

/-- A pass of the loop is a round: what it retracts has a derivation that is not genuine, or stands
above a fact with a fresh derivation. -/
theorem Watched.round (h : Watched ps ids st m facts) (hvalid : ValidOrder (activeStrata ps))
    (hscope : ∀ x ∈ derivable ps ids, x ∈ scope)
    (hrules : ∀ p ∈ ps, ∀ r ∈ p.rules, ∀ x ∈ DatalogProgram.headIds r, x ∈ ids)
    (hre : rederive env m
      (env.quadOrder (cascadePd m (negationInvalidatedSeeds m.programs facts))) = .ok s) :
    ∃ st' : State scope,
      Watched ps ids st' ⟨s.programs, s.base⟩ (s.tracked.flatten.map Prod.fst) ∧
      Round (fun x => quadLevel (activeStrata ps) x.2.1) (genuine ps)ᶜ st st' := by
  obtain ⟨st', hwatched, hkept, hgenuine⟩ :=
    rederive_watched hscope hrules h.sameRules (h.present ▸ h.inScope) h.inQuads hre
  have hstrata := activeStrata_of_forall₂ h.sameRules
  have hpd (q : Quad) : q ∈ env.quadOrder
      (cascadePd m (negationInvalidatedSeeds m.programs facts)) ↔
      q ∈ cascadePd m (negationInvalidatedSeeds m.programs facts) :=
    (env.quadOrder_perm _).mem_iff
  have hwithdrawn (x : Entry) (hx : x ∈ st.present) : x ∉ st'.kept ↔
      x.2.1 ∈ cascadePd m (negationInvalidatedSeeds m.programs facts) := by
    rw [hkept, ← hpd, ← h.present]
    simp [hx]
  refine ⟨st', hwatched, ?_, fun x hx hstale => hstale (hgenuine hx), ?_⟩
  · rw [hkept, h.present]
    exact Set.sep_subset _ _
  · intro x hx hno
    by_cases hstale : ∃ y ∈ st.present, y ∉ genuine ps ∧ y ∉ st'.kept
    · obtain ⟨y, hy, hstale, hynot⟩ := hstale
      exact .inl ⟨y, hy, h.inScope y hy, hstale, hynot⟩
    · right
      push Not at hstale
      have hall : ∀ y ∈ onRecord m.programs,
          y.2.1 ∈ cascadePd m (negationInvalidatedSeeds m.programs facts) →
            y ∈ genuine m.programs := by
        intro y hy hmem
        rw [genuine_of_sameRules h.sameRules]
        by_contra hno'
        rw [← h.present] at hy
        exact (hwithdrawn y hy).mpr hmem (hstale y hy hno')
      have hvalid' : ValidOrder (activeStrata m.programs) := hstrata ▸ hvalid
      obtain ⟨b, hb, hlt⟩ :=
        exists_below_of_mem_cascadePd hvalid' hall ((hwithdrawn x hx).mp hno)
      obtain ⟨y, hy, rfl⟩ := h.facts b hb
      rw [hstrata] at hlt
      exact ⟨y, hy, hlt⟩

/-- The loop returns after some number of rounds: every larger bound on them gives the same result,
which is not that the bound is reached. -/
def Ends (env : ReasonerEnv Expr) (m : IncrementalReasoner Expr) (facts : List Quad) : Prop :=
  ∃ rounds result, (∀ s, result ≠ .error (.outOfFuel, s)) ∧
    ∀ fuel ≥ rounds, retractNegationInvalidated env fuel m facts = result

theorem ends_of_next (hnext : ∀ s, negationInvalidatedSeeds m.programs facts ≠ [] →
      rederive env m (env.quadOrder (cascadePd m (negationInvalidatedSeeds m.programs facts))) =
        .ok s → Ends env ⟨s.programs, s.base⟩ (s.tracked.flatten.map Prod.fst)) :
    Ends env m facts := by
  have hsucc (fuel rounds : ℕ) (h : fuel ≥ rounds + 1) : ∃ k ≥ rounds, fuel = k + 1 :=
    ⟨fuel - 1, by omega, by omega⟩
  by_cases hseeds : negationInvalidatedSeeds m.programs facts = []
  · refine ⟨1, .ok m, nofun, fun fuel hfuel => ?_⟩
    obtain ⟨k, -, rfl⟩ := hsucc fuel 0 hfuel
    rw [retractNegationInvalidated, hseeds]
    rfl
  · have hempty : (negationInvalidatedSeeds m.programs facts).isEmpty = false := by
      rw [Bool.eq_false_iff]
      exact fun h => hseeds (List.isEmpty_iff.mp h)
    cases hre : rederive env m
        (env.quadOrder (cascadePd m (negationInvalidatedSeeds m.programs facts))) with
    | error e =>
      obtain ⟨f, left⟩ := e
      refine ⟨1, .error (f, ⟨left.programs, left.base⟩), fun s h => ?_, fun fuel hfuel => ?_⟩
      · cases h
        exact materialiseAll_fault hre rfl
      · obtain ⟨k, -, rfl⟩ := hsucc fuel 0 hfuel
        simp only [retractNegationInvalidated, hempty, hre, Bool.false_eq_true, if_false]
    | ok s =>
      obtain ⟨rounds, result, hresult, hfuel⟩ := hnext s hseeds hre
      refine ⟨rounds + 1, result, hresult, fun fuel hle => ?_⟩
      obtain ⟨k, hk, rfl⟩ := hsucc fuel rounds hle
      rw [← hfuel k hk]
      simp only [retractNegationInvalidated, hempty, hre, Bool.false_eq_true, if_false]

theorem ends_nil (env : ReasonerEnv Expr) (m : IncrementalReasoner Expr) : Ends env m [] :=
  ends_of_next fun _ hseeds => absurd rfl hseeds

/-- The loop ends, by induction on the rank of the record: a round that leaves fresh derivations
lowers it. -/
theorem Watched.ends (h : Watched ps ids st m facts) (hvalid : ValidOrder (activeStrata ps))
    (hscope : ∀ x ∈ derivable ps ids, x ∈ scope)
    (hrules : ∀ p ∈ ps, ∀ r ∈ p.rules, ∀ x ∈ DatalogProgram.headIds r, x ∈ ids) :
    Ends env m facts := by
  have hwf := @wellFounded_round _ scope (fun x => quadLevel (activeStrata ps) x.2.1) (genuine ps)ᶜ
  induction st using hwf.induction generalizing m facts with
  | _ st ih =>
    refine ends_of_next fun s hseeds hre => ?_
    obtain ⟨st', hwatched, hround⟩ := h.round hvalid hscope hrules hre
    have hsome {st : State scope} {m : IncrementalReasoner Expr} {facts : List Quad}
        (h : Watched ps ids st m facts) (hne : facts ≠ []) : st.fresh.Nonempty := by
      obtain ⟨q, hq⟩ := List.exists_mem_of_ne_nil facts hne
      obtain ⟨x, hx, -⟩ := h.facts q hq
      exact ⟨x, hx⟩
    by_cases hdone : s.tracked.flatten.map Prod.fst = []
    · rw [hdone]
      exact ends_nil env _
    · refine ih st' ⟨hround, hsome h ?_, hsome hwatched hdone⟩ hwatched
      rintro rfl
      exact hseeds rfl

/-- Retraction of falsified derivations ends for programs whose order is a stratification, whatever
is in the store and on record, and whatever facts it starts from. -/
theorem retractNegationInvalidated_terminates (env : ReasonerEnv Expr)
    (m : IncrementalReasoner Expr) (hvalid : ValidOrder (activeStrata m.programs))
    (facts : List Quad) : ∃ rounds result, (∀ s, result ≠ .error (.outOfFuel, s)) ∧
      ∀ fuel ≥ rounds, retractNegationInvalidated env fuel m facts = result := by
  let ids := m.programs.flatMap (fun p => p.rules.flatMap DatalogProgram.headIds) ++
    m.base.quadList.flatMap DatalogProgram.quadIds
  have hrules : ∀ p ∈ m.programs, ∀ r ∈ p.rules, ∀ x ∈ DatalogProgram.headIds r, x ∈ ids := by
    intro p hp r hr x hx
    exact List.mem_append_left _ (List.mem_flatMap.mpr ⟨p, hp, List.mem_flatMap.mpr ⟨r, hr, hx⟩⟩)
  have hover : ∀ q ∈ m.base, q ∈ QuadsOver ids :=
    fun q hq x hx => List.mem_append_right _ (List.mem_flatMap.mpr ⟨q, hq, hx⟩)
  have hfinite := (onRecord_finite m.programs).union (derivable_finite m.programs ids)
  have hmem (x : Entry) : x ∈ hfinite.toFinset ↔
      x ∈ onRecord m.programs ∪ derivable m.programs ids := hfinite.mem_toFinset
  have hscope : ∀ x ∈ derivable m.programs ids, x ∈ hfinite.toFinset :=
    fun x hx => (hmem x).mpr (.inr hx)
  -- the first round starts from facts that need not have derivations; the others from fresh ones
  refine ends_of_next fun s _ hre => ?_
  obtain ⟨st, hwatched, -⟩ := rederive_watched hscope hrules (SameRules.refl m.programs)
    (fun x hx => (hmem x).mpr (.inl hx)) hover hre
  exact hwatched.ends hvalid hscope hrules

/-- Two strata, where the second has a rule with a negated atom. -/
theorem retractNegationInvalidated_terminates_unary :
    ∃ rounds result, (∀ s, result ≠ .error (.outOfFuel, s)) ∧ ∀ fuel ≥ rounds,
      retractNegationInvalidated .plain fuel ⟨[.ofRules [unaryRule 3 [1] []],
        .ofRules [unaryRule 4 [2] [3]]], storeOf [unaryQuad 1 0, unaryQuad 2 0]⟩
        [unaryQuad 3 0] = result := by
  have hclash : strataClash [[unaryRule 3 [1] []], [unaryRule 4 [2] [3]]] = true := by
    decide
  have hstrata : activeStrata [.ofRules [unaryRule 3 [1] []], .ofRules [unaryRule 4 [2] [3]]] =
      [[unaryRule 3 [1] []], [unaryRule 4 [2] [3]]] := by decide
  have hvalid : ValidOrder (activeStrata
      [.ofRules [unaryRule 3 [1] []], .ofRules [unaryRule 4 [2] [3]]]) := by
    rw [hstrata, validOrder_iff]
    exact .of_clash hclash
  exact retractNegationInvalidated_terminates .plain ⟨_, _⟩ hvalid [unaryQuad 3 0]

end Loop

end IncrementalReasoner

end RdfDatalog.Datalog
