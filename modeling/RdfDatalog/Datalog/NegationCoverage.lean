import RdfDatalog.Datalog.InsertionRuns
import RdfDatalog.Datalog.DerivationLog

namespace RdfDatalog.Datalog

open FallibleFold DerivedFromIndex

variable {Expr : Type}

/-- A property of programs that changes of the index and of the enabled rules keep, and that the
program of given rules has. -/
structure Stable (I : DatalogProgram Expr → Prop) : Prop where
  edited : ∀ p x, I p → p.derivedFrom.Edited x → I (p.withDerivedFrom x)
  enableRule : ∀ p id, I p → I (p.enableRule id)
  disableRule : ∀ p id, I p → I (p.disableRule id)
  ofRules : ∀ rules, I (.ofRules rules)

namespace Stable

variable {I : DatalogProgram Expr → Prop} {ps : List (DatalogProgram Expr)}

theorem modify (hps : ∀ p ∈ ps, I p) {f : DatalogProgram Expr → DatalogProgram Expr}
    (hf : ∀ p, I p → I (f p)) (i : Nat) : ∀ p ∈ ps.modify i f, I p := by
  intro p hp
  obtain ⟨j, hj⟩ := List.mem_iff_getElem?.mp hp
  rw [List.getElem?_modify, Option.map_eq_map, Option.map_eq_some_iff] at hj
  obtain ⟨p', hp', heq⟩ := hj
  have hold := hps p' (List.mem_of_getElem? hp')
  split_ifs at heq
  · exact heq ▸ hf p' hold
  · exact heq ▸ hold

theorem foldl_modify {ι : Type} {l : List ι} (place : ι → Nat)
    (f : ι → DatalogProgram Expr → DatalogProgram Expr) (hf : ∀ i ∈ l, ∀ p, I p → I (f i p))
    (hps : ∀ p ∈ ps, I p) :
    ∀ p ∈ l.foldl (fun ps i => ps.modify (place i) (f i)) ps, I p := by
  induction l generalizing ps with
  | nil => exact hps
  | cons i l ih =>
    exact ih (fun j hj => hf j (.tail i hj)) (modify hps (hf i (.head l)) (place i))

theorem passRun (hI : Stable I) {start : DatalogProgram Expr → DerivedFromIndex} {base : QuadStore}
    {s : Sweep Expr} (h : PassRun (fun p base => RunFrom base (start p)) ps base s)
    (hps : ∀ p ∈ ps, I p) (hstart : ∀ p ∈ ps, I (p.withDerivedFrom (start p))) :
    ∀ p ∈ s.programs, I p := by
  induction h with
  | start ps base => exact hps
  | @cons p ps base m s hran _ ih =>
    intro q hq
    rcases List.mem_cons.mp hq with rfl | hq
    · exact hI.edited (p.withDerivedFrom (start p)) m.derivedFrom (hstart p List.mem_cons_self)
        (RunFrom.logged hran).edited
    · exact ih (fun q hq => hps q (List.mem_cons_of_mem p hq))
        (fun q hq => hstart q (List.mem_cons_of_mem p hq)) q hq

variable (hI : Stable I) (env : ReasonerEnv Expr)
include hI

theorem materialiseAll (hps : ∀ p ∈ ps, I p) (base : QuadStore) :
    ∀ p ∈ (reached (materialiseAll env ps base)).programs, I p :=
  hI.passRun (materialiseAll_runsOn env ps base) hps hps

theorem materialiseReset (hps : ∀ p ∈ ps, I p) (hnew : ∀ p ∈ ps, I (p.withDerivedFrom .new))
    (base : QuadStore) : ∀ p ∈ (reached (materialiseReset env ps base)).programs, I p :=
  hI.passRun (sweep_passRun (fun _ p base =>
    materialiseSeminaiveTracked_runFrom env (p.withDerivedFrom .new) base) [] ps base) hps hnew

theorem materialiseForward (delta : List Quad) (hps : ∀ p ∈ ps, I p) (base : QuadStore) :
    ∀ p ∈ (reached (materialiseForward env delta ps base)).programs, I p :=
  hI.passRun (materialiseForward_runsOn env delta ps base) hps hps

end Stable

namespace IncrementalReasoner

variable {I : DatalogProgram Expr → Prop} (hI : Stable I) (env : ReasonerEnv Expr)
include hI

variable {m : IncrementalReasoner Expr} {ps : List (DatalogProgram Expr)} {st : RuleInsertion Expr}

theorem stable_retract (pd : List Quad) (hm : ∀ p ∈ m.programs, I p) :
    ∀ p ∈ (pd.foldl retract m).programs, I p := by
  induction pd generalizing m with
  | nil => exact hm
  | cons q pd ih =>
    refine ih fun p hp => ?_
    obtain ⟨p', hp', rfl⟩ := List.mem_map.mp hp
    exact hI.edited _ _ (hm p' hp') (.single (.remove q))

variable (hm : ∀ p ∈ m.programs, I p)

include hm in
theorem stable_rederive (pd : List Quad) :
    ∀ p ∈ (reached (rederive env m pd)).programs, I p :=
  hI.materialiseAll env (stable_retract hI pd hm) _

theorem stable_undoTracked (hps : ∀ p ∈ ps, I p) (tracked : List (List (Quad × Derivation))) :
    ∀ p ∈ undoTracked ps tracked, I p := by
  intro p hp
  obtain ⟨i, hi⟩ := List.mem_iff_getElem?.mp hp
  rw [getElem?_undoTracked, Option.map_eq_some_iff] at hi
  obtain ⟨p', hp', rfl⟩ := hi
  exact hI.edited _ _ (hps p' (List.mem_of_getElem? hp')) (edited_foldl_unrecord _ _)

omit hI in
theorem edited_foldl_record (q : Quad) (ds : List Derivation) (x : DerivedFromIndex) :
    x.Edited (ds.foldl (fun x d => (x.record q d).1) x) := by
  induction ds generalizing x with
  | nil => exact .refl x
  | cons d ds ih => exact .trans (.single (.record q d)) (ih _)

theorem stable_undoRederive {s : Sweep Expr} (hs : ∀ p ∈ s.programs, I p) (pd : List Quad) :
    ∀ p ∈ (undoRederive m pd s).programs, I p :=
  Stable.foldl_modify (fun e : Quad × Nat × List Derivation => e.2.1) (fun e p =>
      p.withDerivedFrom (e.2.2.foldl (fun x d => (x.record e.1 d).1) p.derivedFrom))
    (fun e _ _ hp => hI.edited _ _ hp (edited_foldl_record e.1 e.2.2 _))
    (stable_undoTracked hI hs s.tracked)

theorem stable_enableRules (hps : ∀ p ∈ ps, I p) (targets : List (Nat × Nat)) :
    ∀ p ∈ enableRules targets ps, I p :=
  Stable.foldl_modify Prod.fst (fun t p => p.enableRule t.2)
    (fun t _ p hp => hI.enableRule p t.2 hp) hps

theorem stable_disableRules (hps : ∀ p ∈ ps, I p) (targets : List (Nat × Nat)) :
    ∀ p ∈ disableRules targets ps, I p :=
  Stable.foldl_modify Prod.fst (fun t p => p.disableRule t.2)
    (fun t _ p hp => hI.disableRule p t.2 hp) hps

theorem stable_retractNegationInvalidated (fuel : Nat) (hm : ∀ p ∈ m.programs, I p)
    (check : List Quad) :
    ∀ p ∈ (reached (retractNegationInvalidated env fuel m check)).programs, I p := by
  induction fuel generalizing m check with
  | zero => exact hm
  | succ fuel ih =>
    rw [retractNegationInvalidated]
    split_ifs
    · exact hm
    · have hround := stable_rederive hI env hm
        (env.quadOrder (cascadePd m (negationInvalidatedSeeds m.programs check)))
      cases hs : rederive env m
          (env.quadOrder (cascadePd m (negationInvalidatedSeeds m.programs check))) with
      | error e =>
        rw [hs] at hround
        exact hround
      | ok s =>
        rw [hs] at hround
        exact ih hround _

theorem stable_applyInsertions (fuel : Nat) (hm : ∀ p ∈ m.programs, I p) (inserts : List Quad) :
    ∀ p ∈ (reached (applyInsertions env fuel m inserts)).programs, I p := by
  have hforward := hI.materialiseForward env inserts hm (inserts.foldl QuadStore.addQuad m.base)
  rw [applyInsertions]
  cases hs : materialiseForward env inserts m.programs (inserts.foldl QuadStore.addQuad m.base) with
  | error e =>
    rw [hs] at hforward
    exact stable_undoTracked hI hforward e.2.tracked
  | ok s =>
    rw [hs] at hforward
    exact stable_retractNegationInvalidated hI env fuel hforward _

include hm

theorem stable_forwardPhase (pd deletes : List Quad) :
    ∀ p ∈ (reached ((forwardPhase env m pd deletes).map Prod.fst)).programs, I p := by
  have hround := stable_rederive hI env hm pd
  rw [forwardPhase]
  cases hs : rederive env m pd with
  | error e =>
    rw [hs] at hround
    exact stable_undoRederive hI hround pd
  | ok s =>
    rw [hs] at hround
    exact hround

theorem stable_forwardPhaseRules (pd : List Quad)
    (targets : List (Nat × Nat)) :
    ∀ p ∈ (reached ((forwardPhaseRules env m pd targets).map Prod.fst)).programs, I p := by
  have hround := stable_rederive hI env hm pd
  rw [forwardPhaseRules]
  cases hs : rederive env m pd with
  | error e =>
    rw [hs] at hround
    exact stable_enableRules hI (stable_undoRederive hI hround pd) targets
  | ok s =>
    rw [hs] at hround
    exact hround

theorem stable_fullRematerialise
    (hnew : ∀ p ∈ m.programs, I (p.withDerivedFrom .new)) (deletes : List Quad) :
    ∀ p ∈ (reached ((fullRematerialise env m deletes).map Prod.fst)).programs, I p := by
  have hreset := hI.materialiseReset env hm hnew
    (assertedOnly (deletes.foldl QuadStore.removeQuad m.base))
  rw [fullRematerialise]
  cases hs : materialiseReset env m.programs
      (assertedOnly (deletes.foldl QuadStore.removeQuad m.base)) with
  | error e =>
    rw [hs] at hreset
    exact hreset
  | ok s =>
    rw [hs] at hreset
    exact hreset

omit hm

theorem stable_rebuildFromBase (hnew : ∀ p ∈ m.programs, I (p.withDerivedFrom .new)) :
    ∀ p ∈ (reached (rebuildFromBase env m)).programs, I p := by
  have hall : ∀ p ∈ m.programs.map fun p => p.withDerivedFrom .new, I p := by
    intro p hp
    obtain ⟨p', hp', rfl⟩ := List.mem_map.mp hp
    exact hnew p' hp'
  have hrun := hI.materialiseAll env hall (assertedOnly m.base)
  rw [rebuildFromBase]
  cases hs : materialiseAll env (m.programs.map fun p => p.withDerivedFrom .new)
      (assertedOnly m.base) with
  | error e =>
    rw [hs] at hrun
    exact hrun
  | ok s =>
    rw [hs] at hrun
    exact hrun

omit hI in
theorem stable_resume {st : RuleInsertion Expr} (hst : ∀ p ∈ st.programs, I p) {start : Nat}
    {s : Sweep Expr} (hs : ∀ p ∈ s.programs, I p) : ∀ p ∈ (st.resume start s).programs, I p := by
  intro p hp
  rcases List.mem_append.mp hp with hp | hp
  · exact hst p (List.mem_of_mem_take hp)
  · exact hs p hp

theorem stable_insertRules (hst : ∀ p ∈ st.programs, I p) (targets : List (Nat × Nat))
    {fresh : List (DatalogProgram Expr)} (hfresh : ∀ p ∈ fresh, I p) :
    ∀ p ∈ (reached (insertRules env st targets fresh)).programs, I p := by
  have hinsert := insertRules_runsOn env
    (I := fun st : RuleInsertion Expr => ∀ p ∈ st.programs, I p)
    (fun st t (_ : t ∈ targets) s hst hs => by
      have hstart : ∀ p ∈ (st.enabled t).programs, I p :=
        Stable.modify hst (fun p hp => hI.enableRule p t.2 hp) t.1
      have hdrop : ∀ p ∈ (st.enabled t).programs.drop t.1, I p :=
        fun p hp => hstart p (List.mem_of_mem_drop hp)
      exact stable_resume hstart (hI.passRun hs hdrop hdrop)) hst fresh
  rcases hinsert with h | ⟨st', s, hst', hs, heq⟩
  · exact h
  · rw [heq]
    exact stable_resume hst' (hI.passRun hs hfresh hfresh)

theorem stable_undoRuleInsertions (hst : ∀ p ∈ st.programs, I p) (quadStart count : Nat) :
    ∀ p ∈ (undoRuleInsertions quadStart count st).programs, I p := by
  refine stable_disableRules hI (fun p hp => ?_) st.reactivated
  refine Stable.foldl_modify Prod.fst (fun (e : Nat × List (Quad × Derivation)) p =>
      p.withDerivedFrom (e.2.foldl (fun x e => x.unrecord e.1 e.2) p.derivedFrom))
    (fun e _ p hp => ?_) hst p (List.mem_of_mem_take hp)
  exact hI.edited _ _ hp (edited_foldl_unrecord e.2 p.derivedFrom)

omit hI in
theorem zipWith_withDerivedFrom {ps' : List (DatalogProgram Expr)} (h : SameRules ps ps') :
    List.zipWith DatalogProgram.withDerivedFrom ps' (ps.map DatalogProgram.derivedFrom) = ps := by
  induction h with
  | nil => rfl
  | cons hp _ ih =>
    obtain ⟨x, rfl⟩ := hp
    rw [List.map_cons, List.zipWith_cons_cons, ih]
    rfl

omit hI in
theorem derivedFrom_disableRules (targets : List (Nat × Nat)) (ps : List (DatalogProgram Expr)) :
    (disableRules targets ps).map DatalogProgram.derivedFrom =
      ps.map DatalogProgram.derivedFrom := by
  apply List.ext_getElem?
  intro i
  rw [List.getElem?_map, List.getElem?_map, getElem?_disableRules, Option.map_map]
  rfl

variable [DecidableEq Expr]

omit hI in
theorem fullRematerialiseRules_error {m' : IncrementalReasoner Expr} {R : List (Rule Expr)}
    {f : Fault Expr}
    (h : fullRematerialiseRules env m (deletionTargets m.programs R) = .error (f, m')) :
    m' = m := by
  have hpass := materialiseReset_sameRules env
    (disableRules (deletionTargets m.programs R) m.programs) (assertedOnly m.base)
  rw [fullRematerialiseRules] at h
  split at h
  · rename_i f' s hs
    rw [hs, reached_error] at hpass
    cases h
    rw [← derivedFrom_disableRules (deletionTargets m.programs R), zipWith_withDerivedFrom hpass,
      enableRules_disableRules fun t ht p hp => deletionTargets_enabled ht hp]
  · cases h

theorem stable_freshPrograms {existing reintroduced fresh : List (Rule Expr)}
    {programs : List (DatalogProgram Expr)}
    (h : freshPrograms existing reintroduced fresh = .ok programs) : ∀ p ∈ programs, I p := by
  rw [freshPrograms] at h
  split at h
  · cases h
  split at h
  · cases h
  split at h
  · cases h
  split at h
  · cases h
  · rename_i hprograms
    cases h
    obtain ⟨-, rfl⟩ := mapM_new_eq_ok_iff.mp hprograms
    intro p hp
    obtain ⟨rules, -, rfl⟩ := List.mem_map.mp hp
    exact hI.ofRules rules

include hm in
theorem stable_applyRuleInsertions (newRules : List (Rule Expr)) :
    ∀ p ∈ (reached ((applyRuleInsertions env m newRules).map Prod.fst)).programs, I p := by
  rw [applyRuleInsertions]
  dsimp only
  split_ifs
  · exact hm
  · exact hm
  · split
    · exact hm
    · rename_i fresh hfresh
      have hinsert := @stable_insertRules _ _ hI env ⟨m.programs, m.base, [], []⟩ hm
        (requestedRules m.programs newRules).reactivate fresh (stable_freshPrograms hI hfresh)
      split
      · rename_i f st hst
        rw [hst] at hinsert
        exact stable_undoRuleInsertions hI hinsert _ _
      · rename_i st hst
        rw [hst] at hinsert
        exact hinsert

/-- The closure can be rebuilt without the rules `R`. -/
def Rebuilds (m : IncrementalReasoner Expr) (R : List (Rule Expr)) : Prop :=
  ∃ s, materialiseReset env (disableRules (deletionTargets m.programs R) m.programs)
    (assertedOnly m.base) = .ok s

omit [DecidableEq Expr] in
theorem stable_applyDeletions {m : IncrementalReasoner Expr} (hm : ∀ p ∈ m.programs, I p)
    {deletes : List Quad} (hnew : m.FallsBack deletes →
      ∀ p ∈ m.programs, I (p.withDerivedFrom .new)) :
    ∀ p ∈ (reached ((applyDeletions env m deletes).map Prod.fst)).programs, I p := by
  rw [applyDeletions]
  dsimp only
  split_ifs with hempty hfall
  · exact hm
  · exact stable_fullRematerialise hI env hm (hnew hfall) deletes
  · exact stable_forwardPhase hI env
      (m := { m with base := deletes.foldl QuadStore.removeQuad m.base }) hm _ deletes

include hm in
theorem stable_applyRuleDeletions {R : List (Rule Expr)}
    (hnew : m.RulesFallBack R → Rebuilds env m R → ∀ p ∈ m.programs, I (p.withDerivedFrom .new)) :
    ∀ p ∈ (reached ((applyRuleDeletions env m R).map Prod.fst)).programs, I p := by
  rw [applyRuleDeletions]
  dsimp only
  split_ifs with hempty hnone hfall
  · exact hm
  · exact hm
  · have hdisabled := stable_disableRules hI hm (deletionTargets m.programs R)
    cases hs : fullRematerialiseRules env m (deletionTargets m.programs R) with
    | error e =>
      obtain ⟨f, m'⟩ := e
      rw [fullRematerialiseRules_error env hs]
      exact hm
    | ok res =>
      rw [fullRematerialiseRules] at hs
      split at hs
      · cases hs
      · rename_i s hrun
        cases hs
        have hreset := hI.materialiseReset env hdisabled
          (Stable.foldl_modify (I := fun p => I (p.withDerivedFrom .new)) Prod.fst
            (fun (t : Nat × Nat) p => p.disableRule t.2)
            (fun t _ p hp => hI.disableRule _ t.2 hp) (hnew hfall ⟨s, hrun⟩)) (assertedOnly m.base)
        rw [hrun] at hreset
        exact hreset
  · exact stable_forwardPhaseRules hI env (m := { m with
      programs := disableRules (deletionTargets m.programs R) m.programs })
      (stable_disableRules hI hm _) _ _

omit hI in
theorem stable_new (hI : Stable I) {rules : List (Rule Expr)} {base : QuadStore}
    (h : new env rules base = .ok m) : ∀ p ∈ m.programs, I p := by
  rw [new] at h
  split at h
  · cases h
  rename_i strata _
  split at h
  · cases h
  rename_i programs hprograms
  obtain ⟨-, rfl⟩ := mapM_new_eq_ok_iff.mp hprograms
  have hfresh : ∀ p ∈ strata.map DatalogProgram.ofRules, I p := by
    intro p hp
    obtain ⟨rules, -, rfl⟩ := List.mem_map.mp hp
    exact hI.ofRules rules
  have hall := hI.materialiseAll env hfresh base
  split at h
  · cases h
  · rename_i s hs
    cases h
    rw [hs] at hall
    exact hall

omit hI

section Run

/-- A call of an operation that changes a reasoner; the number bounds the rounds of an insertion. -/
inductive Update (Expr : Type) where
  | insert (rounds : Nat) (quads : List Quad)
  | delete (quads : List Quad)
  | insertRules (rules : List (Rule Expr))
  | deleteRules (rules : List (Rule Expr))
  | rebuild

/-- The state a call leaves, also when it fails. -/
def Update.after (m : IncrementalReasoner Expr) : Update Expr → IncrementalReasoner Expr
  | .insert rounds quads => reached (applyInsertions env rounds m quads)
  | .delete quads => reached ((applyDeletions env m quads).map Prod.fst)
  | .insertRules rules => reached ((applyRuleInsertions env m rules).map Prod.fst)
  | .deleteRules rules => reached ((applyRuleDeletions env m rules).map Prod.fst)
  | .rebuild => reached (rebuildFromBase env m)

/-- The states of a reasoner after any allowed calls, successful or failed. Each call gets a store
of its own. -/
inductive UpdateRun (Allowed : IncrementalReasoner Expr → Update Expr → Prop) :
    IncrementalReasoner Expr → Prop
  | new {rules : List (Rule Expr)} {base : QuadStore} {m : IncrementalReasoner Expr} :
    new env rules base = .ok m → UpdateRun Allowed m
  | update {m : IncrementalReasoner Expr} (base : QuadStore) (u : Update Expr) :
    UpdateRun Allowed m → Allowed { m with base := base } u →
      UpdateRun Allowed (u.after env { m with base := base })

/-- Every state a reasoner can be in. -/
def Reachable : IncrementalReasoner Expr → Prop := UpdateRun env fun _ _ => True

/-- The call puts an empty index in the place of the derivation indexes and leaves it there: it
rebuilds the closure, which a deletion does when it falls back. -/
def Update.Replaces (m : IncrementalReasoner Expr) : Update Expr → Prop
  | .delete quads => m.FallsBack quads
  | .deleteRules rules => m.RulesFallBack rules ∧ Rebuilds env m rules
  | .rebuild => True
  | _ => False

variable {env}

variable {m : IncrementalReasoner Expr}

theorem Update.after_stable (hI : Stable I) (hm : ∀ p ∈ m.programs, I p) {u : Update Expr}
    (hnew : u.Replaces env m → ∀ p ∈ m.programs, I (p.withDerivedFrom .new)) :
    ∀ p ∈ (u.after env m).programs, I p := by
  cases u with
  | insert rounds quads => exact stable_applyInsertions hI env rounds hm quads
  | delete quads => exact stable_applyDeletions hI env hm hnew
  | insertRules rules => exact stable_applyRuleInsertions hI env hm rules
  | deleteRules rules =>
    exact stable_applyRuleDeletions hI env hm fun hfall hrebuilds => hnew ⟨hfall, hrebuilds⟩
  | rebuild => exact stable_rebuildFromBase hI env (hnew trivial)

theorem UpdateRun.stable (hI : Stable I) {Allowed : IncrementalReasoner Expr → Update Expr → Prop}
    (hnew : ∀ (m : IncrementalReasoner Expr) (u : Update Expr), (∀ p ∈ m.programs, I p) → Allowed m
      u → u.Replaces env m → ∀ p ∈ m.programs, I (p.withDerivedFrom .new))
    (h : UpdateRun env Allowed m) : ∀ p ∈ m.programs, I p := by
  induction h with
  | new h => exact stable_new env hI h
  | @update m base u _ hallowed ih =>
    exact u.after_stable hI (m := { m with base := base }) ih (hnew _ u ih hallowed)

omit [DecidableEq Expr] in
theorem stable_exact : Stable fun p : DatalogProgram Expr => p.derivedFrom.Exact where
  edited _ _ hp hx := hx.exact hp
  enableRule _ _ hp := hp
  disableRule _ _ hp := hp
  ofRules _ := exact_with _

theorem Reachable.exact (h : Reachable env m) :
    ∀ p ∈ m.programs, p.derivedFrom.Exact :=
  UpdateRun.stable stable_exact (fun _ _ _ _ _ _ _ => exact_new) h

end Run

end IncrementalReasoner

/-- The rule at place `id` has a negated atom. -/
def DatalogProgram.HasNegation (p : DatalogProgram Expr) (id : Nat) : Prop :=
  ∃ r, p.rules[id]? = some r ∧ r.notPatterns ≠ []

/-- For every rule with a negated atom, the reverse index yields the quads with a derivation by the
rule, and stores how many derivations there are. -/
def DatalogProgram.CoversNegation (p : DatalogProgram Expr) : Prop :=
  ∀ id, p.HasNegation id → ∀ q, (q ∈ p.derivedFrom.quadsForRule id ↔
      ∃ d ∈ p.derivedFrom.derivationsFor q, d.ruleId = id) ∧
    (p.derivedFrom.countFor id q).getD 0 = p.derivedFrom.derivationsBy id q

structure DatalogProgram.Indexed (p : DatalogProgram Expr) : Prop where
  exact : p.derivedFrom.Exact
  tracked : ∀ id, p.HasNegation id → id ∈ p.derivedFrom.negativelyTriggeringRules

theorem DatalogProgram.Indexed.covers {p : DatalogProgram Expr} (h : p.Indexed) :
    p.CoversNegation := by
  intro id hid q
  have hcount := h.exact.counted id (h.tracked id hid) q
  refine ⟨?_, by rw [hcount, stored_getD]⟩
  rw [mem_quadsForRule, hcount, stored_isSome, derivationsBy, ← Nat.pos_iff_ne_zero,
    List.countP_pos_iff]
  simp only [decide_eq_true_eq]

theorem stable_indexed : Stable fun p : DatalogProgram Expr => p.Indexed where
  edited p x hp hx := by
    refine ⟨hx.exact hp.exact, fun id hid => ?_⟩
    have htracked := hp.tracked id hid
    rw [← hx.negativelyTriggeringRules] at htracked
    exact htracked
  enableRule _ _ hp := ⟨hp.exact, hp.tracked⟩
  disableRule _ _ hp := ⟨hp.exact, hp.tracked⟩
  ofRules rules := by
    refine ⟨exact_with _, ?_⟩
    intro id ⟨r, hr, hneg⟩
    exact (DatalogProgram.tracksNegation_ofRules rules).triggering id r ⟨hr, Finset.notMem_empty id⟩
      hneg

namespace IncrementalReasoner

variable [DecidableEq Expr] {env : ReasonerEnv Expr}

/-- No rule of a program, retracted or not, has a negated atom. -/
def NegationFree (programs : List (DatalogProgram Expr)) : Prop :=
  ∀ p ∈ programs, ∀ id, ¬ p.HasNegation id

/-- In a run that puts empty indexes in the place of the derivation indexes only while no rule has
a negated atom, the reverse index covers every recorded derivation. -/
theorem UpdateRun.coversNegation {m : IncrementalReasoner Expr}
    (h : UpdateRun env (fun m u => u.Replaces env m → NegationFree m.programs) m) :
    ∀ p ∈ m.programs, p.CoversNegation := by
  intro p hp
  have hindexed := h.stable stable_indexed
    (fun m u _ hallowed hreplaces p hp => ⟨exact_new, fun id hid =>
      absurd hid (hallowed hreplaces p hp id)⟩) p hp
  exact hindexed.covers

theorem coversNegation_unary : ∃ m : IncrementalReasoner Empty,
    new .plain [unaryRule 2 [1] [3]] (storeOf [unaryQuad 1 0]) = .ok m ∧
      ∀ p ∈ ((Update.insert 2 [unaryQuad 1 1]).after .plain m).programs, p.CoversNegation := by
  have hnew : (new .plain [unaryRule 2 [1] [3]] (storeOf [unaryQuad 1 0])).toBool = true := by
    decide
  obtain ⟨m, hm⟩ := exists_ok_of_toBool hnew
  exact ⟨m, hm, UpdateRun.coversNegation
    (.update m.base (.insert 2 [unaryQuad 1 1]) (.new hm) (fun h => by cases h))⟩

/-- A rebuild loses what the index tracks: it records the derivation by a rule with a negated atom,
and its reverse index does not yield the quad. -/
theorem rebuildFromBase_uncovered : ∃ m₀ m : IncrementalReasoner Empty,
    new .plain [unaryRule 2 [1] [3]] (storeOf [unaryQuad 1 0]) = .ok m₀ ∧
      rebuildFromBase .plain m₀ = .ok m ∧ Reachable .plain m ∧
      ¬ ∀ p ∈ m.programs, p.CoversNegation := by
  obtain ⟨m₀, hnew, m, hre, p, hp, hrule, hderived, hout⟩ :
      ∃ m₀, new .plain [unaryRule 2 [1] [3]] (storeOf [unaryQuad 1 0]) = .ok m₀ ∧
        ∃ m, rebuildFromBase .plain m₀ = .ok m ∧
          ∃ p ∈ m.programs, p.rules[0]? = some (unaryRule 2 [1] [3]) ∧
            (∃ d ∈ p.derivedFrom.derivationsFor (unaryQuad 2 0), d.ruleId = 0) ∧
            unaryQuad 2 0 ∉ p.derivedFrom.quadsForRule 0 := by decide
  have hafter : Update.rebuild.after .plain m₀ = m := by
    rw [Update.after, hre, reached_ok]
  refine ⟨m₀, m, hnew, hre, hafter ▸ .update m₀.base .rebuild (.new hnew) trivial, ?_⟩
  intro hcovers
  have hnegation : p.HasNegation 0 := ⟨_, hrule, List.cons_ne_nil _ _⟩
  exact hout ((hcovers p hp 0 hnegation (unaryQuad 2 0)).1.mpr hderived)

end IncrementalReasoner

end RdfDatalog.Datalog
