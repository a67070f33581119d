import RdfDatalog.Datalog.StratifierSearch
import Mathlib.Algebra.Order.BigOperators.Group.Finset

namespace RdfDatalog.Datalog

variable {Expr : Type} [DecidableEq Expr]

namespace RulePartitioner

/-- What is left to do: rules not yet output, and rules in a queue. -/
def work (p : RulePartitioner Expr) : Nat :=
  (Finset.range p.rules.length \ p.output).card + p.readyQueue.length + p.nextQueue.length

/-- The edges from the rule at `i` to the rule at `j`, counted. -/
def countEdges (p : RulePartitioner Expr) (i j : Nat) : Nat :=
  (p.successors i).countP fun e => ruleIndex p.rules e.getRule = some j

/-- What updating successors does: the count of an open rule `j` falls by `cost j`, and a rule
whose count reaches zero is output into a queue. -/
structure Advances (p p' : RulePartitioner Expr) (cost : Nat → Nat) : Prop where
  rules : p'.rules = p.rules
  successors : p'.successors = p.successors
  output : p.output ⊆ p'.output
  pred : ∀ j ∉ p'.output, p'.numPredecessors j ≤ p.numPredecessors j - cost j
  queued : ∀ i, i ∈ p'.output ∨ p'.numPredecessors i = 0 →
    (i ∈ p.output ∨ p.numPredecessors i = 0) ∨ i ∈ p'.readyQueue ∨ i ∈ p'.nextQueue
  ready : p.readyQueue ⊆ p'.readyQueue
  next : p.nextQueue ⊆ p'.nextQueue
  work : p'.work ≤ p.work

omit [DecidableEq Expr] in
theorem Advances.trans {p q r : RulePartitioner Expr} {c d : Nat → Nat} (h : p.Advances q c)
    (h' : q.Advances r d) : p.Advances r (fun j => c j + d j) where
  rules := h'.rules.trans h.rules
  successors := h'.successors.trans h.successors
  output := h.output.trans h'.output
  pred j hj := by
    have hq := h.pred j fun hjq => hj (h'.output hjq)
    have hr := h'.pred j hj
    omega
  queued i hi := by
    rcases h'.queued i hi with hi | hi | hi
    · rcases h.queued i hi with hi | hi | hi
      · exact .inl hi
      · exact .inr (.inl (h'.ready hi))
      · exact .inr (.inr (h'.next hi))
    · exact .inr (.inl hi)
    · exact .inr (.inr hi)
  ready := List.Subset.trans h.ready h'.ready
  next := List.Subset.trans h.next h'.next
  work := h'.work.trans h.work

theorem card_sdiff_insert {n dep : Nat} {output : Finset Nat} (hlt : dep < n)
    (hout : dep ∉ output) :
    (Finset.range n \ insert dep output).card + 1 = (Finset.range n \ output).card := by
  have hmem : dep ∈ Finset.range n \ output :=
    Finset.mem_sdiff.mpr ⟨Finset.mem_range.mpr hlt, hout⟩
  have herase : Finset.range n \ insert dep output = (Finset.range n \ output).erase dep := by
    ext x
    simp only [Finset.mem_sdiff, Finset.mem_insert, Finset.mem_erase, not_or]
    tauto
  rw [herase, Finset.card_erase_of_mem hmem]
  have hpos : 0 < (Finset.range n \ output).card := Finset.card_pos.mpr ⟨dep, hmem⟩
  omega

/-- What one edge does to the sort: nothing to a rule that is output, and else it counts off one
predecessor; a rule with none left is queued for this stratum, or for the next one when it is
marked. -/
theorem updateSuccessor_cases (p : RulePartitioner Expr) (e : PatternEdge Expr) :
    (ruleIndex p.rules e.getRule = none ∧ p.updateSuccessor e = p) ∨
    ∃ dep uses, ruleIndex p.rules e.getRule = some dep ∧
      (∀ j, j ∈ uses ↔ (j ∈ p.usesIntensionalNegativeEdge ∨ (j = dep ∧ e.isNegative = true))) ∧
      ((dep ∈ p.output ∨ p.numPredecessors dep = 0) ∧
        p.updateSuccessor e = { p with usesIntensionalNegativeEdge := uses } ∨
      dep ∉ p.output ∧ 1 < p.numPredecessors dep ∧ p.updateSuccessor e = { p with
        usesIntensionalNegativeEdge := uses
        numPredecessors := Function.update p.numPredecessors dep (p.numPredecessors dep - 1) } ∨
      dep ∉ p.output ∧ p.numPredecessors dep = 1 ∧
        (dep ∈ uses ∧ p.updateSuccessor e = { p with
          usesIntensionalNegativeEdge := uses
          numPredecessors := Function.update p.numPredecessors dep 0
          output := insert dep p.output
          nextQueue := p.nextQueue ++ [dep] } ∨
        dep ∉ uses ∧ p.updateSuccessor e = { p with
          usesIntensionalNegativeEdge := uses
          numPredecessors := Function.update p.numPredecessors dep 0
          output := insert dep p.output
          readyQueue := p.readyQueue ++ [dep] })) := by
  unfold updateSuccessor
  cases hi : ruleIndex p.rules e.getRule with
  | none => exact .inl ⟨rfl, rfl⟩
  | some dep =>
    refine .inr ⟨dep, if e.isNegative then insert dep p.usesIntensionalNegativeEdge
      else p.usesIntensionalNegativeEdge, rfl, ?_, ?_⟩
    · intro j
      cases e.isNegative <;> simp [or_comm]
    · by_cases hskip : dep ∈ p.output ∨ p.numPredecessors dep = 0
      · refine .inl ⟨hskip, ?_⟩
        cases e.isNegative <;> simp [hskip]
      · obtain ⟨hout, hpos⟩ := not_or.mp hskip
        by_cases hone : p.numPredecessors dep = 1
        · refine .inr (.inr ⟨hout, hone, ?_⟩)
          by_cases huses : dep ∈ (if e.isNegative then insert dep p.usesIntensionalNegativeEdge
              else p.usesIntensionalNegativeEdge)
          · refine .inl ⟨huses, ?_⟩
            cases hneg : e.isNegative
            · simp only [hneg, Bool.false_eq_true, if_false] at huses
              simp [hout, hone, huses]
            · simp [hout, hone]
          · refine .inr ⟨huses, ?_⟩
            cases hneg : e.isNegative
            · simp only [hneg, Bool.false_eq_true, if_false] at huses
              simp [hout, hone, huses]
            · simp [hneg] at huses
        · have hlt : 1 < p.numPredecessors dep := by omega
          have hsub : p.numPredecessors dep - 1 ≠ 0 := by omega
          refine .inr (.inl ⟨hout, hlt, ?_⟩)
          cases e.isNegative <;> simp [hout, hpos, hsub]

theorem updateSuccessor_advances (p : RulePartitioner Expr) (e : PatternEdge Expr) :
    p.Advances (p.updateSuccessor e)
      (fun j => if ruleIndex p.rules e.getRule = some j then 1 else 0) := by
  rcases updateSuccessor_cases p e with ⟨hi, heq⟩ | ⟨dep, uses, hi, -, h⟩
  · rw [heq]
    exact ⟨rfl, rfl, fun _ h => h, fun j _ => by simp [hi], fun _ h => .inl h, fun _ h => h,
      fun _ h => h, le_rfl⟩
  have hcost {j : Nat} (hj : j ≠ dep) : ¬ ruleIndex p.rules e.getRule = some j :=
    fun h => hj (Option.some.inj (h.symm.trans hi))
  rcases h with ⟨hskip, heq⟩ | ⟨hno, hlt, heq⟩ | ⟨hno, -, ⟨-, heq⟩ | ⟨-, heq⟩⟩
  · rw [heq]
    refine ⟨rfl, rfl, fun _ h => h, fun j hj => ?_, fun _ h => .inl h, fun _ h => h,
      fun _ h => h, le_rfl⟩
    by_cases hjd : j = dep
    · subst hjd
      have hzero := hskip.resolve_left hj
      simp [hzero]
    · simp [hcost hjd]
  · rw [heq]
    refine ⟨rfl, rfl, fun _ h => h, fun j hj => ?_, fun i hi' => ?_, fun _ h => h, fun _ h => h,
      le_rfl⟩
    · by_cases hjd : j = dep
      · subst hjd
        simp [hi]
      · simp [Function.update_of_ne hjd, hcost hjd]
    · by_cases hid : i = dep
      · subst hid
        simp only [Function.update_self] at hi'
        exact absurd (hi'.resolve_left hno) (by omega)
      · simp only [Function.update_of_ne hid] at hi'
        exact .inl hi'
  -- the rule is output, whichever queue it joins
  all_goals
    rw [heq]
    have hcard := card_sdiff_insert (ruleIndex_lt hi) hno
    refine ⟨rfl, rfl, Finset.subset_insert _ _, fun j hj => ?_, fun i hi' => ?_,
      fun i hi => by simp [hi], fun i hi => by simp [hi], ?_⟩
    · have hjd : j ≠ dep := fun he => hj (he ▸ Finset.mem_insert_self _ _)
      simp [Function.update_of_ne hjd, hcost hjd]
    · by_cases hid : i = dep
      · simp [hid]
      · simp only [Finset.mem_insert, hid, false_or, Function.update_of_ne hid] at hi'
        exact .inl hi'
    · simp only [work, List.length_append, List.length_singleton]
      omega

theorem foldl_updateSuccessor_advances (p : RulePartitioner Expr)
    (edges : List (PatternEdge Expr)) :
    p.Advances (edges.foldl updateSuccessor p)
      (fun j => edges.countP fun e => ruleIndex p.rules e.getRule = some j) := by
  induction edges generalizing p with
  | nil =>
    exact ⟨rfl, rfl, fun _ h => h, fun j _ => by simp, fun _ h => .inl h, fun _ h => h,
      fun _ h => h, le_rfl⟩
  | cons e edges ih =>
    have hstep := p.updateSuccessor_advances e
    have hrest := ih (p.updateSuccessor e)
    rw [hstep.rules] at hrest
    have htrans := hstep.trans hrest
    have hcost : (fun j => (if ruleIndex p.rules e.getRule = some j then 1 else 0) +
        edges.countP fun e => ruleIndex p.rules e.getRule = some j) =
        fun j => (e :: edges).countP fun e => ruleIndex p.rules e.getRule = some j := by
      funext j
      rw [List.countP_cons, Nat.add_comm]
      simp only [decide_eq_true_eq]
    rw [hcost] at htrans
    exact htrans

/-- The invariant of the sort: `popped` are the rules already put into a stratum. -/
structure Sorting (p : RulePartitioner Expr) (popped : Finset Nat) : Prop where
  queued : ∀ i < p.rules.length, i ∈ p.output ∨ p.numPredecessors i = 0 →
    i ∈ popped ∨ i ∈ p.readyQueue ∨ i ∈ p.nextQueue
  counted : ∀ j ∉ p.output, p.numPredecessors j ≤
    ∑ i ∈ Finset.range p.rules.length \ popped, p.countEdges i j

variable {p p' : RulePartitioner Expr} {popped : Finset Nat} {rules : List (Rule Expr)}

variable (h : p.Sorting popped)

include h

theorem Sorting.pop {idx : Nat} {rest : List Nat}
    (hready : p.readyQueue = idx :: rest)
    (hadv : ({ p with readyQueue := rest } : RulePartitioner Expr).Advances p' (p.countEdges idx)) :
    p'.Sorting (insert idx popped) := by
  have hedges : p'.countEdges = p.countEdges := by
    funext i j
    rw [countEdges, countEdges, hadv.rules, hadv.successors]
  constructor
  · intro i hi hout
    rw [hadv.rules] at hi
    rcases hadv.queued i hout with hold | hq
    · rcases h.queued i hi hold with hp | hp | hp
      · exact .inl (Finset.mem_insert_of_mem hp)
      · rw [hready] at hp
        rcases List.mem_cons.mp hp with rfl | hp
        · exact .inl (Finset.mem_insert_self _ _)
        · exact .inr (.inl (hadv.ready hp))
      · exact .inr (.inr (hadv.next hp))
    · exact .inr hq
  · intro j hj
    have hpred := hadv.pred j hj
    have hcount := h.counted j fun hjo => hj (hadv.output hjo)
    rw [hadv.rules, hedges]
    let S := Finset.range p.rules.length \ insert idx popped
    have hsum : ∑ i ∈ Finset.range p.rules.length \ popped, p.countEdges i j ≤
        p.countEdges idx j + ∑ i ∈ S, p.countEdges i j := by
      have hsub : Finset.range p.rules.length \ popped ⊆ insert idx S := by
        intro x hx
        obtain ⟨hr, hno⟩ := Finset.mem_sdiff.mp hx
        by_cases hxi : x = idx
        · exact hxi ▸ Finset.mem_insert_self _ _
        · refine Finset.mem_insert_of_mem (Finset.mem_sdiff.mpr ⟨hr, ?_⟩)
          intro hmem
          rcases Finset.mem_insert.mp hmem with hmem | hmem
          · exact hxi hmem
          · exact hno hmem
      have hS : idx ∉ S := fun hmem => (Finset.mem_sdiff.mp hmem).2 (Finset.mem_insert_self _ _)
      calc ∑ i ∈ Finset.range p.rules.length \ popped, p.countEdges i j
          ≤ ∑ i ∈ insert idx S, p.countEdges i j := Finset.sum_le_sum_of_subset hsub
        _ = p.countEdges idx j + ∑ i ∈ S, p.countEdges i j := Finset.sum_insert hS
    change p'.numPredecessors j ≤ p.numPredecessors j - p.countEdges idx j at hpred
    change p'.numPredecessors j ≤ ∑ i ∈ S, p.countEdges i j
    omega

omit h in
theorem work_foldl_updateSuccessor {idx : Nat} {rest : List Nat}
    (hready : p.readyQueue = idx :: rest) :
    ((p.successors idx).foldl updateSuccessor { p with readyQueue := rest }).work < p.work := by
  refine (foldl_updateSuccessor_advances { p with readyQueue := rest } _).work.trans_lt ?_
  simp only [work, hready, List.length_cons]
  omega

theorem getPartition_spec {fuel : Nat} (hfuel : p.work < fuel) :
    ∃ L : List Nat, (p.getPartition fuel).1 = L.filterMap (fun i => p.rules[i]?) ∧
      (p.getPartition fuel).2.Sorting (L.toFinset ∪ popped) ∧
      (p.getPartition fuel).2.readyQueue = [] ∧
      (p.getPartition fuel).2.rules = p.rules ∧
      (p.getPartition fuel).2.work ≤ p.work ∧
      (p.readyQueue ≠ [] → (p.getPartition fuel).2.work < p.work) := by
  induction fuel generalizing p popped with
  | zero => omega
  | succ fuel ih =>
    cases hready : p.readyQueue with
    | nil =>
      refine ⟨[], ?_, ?_, ?_, ?_, ?_, fun hne => absurd rfl hne⟩ <;>
        simp [getPartition, hready, h]
    | cons idx rest =>
      have hadv := foldl_updateSuccessor_advances { p with readyQueue := rest } (p.successors idx)
      have hsort := h.pop hready hadv
      have hwork := work_foldl_updateSuccessor hready
      have hrules := hadv.rules
      generalize hp' : (p.successors idx).foldl updateSuccessor { p with readyQueue := rest } = p'
        at hsort hwork hrules
      change p'.rules = p.rules at hrules
      obtain ⟨L, hL, hsort', hempty, hr, hle, -⟩ := ih hsort (by omega)
      have hdef : p.getPartition (fuel + 1) =
          (p'.rules[idx]?.toList ++ (p'.getPartition fuel).1, (p'.getPartition fuel).2) := by
        rw [getPartition, hready]
        simp only [hp']
      rw [hdef]
      refine ⟨idx :: L, ?_, ?_, hempty, hr.trans hrules, by simp only; omega, fun _ => by
        simp only; omega⟩
      · simp only [hL, hrules, List.filterMap_cons]
        cases p.rules[idx]? <;> rfl
      · rw [List.toFinset_cons, Finset.insert_union, ← Finset.union_insert]
        exact hsort'

theorem Sorting.reset :
    p.resetStratification.Sorting popped := by
  refine ⟨?_, h.counted⟩
  intro i hi hout
  rcases h.queued i hi hout with hp | hp | hp
  · exact .inl hp
  · exact .inr (.inl (List.mem_append_left _ hp))
  · exact .inr (.inl (List.mem_append_right _ hp))

theorem foldl_releaseRule {cycle : List Nat}
    (hlt : ∀ i ∈ cycle, i < p.rules.length) :
    (cycle.foldl releaseRule p).Sorting popped ∧
      (cycle.foldl releaseRule p).rules = p.rules ∧
      (cycle.foldl releaseRule p).nextQueue = p.nextQueue ∧
      (cycle.foldl releaseRule p).work = p.work ∧
      p.readyQueue ⊆ (cycle.foldl releaseRule p).readyQueue ∧
      ∀ i ∈ cycle, i ∉ p.output → i ∈ (cycle.foldl releaseRule p).readyQueue := by
  induction cycle generalizing p with
  | nil => exact ⟨h, rfl, rfl, rfl, fun _ hx => hx, nofun⟩
  | cons idx cycle ih =>
    rw [List.foldl_cons]
    by_cases hout : idx ∈ p.output
    · have heq : p.releaseRule idx = p := if_pos hout
      rw [heq]
      obtain ⟨hs, hr, hn, hw, hsub, hall⟩ := ih h fun i hi => hlt i (.tail idx hi)
      refine ⟨hs, hr, hn, hw, hsub, ?_⟩
      intro i hi hno
      rcases List.mem_cons.mp hi with rfl | hi
      · exact absurd hout hno
      · exact hall i hi hno
    · have heq : p.releaseRule idx = { p with
          output := insert idx p.output, readyQueue := p.readyQueue ++ [idx] } := if_neg hout
      have hsort : (p.releaseRule idx).Sorting popped := by
        rw [heq]
        constructor
        · intro i hi hio
          by_cases hid : i = idx
          · exact .inr (.inl (List.mem_append_right _ (hid ▸ List.mem_singleton_self _)))
          · simp only [Finset.mem_insert, hid, false_or] at hio
            rcases h.queued i hi hio with hp | hp | hp
            · exact .inl hp
            · exact .inr (.inl (List.mem_append_left _ hp))
            · exact .inr (.inr hp)
        · intro j hj
          exact h.counted j fun hjo => hj (Finset.mem_insert_of_mem hjo)
      have hwork : (p.releaseRule idx).work = p.work := by
        have hcard := card_sdiff_insert (hlt idx (.head _)) hout
        rw [heq]
        simp only [work, List.length_append, List.length_singleton]
        omega
      have hrules : (p.releaseRule idx).rules = p.rules := by rw [heq]
      have hready : (p.releaseRule idx).readyQueue = p.readyQueue ++ [idx] := by rw [heq]
      have hnext : (p.releaseRule idx).nextQueue = p.nextQueue := by rw [heq]
      obtain ⟨hs, hr, hn, hw, hsub, hall⟩ := ih hsort fun i hi => by
        rw [hrules]
        exact hlt i (.tail idx hi)
      rw [hready] at hsub
      refine ⟨hs, hr.trans hrules, hn.trans hnext, hw.trans hwork,
        fun x hx => hsub (List.mem_append_left _ hx), ?_⟩
      intro i hi hno
      by_cases hid : i = idx
      · exact hsub (List.mem_append_right _ (hid ▸ List.mem_singleton_self _))
      · rcases List.mem_cons.mp hi with hi | hi
        · exact absurd hi hid
        · refine hall i hi ?_
          rw [heq]
          intro hmem
          rcases Finset.mem_insert.mp hmem with hmem | hmem
          · exact hid hmem
          · exact hno hmem

omit h

omit [DecidableEq Expr] in
theorem mem_candidates {p : RulePartitioner Expr} {i : Nat} :
    i ∈ p.candidates ↔ i < p.rules.length ∧ i ∉ p.output ∧ 0 < p.numPredecessors i := by
  simp [candidates]

include h

theorem Sorting.exists_predecessor (hready : p.readyQueue = [])
    (hnext : p.nextQueue = []) {j : Nat} (hj : j ∈ p.candidates) :
    ∃ i ∈ p.candidates, p.OpenEdge i j := by
  obtain ⟨-, hout, hpos⟩ := mem_candidates.mp hj
  have hsum : 0 < ∑ i ∈ Finset.range p.rules.length \ popped, p.countEdges i j :=
    hpos.trans_le (h.counted j hout)
  obtain ⟨i, hi, hne⟩ := Finset.exists_ne_zero_of_sum_ne_zero hsum.ne'
  obtain ⟨hlt, hnp⟩ := Finset.mem_sdiff.mp hi
  have hlt := Finset.mem_range.mp hlt
  have hedge : 0 < p.countEdges i j := Nat.pos_of_ne_zero hne
  obtain ⟨e, he, hej⟩ := List.countP_pos_iff.mp hedge
  have hwait : ¬ (i ∈ p.output ∨ p.numPredecessors i = 0) := by
    intro hi'
    rcases h.queued i hlt hi' with hp | hp | hp
    · exact hnp hp
    · rw [hready] at hp
      cases hp
    · rw [hnext] at hp
      cases hp
  rw [not_or] at hwait
  exact ⟨i, mem_candidates.mpr ⟨hlt, hwait.1, Nat.pos_of_ne_zero hwait.2⟩,
    ⟨e, he, of_decide_eq_true hej⟩, hout⟩

theorem handleCycle_spec (hready : p.readyQueue = [])
    (hnext : p.nextQueue = []) (hnot : p.topologicalSortFinished = false)
    (hok : p.handleCycle = .ok p') :
    p'.Sorting popped ∧ p'.rules = p.rules ∧ p'.nextQueue = [] ∧ p'.work = p.work ∧
      p'.readyQueue ≠ [] := by
  have hne : p.candidates ≠ [] := by
    intro hnil
    rw [topologicalSortFinished, List.all_eq_false] at hnot
    obtain ⟨i, hi, hno⟩ := hnot
    simp only [decide_eq_true_eq, not_or] at hno
    have hmem : i ∈ p.candidates := mem_candidates.mpr
      ⟨List.mem_range.mp hi, hno.1, Nat.pos_of_ne_zero hno.2⟩
    rw [hnil] at hmem
    cases hmem
  have hnone := findCycleFrom_ne_none hne fun j hj => h.exists_predecessor hready hnext hj
  have hlt : ∀ i ∈ p.candidates, i < p.rules.length := fun i hi => (mem_candidates.mp hi).1
  rw [handleCycle] at hok
  cases hfind : p.findCycleFrom p.candidates with
  | error e => rw [hfind] at hok; cases hok
  | ok found =>
    cases found with
    | none => exact absurd hfind hnone
    | some cycle =>
      rw [hfind] at hok
      cases hok
      obtain ⟨⟨start, hs, hmem⟩, hcycle⟩ := findCycleFrom_some hfind hlt
      obtain ⟨hsort, hr, hn, hw, -, hall⟩ := foldl_releaseRule h hcycle
      refine ⟨hsort, hr, hn.trans hnext, hw, ?_⟩
      have hin := hall start hmem (mem_candidates.mp hs).2.1
      exact List.ne_nil_of_mem hin

omit h

theorem handleCycle_fuel (p : RulePartitioner Expr) : p.handleCycle ≠ .error .outOfFuel := by
  have hlt : ∀ i ∈ p.candidates, i < p.rules.length := fun i hi => (mem_candidates.mp hi).1
  have hfuel := findCycleFrom_fuel hlt
  rw [handleCycle]
  cases hfind : p.findCycleFrom p.candidates with
  | error e =>
    intro h
    cases h
    exact hfuel hfind
  | ok found =>
    cases found <;> intro h <;> cases h

include h in
theorem afterPartition_spec (hready : p.readyQueue = [])
    (hok : p.afterPartition = .ok p') :
    p'.Sorting popped ∧ p'.rules = p.rules ∧ p'.nextQueue = [] ∧ p'.work = p.work ∧
      (p'.readyQueue = [] → p'.topologicalSortFinished = true) := by
  have hwork : p.resetStratification.work = p.work := by
    simp only [work, resetStratification, hready, List.nil_append, List.length_nil]
    omega
  rw [afterPartition] at hok
  split_ifs at hok with hcond
  · simp only [Bool.and_eq_true, List.isEmpty_iff, Bool.not_eq_true'] at hcond
    obtain ⟨hs, hr, hn, hw, hne⟩ := handleCycle_spec h.reset hcond.1 rfl hcond.2 hok
    exact ⟨hs, hr, hn, hw.trans hwork, fun hc => absurd hc hne⟩
  · cases hok
    refine ⟨h.reset, rfl, rfl, hwork, ?_⟩
    intro hre
    by_contra hno
    exact hcond (by simp [hre, hno])

theorem afterPartition_fuel (p : RulePartitioner Expr) :
    p.afterPartition ≠ .error .outOfFuel := by
  rw [afterPartition]
  split_ifs
  · exact handleCycle_fuel _
  · intro h
    cases h

include h in
theorem orderLoop_spec {fuel : Nat} (hnext : p.nextQueue = [])
    (hdone : p.readyQueue = [] → p.topologicalSortFinished = true)
    (hwork : p.work ≤ 2 * p.rules.length) (hfuel : p.work < fuel) :
    orderLoop fuel p ≠ .error .outOfFuel ∧ ∀ strata, orderLoop fuel p = .ok strata →
      (∀ r ∈ strata.flatten, r ∈ p.rules) ∧
      ∀ i r, p.rules[i]? = some r → i ∈ popped ∨ r ∈ strata.flatten := by
  induction fuel generalizing p popped with
  | zero => omega
  | succ fuel ih =>
    rw [orderLoop]
    by_cases hempty : p.readyQueue = []
    · rw [if_pos (List.isEmpty_iff.mpr hempty)]
      refine ⟨nofun, ?_⟩
      intro strata hok
      cases hok
      refine ⟨nofun, ?_⟩
      intro i r hr
      have hfin := hdone hempty
      rw [topologicalSortFinished, List.all_eq_true] at hfin
      have hi : i < p.rules.length := (List.getElem?_eq_some_iff.mp hr).1
      have hout := of_decide_eq_true (hfin i (List.mem_range.mpr hi))
      rcases h.queued i hi hout with hp | hp | hp
      · exact .inl hp
      · rw [hempty] at hp
        cases hp
      · rw [hnext] at hp
        cases hp
    · rw [if_neg fun hc => hempty (List.isEmpty_iff.mp hc)]
      obtain ⟨L, hL, hsort, hready, hrules, hle, hlt⟩ :=
        getPartition_spec h (Nat.lt_succ_of_le hwork)
      simp only
      generalize p.getPartition (2 * p.rules.length + 1) = result
        at hL hsort hready hrules hle hlt ⊢
      have hlt := hlt hempty
      cases hafter : result.2.afterPartition with
      | error e =>
        refine ⟨?_, nofun⟩
        intro hc
        cases hc
        exact afterPartition_fuel _ hafter
      | ok p' =>
        obtain ⟨hs, hr, hn, hw, hd⟩ := afterPartition_spec hsort hready hafter
        have hr' := hr.trans hrules
        obtain ⟨hne, hall⟩ := ih hs hn hd (by rw [hr']; omega) (by omega)
        dsimp only
        cases hloop : orderLoop fuel p' with
        | error e =>
          refine ⟨?_, nofun⟩
          intro hc
          cases hc
          exact hne hloop
        | ok strata =>
          refine ⟨nofun, ?_⟩
          intro strata' hc
          cases hc
          obtain ⟨hsub, hcov⟩ := hall strata hloop
          rw [hr'] at hsub hcov
          simp only [List.flatten_cons, List.mem_append]
          constructor
          · intro r hmem
            rcases hmem with hmem | hmem
            · rw [hL] at hmem
              obtain ⟨i, -, hi⟩ := List.mem_filterMap.mp hmem
              exact List.mem_of_getElem? hi
            · exact hsub r hmem
          · intro i r hi
            rcases hcov i r hi with hp | hp
            · rcases Finset.mem_union.mp hp with hp | hp
              · refine .inr (.inl ?_)
                rw [hL]
                exact List.mem_filterMap.mpr ⟨i, List.mem_toFinset.mp hp, hi⟩
              · exact .inl hp
            · exact .inr (.inr hp)

theorem new_of_hasNotPattern (h : rules.eraseDups.any hasNotPattern = true) :
    new rules = { rules := rules.eraseDups
                  successors := headSuccessors rules.eraseDups
                  numPredecessors := countPredecessors rules.eraseDups
                  usesIntensionalNegativeEdge := ∅
                  output := ∅
                  readyQueue := (List.range rules.eraseDups.length).filter
                    (fun i => countPredecessors rules.eraseDups i = 0)
                  nextQueue := []
                  purePositive := false } := by
  simp only [new, h, if_true]

theorem sorting_new (h : rules.eraseDups.any hasNotPattern = true) :
    (new rules).Sorting ∅ ∧ (new rules).nextQueue = [] ∧ (new rules).purePositive = false ∧
      (new rules).work ≤ 2 * (new rules).rules.length := by
  rw [new_of_hasNotPattern h]
  refine ⟨⟨?_, ?_⟩, rfl, rfl, ?_⟩
  · intro i hi hout
    refine .inr (.inl ?_)
    have hz : countPredecessors rules.eraseDups i = 0 := by
      rcases hout with hout | hout
      · cases hout
      · exact hout
    exact List.mem_filter.mpr ⟨List.mem_range.mpr hi, by simp [hz]⟩
  · intro j _
    apply le_of_eq
    rw [Finset.sdiff_empty]
    exact List.countP_flatMap
  · have hle := List.length_filter_le (fun i => decide (countPredecessors rules.eraseDups i = 0))
      (List.range rules.eraseDups.length)
    rw [List.length_range] at hle
    simp only [work, Finset.sdiff_empty, Finset.card_range, List.length_nil]
    omega

theorem not_finished_new (h : rules.eraseDups.any hasNotPattern = true)
    (hready : (new rules).readyQueue = []) :
    (new rules).topologicalSortFinished = false := by
  obtain ⟨hsort, hnext, -, -⟩ := sorting_new h
  obtain ⟨r, hr, -⟩ := List.any_eq_true.mp h
  have hrules : (new rules).rules = rules.eraseDups := by
    simp only [new, h, if_true]
  have hpos : 0 < (new rules).rules.length := by
    rw [hrules]
    exact List.length_pos_of_mem hr
  rw [topologicalSortFinished, List.all_eq_false]
  refine ⟨0, List.mem_range.mpr hpos, ?_⟩
  intro hout
  rcases hsort.queued 0 hpos (of_decide_eq_true hout) with hp | hp | hp
  · cases hp
  · rw [hready] at hp
    cases hp
  · rw [hnext] at hp
    cases hp

theorem orderRules_spec (rules : List (Rule Expr)) :
    (new rules).orderRules ≠ .error .outOfFuel ∧
      ∀ strata, (new rules).orderRules = .ok strata → ∀ r, r ∈ strata.flatten ↔ r ∈ rules := by
  by_cases h : rules.eraseDups.any hasNotPattern = true
  · obtain ⟨hsort, hnext, hpure, hwork⟩ := sorting_new h
    have hrules : (new rules).rules = rules.eraseDups := by
      simp only [new, h, if_true]
    have hloop : ∀ p : RulePartitioner Expr, p.Sorting ∅ → p.nextQueue = [] →
        (p.readyQueue = [] → p.topologicalSortFinished = true) → p.rules = rules.eraseDups →
        p.work ≤ 2 * p.rules.length → orderLoop (2 * p.rules.length + 1) p ≠ .error .outOfFuel ∧
          ∀ strata, orderLoop (2 * p.rules.length + 1) p = .ok strata →
            ∀ r, r ∈ strata.flatten ↔ r ∈ rules := by
      intro p hs hn hd hr hw
      obtain ⟨hne, hall⟩ := orderLoop_spec hs hn hd hw (Nat.lt_succ_of_le hw)
      refine ⟨hne, ?_⟩
      intro strata hok r
      obtain ⟨hsub, hcov⟩ := hall strata hok
      rw [hr] at hsub hcov
      constructor
      · exact fun hmem => List.mem_eraseDups.mp (hsub r hmem)
      · intro hmem
        obtain ⟨i, hi⟩ := List.mem_iff_getElem?.mp (List.mem_eraseDups.mpr hmem)
        exact (hcov i r hi).resolve_left (by simp)
    rw [orderRules, hpure]
    simp only [Bool.false_eq_true, if_false]
    by_cases hready : (new rules).readyQueue = []
    · rw [if_pos (List.isEmpty_iff.mpr hready)]
      have hnot := not_finished_new h hready
      cases hcycle : (new rules).handleCycle with
      | error e =>
        refine ⟨?_, nofun⟩
        intro hc
        cases hc
        exact handleCycle_fuel _ hcycle
      | ok p =>
        obtain ⟨hs, hr, hn, hw, hne⟩ := handleCycle_spec hsort hready hnext hnot hcycle
        have hwork' : p.work ≤ 2 * p.rules.length := by
          rw [hw, hr]
          exact hwork
        exact hloop p hs hn (fun hc => absurd hc hne) (hr.trans hrules) hwork'
    · rw [if_neg fun hc => hready (List.isEmpty_iff.mp hc)]
      exact hloop _ hsort hnext (fun hc => absurd hc hready) hrules hwork
  · have hnew : new rules = ⟨rules.eraseDups, fun _ => [], fun _ => 0, ∅, ∅, [], [], true⟩ := by
      simp only [new, h, Bool.false_eq_true, if_false]
    rw [hnew, orderRules]
    refine ⟨nofun, ?_⟩
    intro strata hok
    cases hok
    intro r
    simp only
    split_ifs with hempty
    · have hnil := List.isEmpty_iff.mp hempty
      have hmem := List.mem_eraseDups (a := r) (l := rules)
      rw [hnil] at hmem
      exact hmem
    · rw [List.flatten_singleton]
      exact List.mem_eraseDups

end RulePartitioner

end RdfDatalog.Datalog
