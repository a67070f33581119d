import RdfDatalog.Datalog.StratifierCoverage
import RdfDatalog.Datalog.GroundRules

namespace RdfDatalog.Datalog

open Relation

variable {Expr : Type} [DecidableEq Expr]

namespace RulePartitioner

/-- An edge of the dependency graph, between the positions of two rules. -/
def Edge (p : RulePartitioner Expr) (negative : Bool) (i j : Nat) : Prop :=
  i < p.rules.length ∧ ∃ e ∈ p.successors i,
    ruleIndex p.rules e.getRule = some j ∧ e.isNegative = negative

/-- Every rule of `X` has a predecessor in `X`. -/
def ClosedBack (p : RulePartitioner Expr) (X : Set Nat) : Prop :=
  ∀ x ∈ X, ∃ s, ∃ y ∈ X, p.Edge s y x

theorem ClosedBack.congr {p q : RulePartitioner Expr} {X : Set Nat} (h : p.ClosedBack X)
    (hrules : q.rules = p.rules) (hsucc : q.successors = p.successors) : q.ClosedBack X := by
  intro x hx
  obtain ⟨s, y, hy, hyx⟩ := h x hx
  refine ⟨s, y, hy, ?_⟩
  rw [Edge, hrules, hsucc]
  exact hyx

/-- The edges to the rule at `j` that are still to be counted off: those of the rules that are not
popped, and those of `edges`. -/
def remaining (p : RulePartitioner Expr) (popped : Finset Nat) (edges : List (PatternEdge Expr))
    (j : Nat) : Nat :=
  ∑ i ∈ Finset.range p.rules.length \ popped, p.countEdges i j +
    edges.countP fun e => ruleIndex p.rules e.getRule = some j

/-- The sort within a stratum. `done` are the rules of earlier strata, `layer` those of this one so
far, and `edges` the edges of the last of them that are still to be followed. `released` are the
rules a cycle break let through, and `X` is a set of rules that none of this has touched. -/
structure Placing (p : RulePartitioner Expr) (done layer : Finset Nat)
    (edges : List (PatternEdge Expr)) (released : Nat → Prop) (X : Set Nat) : Prop where
  exact : ∀ j ∉ p.output, p.numPredecessors j = p.remaining (done ∪ layer) edges j
  idle : ∀ j ∉ p.output, p.numPredecessors j = 0 → ∀ s i, ¬ p.Edge s i j
  nodup : (p.readyQueue ++ p.nextQueue).Nodup
  fresh : ∀ i ∈ p.readyQueue ++ p.nextQueue, i ∉ done ∪ layer
  placed : ∀ i < p.rules.length, i ∈ p.output ∨ p.numPredecessors i = 0 →
    i ∈ done ∪ layer ∨ i ∈ p.readyQueue ++ p.nextQueue
  queued : ∀ i, i ∈ done ∪ layer ∨ i ∈ p.readyQueue ++ p.nextQueue →
    i < p.rules.length ∧ (i ∈ p.output ∨ p.numPredecessors i = 0)
  marked : ∀ j ∈ p.usesIntensionalNegativeEdge, ∃ i ∈ layer, p.Edge true i j
  marks : ∀ i ∈ layer, ∀ j, p.Edge true i j → j ∈ p.usesIntensionalNegativeEdge ∨
    ∃ e ∈ edges, ruleIndex p.rules e.getRule = some j ∧ e.isNegative = true
  ready : ∀ j, j ∈ p.readyQueue ∨ j ∈ layer → released j ∨
    ∀ s i, p.Edge s i j → i ∈ done ∨ (s = false ∧ i ∈ layer)
  next : ∀ j ∈ p.nextQueue, (∃ i ∈ layer, p.Edge true i j) ∧
    ∀ s i, p.Edge s i j → i ∈ done ∪ layer
  clear : ∀ x ∈ X, x ∉ done ∪ layer ∧ x ∉ p.readyQueue ++ p.nextQueue

section Step

variable {p : RulePartitioner Expr} {done layer : Finset Nat} {edges : List (PatternEdge Expr)}
  {released : Nat → Prop} {X : Set Nat}

theorem countEdges_pos {s : Bool} {i j : Nat} (h : p.Edge s i j) : 0 < p.countEdges i j := by
  obtain ⟨-, e, he, hj, -⟩ := h
  exact List.countP_pos_iff.mpr ⟨e, he, decide_eq_true hj⟩

theorem mem_of_remaining_eq_zero {popped : Finset Nat} {j : Nat}
    (h : p.remaining popped edges j = 0) {s : Bool} {i : Nat} (hij : p.Edge s i j) :
    i ∈ popped := by
  by_contra hno
  have hmem : i ∈ Finset.range p.rules.length \ popped :=
    Finset.mem_sdiff.mpr ⟨Finset.mem_range.mpr hij.1, hno⟩
  have hle : p.countEdges i j ≤ ∑ k ∈ Finset.range p.rules.length \ popped, p.countEdges k j :=
    Finset.single_le_sum (fun k _ => Nat.zero_le (p.countEdges k j)) hmem
  have hpos := countEdges_pos hij
  rw [remaining] at h
  omega

theorem remaining_cons (popped : Finset Nat) (e : PatternEdge Expr) (j : Nat) :
    p.remaining popped (e :: edges) j = p.remaining popped edges j +
      if ruleIndex p.rules e.getRule = some j then 1 else 0 := by
  rw [remaining, remaining, List.countP_cons, Nat.add_assoc]
  simp only [decide_eq_true_eq]

theorem Placing.enqueue (h : p.Placing done layer edges released X) {dep : Nat}
    (hlt : dep < p.rules.length) (hout : dep ∉ p.output) (hpos : p.numPredecessors dep ≠ 0)
    (hX : dep ∉ X) {queue : List Nat} (hperm : queue.Perm (dep :: (p.readyQueue ++ p.nextQueue)))
    {count : Nat → Nat} (hcount : ∀ i, i ≠ dep → count i = p.numPredecessors i) :
    queue.Nodup ∧ (∀ i ∈ queue, i ∉ done ∪ layer) ∧
      (∀ i < p.rules.length, i ∈ insert dep p.output ∨ count i = 0 → i ∈ done ∪ layer ∨ i ∈ queue) ∧
      (∀ i, i ∈ done ∪ layer ∨ i ∈ queue →
        i < p.rules.length ∧ (i ∈ insert dep p.output ∨ count i = 0)) ∧
      ∀ x ∈ X, x ∉ done ∪ layer ∧ x ∉ queue := by
  have hwait : ¬ (dep ∈ p.output ∨ p.numPredecessors dep = 0) := not_or.mpr ⟨hout, hpos⟩
  have hnew : dep ∉ p.readyQueue ++ p.nextQueue :=
    fun hc => hwait (h.queued dep (.inr hc)).2
  have hpopped : dep ∉ done ∪ layer := fun hc => hwait (h.queued dep (.inl hc)).2
  have hmem : ∀ i, i ∈ queue ↔ i = dep ∨ i ∈ p.readyQueue ++ p.nextQueue :=
    fun i => hperm.mem_iff.trans List.mem_cons
  refine ⟨hperm.nodup_iff.mpr (List.nodup_cons.mpr ⟨hnew, h.nodup⟩), ?_, ?_, ?_, ?_⟩
  · intro i hi
    rcases (hmem i).mp hi with rfl | hi
    · exact hpopped
    · exact h.fresh i hi
  · intro i hi hio
    by_cases hid : i = dep
    · exact .inr ((hmem i).mpr (.inl hid))
    · rw [Finset.mem_insert, hcount i hid] at hio
      have hold := h.placed i hi (hio.imp_left fun hc => hc.resolve_left hid)
      exact hold.imp_right fun hq => (hmem i).mpr (.inr hq)
  · intro i hi
    by_cases hid : i = dep
    · exact ⟨hid ▸ hlt, .inl (hid ▸ Finset.mem_insert_self _ _)⟩
    · have hold := h.queued i (hi.imp_right fun hq => ((hmem i).mp hq).resolve_left hid)
      rw [hcount i hid]
      exact ⟨hold.1, hold.2.imp_left Finset.mem_insert_of_mem⟩
  · intro x hx
    refine ⟨(h.clear x hx).1, ?_⟩
    intro hq
    rcases (hmem x).mp hq with rfl | hq
    · exact hX hx
    · exact (h.clear x hx).2 hq

/-- What is known of the rules when an edge to the one at `dep` is counted off; `uses` are those
that are marked then. -/
structure Followed (p : RulePartitioner Expr) (popped layer : Finset Nat)
    (edges : List (PatternEdge Expr)) (uses : Finset Nat) (dep : Nat) : Prop where
  marked : ∀ j ∈ uses, ∃ i ∈ layer, p.Edge true i j
  marks : ∀ i ∈ layer, ∀ j, p.Edge true i j → j ∈ uses ∨
    ∃ e ∈ edges, ruleIndex p.rules e.getRule = some j ∧ e.isNegative = true
  other : ∀ j ∉ p.output, j ≠ dep → p.numPredecessors j = p.remaining popped edges j
  this : dep ∉ p.output → p.numPredecessors dep = p.remaining popped edges dep + 1

section Follow

variable {e : PatternEdge Expr} {uses : Finset Nat} {dep : Nat}

theorem Followed.preds (h : p.Followed (done ∪ layer) layer edges uses dep) (hout : dep ∉ p.output)
    (hone : p.numPredecessors dep = 1) {s : Bool} {i : Nat} (hij : p.Edge s i dep) :
    i ∈ done ∪ layer := by
  have hthis := h.this hout
  have hzero : p.remaining (done ∪ layer) edges dep = 0 := by omega
  exact mem_of_remaining_eq_zero hzero hij

/-- A negative edge of this stratum would have marked the rule. -/
theorem Followed.preds_of_unmarked (h : p.Followed (done ∪ layer) layer edges uses dep)
    (hout : dep ∉ p.output) (hone : p.numPredecessors dep = 1) (hneg : dep ∉ uses) {s : Bool}
    {i : Nat} (hij : p.Edge s i dep) : i ∈ done ∨ (s = false ∧ i ∈ layer) := by
  rcases Finset.mem_union.mp (h.preds hout hone hij) with hi | hi
  · exact .inl hi
  · refine .inr ⟨?_, hi⟩
    cases s with
    | false => rfl
    | true =>
      obtain ⟨e', he', hj, -⟩ := (h.marks i hi dep hij).resolve_left hneg
      have hpos : 0 < edges.countP fun e => ruleIndex p.rules e.getRule = some dep :=
        List.countP_pos_iff.mpr ⟨e', he', decide_eq_true hj⟩
      have hthis := h.this hout
      rw [remaining] at hthis
      omega

theorem Placing.followed {idx : Nat} (h : p.Placing done layer (e :: edges) released X)
    (hidx : idx ∈ layer) (hdep : ruleIndex p.rules e.getRule = some dep)
    (hedge : p.Edge e.isNegative idx dep)
    (huses : ∀ j, j ∈ uses ↔
      (j ∈ p.usesIntensionalNegativeEdge ∨ (j = dep ∧ e.isNegative = true))) :
    p.Followed (done ∪ layer) layer edges uses dep := by
  refine ⟨?_, ?_, ?_, ?_⟩
  · intro j hj
    rcases (huses j).mp hj with hj | ⟨rfl, hneg⟩
    · exact h.marked j hj
    · exact ⟨idx, hidx, hneg ▸ hedge⟩
  · intro i hi j hij
    rcases h.marks i hi j hij with hj | ⟨e', he', hj, hneg⟩
    · exact .inl ((huses j).mpr (.inl hj))
    · rcases List.mem_cons.mp he' with rfl | he'
      · exact .inl ((huses j).mpr (.inr ⟨(Option.some.inj (hdep.symm.trans hj)).symm, hneg⟩))
      · exact .inr ⟨e', he', hj, hneg⟩
  · intro j hj hne
    have hexact := h.exact j hj
    rw [remaining_cons, hdep, if_neg fun hc => hne (Option.some.inj hc).symm] at hexact
    exact hexact
  · intro hout
    have hexact := h.exact dep hout
    rw [remaining_cons, hdep, if_pos rfl] at hexact
    exact hexact

theorem Placing.update_unknown (h : p.Placing done layer (e :: edges) released X)
    (hnone : ruleIndex p.rules e.getRule = none) : p.Placing done layer edges released X := by
  refine ⟨?_, h.idle, h.nodup, h.fresh, h.placed, h.queued, h.marked, ?_, h.ready, h.next,
    h.clear⟩
  · intro j hj
    have hexact := h.exact j hj
    rw [remaining_cons, hnone, if_neg (by simp)] at hexact
    exact hexact
  · intro i hi j hij
    rcases h.marks i hi j hij with hj | ⟨e', he', hj, hneg⟩
    · exact .inl hj
    · rcases List.mem_cons.mp he' with rfl | he'
      · rw [hnone] at hj
        cases hj
      · exact .inr ⟨e', he', hj, hneg⟩

variable (h : p.Placing done layer (e :: edges) released X)
  (hfollowed : p.Followed (done ∪ layer) layer edges uses dep)

include h hfollowed

theorem Placing.update_sorted (hdone : dep ∈ p.output) :
    ({ p with usesIntensionalNegativeEdge := uses } : RulePartitioner Expr).Placing done layer
      edges released X := by
  refine ⟨fun j hj => hfollowed.other j hj ?_, h.idle, h.nodup, h.fresh, h.placed, h.queued,
    hfollowed.marked, hfollowed.marks, h.ready, h.next, h.clear⟩
  rintro rfl
  exact hj hdone

theorem Placing.update_waiting (hmany : 1 < p.numPredecessors dep) :
    ({ p with
        usesIntensionalNegativeEdge := uses
        numPredecessors := Function.update p.numPredecessors dep (p.numPredecessors dep - 1) } :
      RulePartitioner Expr).Placing done layer edges released X := by
  have hcount (i : Nat) (hid : i ≠ dep) :
      Function.update p.numPredecessors dep (p.numPredecessors dep - 1) i = p.numPredecessors i :=
    Function.update_of_ne hid _ _
  have hzero {j : Nat}
      (hz : Function.update p.numPredecessors dep (p.numPredecessors dep - 1) j = 0) :
      p.numPredecessors j = 0 := by
    by_cases hjd : j = dep
    · rw [hjd, Function.update_self] at hz
      omega
    · rwa [hcount j hjd] at hz
  refine ⟨?_, fun j hj hz => h.idle j hj (hzero hz), h.nodup, h.fresh,
    fun i hi hio => h.placed i hi (hio.imp_right hzero), ?_, hfollowed.marked, hfollowed.marks,
    h.ready, h.next, h.clear⟩
  · intro j hj
    by_cases hjd : j = dep
    · subst hjd
      have hself := Function.update_self j (p.numPredecessors j - 1) p.numPredecessors
      exact hself.trans (by rw [hfollowed.this hj]; rfl)
    · exact (hcount j hjd).trans (hfollowed.other j hj hjd)
  · intro i hi
    obtain ⟨hilt, hio⟩ := h.queued i hi
    refine ⟨hilt, hio.imp_right fun hz => (hcount i ?_).trans hz⟩
    rintro rfl
    omega

/-- The last predecessor is counted off, and the rule goes into one of the queues. -/
theorem Placing.update_last (hX : p.ClosedBack X) (hlt : dep < p.rules.length)
    (hout : dep ∉ p.output) (hone : p.numPredecessors dep = 1) (readyQueue nextQueue : List Nat)
    (hperm : (readyQueue ++ nextQueue).Perm (dep :: (p.readyQueue ++ p.nextQueue)))
    (hready : ∀ j, j ∈ readyQueue ∨ j ∈ layer → released j ∨
      ∀ s i, p.Edge s i j → i ∈ done ∨ (s = false ∧ i ∈ layer))
    (hnext : ∀ j ∈ nextQueue, (∃ i ∈ layer, p.Edge true i j) ∧
      ∀ s i, p.Edge s i j → i ∈ done ∪ layer) :
    ({ p with
        usesIntensionalNegativeEdge := uses
        numPredecessors := Function.update p.numPredecessors dep 0
        output := insert dep p.output
        readyQueue
        nextQueue } : RulePartitioner Expr).Placing done layer edges released X := by
  have hcount (i : Nat) (hid : i ≠ dep) :
      Function.update p.numPredecessors dep 0 i = p.numPredecessors i :=
    Function.update_of_ne hid _ _
  have hnotX : dep ∉ X := by
    intro hx
    obtain ⟨s, y, hy, hyx⟩ := hX dep hx
    exact (h.clear y hy).1 (hfollowed.preds hout hone hyx)
  obtain ⟨hnodup, hfresh, hplaced, hqueued, hclear⟩ :=
    h.enqueue hlt hout (by omega) hnotX hperm hcount
  refine ⟨fun j hj => ?_, fun j hj hz => ?_, hnodup, hfresh, hplaced, hqueued, hfollowed.marked,
    hfollowed.marks, hready, hnext, hclear⟩
  · obtain ⟨hjd, hout⟩ := not_or.mp (mt Finset.mem_insert.mpr hj)
    exact (hcount j hjd).trans (hfollowed.other j hout hjd)
  · obtain ⟨hjd, hout⟩ := not_or.mp (mt Finset.mem_insert.mpr hj)
    exact h.idle j hout ((hcount j hjd).symm.trans hz)

end Follow

theorem Placing.update {e : PatternEdge Expr} (h : p.Placing done layer (e :: edges) released X)
    (hX : p.ClosedBack X) (he : ∃ i ∈ layer, i < p.rules.length ∧ e ∈ p.successors i) :
    (p.updateSuccessor e).Placing done layer edges released X := by
  obtain ⟨idx, hidx, hlt, hmem⟩ := he
  rcases p.updateSuccessor_cases e with ⟨hnone, heq⟩ | ⟨dep, uses, hdep, huses, hcase⟩
  · rw [heq]
    exact h.update_unknown hnone
  · have hedge : p.Edge e.isNegative idx dep := ⟨hlt, e, hmem, hdep, rfl⟩
    have hfollowed := h.followed hidx hdep hedge huses
    rcases hcase with ⟨hskip, heq⟩ | ⟨-, hmany, heq⟩ | ⟨hout, hone, hcase⟩
    · rw [heq]
      refine h.update_sorted hfollowed ?_
      by_contra hout
      exact h.idle dep hout (hskip.resolve_left hout) _ idx hedge
    · rw [heq]
      exact h.update_waiting hfollowed hmany
    · have hlast := h.update_last hfollowed hX (ruleIndex_lt hdep) hout hone
      rcases hcase with ⟨hneg, heq⟩ | ⟨hneg, heq⟩
      · rw [heq]
        refine hlast p.readyQueue _ ?_ h.ready fun j hj => ?_
        · rw [← List.append_assoc]
          exact List.perm_append_singleton dep _
        · rcases List.mem_append.mp hj with hj | hj
          · exact h.next j hj
          · rw [List.mem_singleton.mp hj]
            exact ⟨hfollowed.marked dep hneg, fun _ _ => hfollowed.preds hout hone⟩
      · rw [heq]
        refine hlast _ p.nextQueue ?_ (fun j hj => ?_) h.next
        · rw [List.append_assoc]
          exact List.perm_middle
        · rcases hj.imp_left List.mem_append.mp with (hj | hj) | hj
          · exact h.ready j (.inl hj)
          · rw [List.mem_singleton.mp hj]
            exact .inr fun _ _ => hfollowed.preds_of_unmarked hout hone hneg
          · exact h.ready j (.inr hj)

theorem updateSuccessor_graph (p : RulePartitioner Expr) (e : PatternEdge Expr) :
    (p.updateSuccessor e).rules = p.rules ∧ (p.updateSuccessor e).successors = p.successors :=
  ⟨(p.updateSuccessor_advances e).rules, (p.updateSuccessor_advances e).successors⟩

theorem Placing.updates {idx : Nat} (h : p.Placing done layer edges released X)
    (hX : p.ClosedBack X) (hidx : idx ∈ layer)
    (hlt : idx < p.rules.length) (hedges : ∀ e ∈ edges, e ∈ p.successors idx) :
    (edges.foldl updateSuccessor p).Placing done layer [] released X := by
  induction edges generalizing p with
  | nil => exact h
  | cons e edges ih =>
    obtain ⟨hrules, hsucc⟩ := p.updateSuccessor_graph e
    refine ih (h.update hX ⟨idx, hidx, hlt, hedges e (.head _)⟩) (hX.congr hrules hsucc) ?_ ?_
    · rw [hrules]
      exact hlt
    · intro e' he'
      rw [hsucc]
      exact hedges e' (.tail e he')

variable (h : p.Placing done layer [] released X)

include h

theorem Placing.pop {idx : Nat} {rest : List Nat}
    (hready : p.readyQueue = idx :: rest) :
    ({ p with readyQueue := rest } : RulePartitioner Expr).Placing done (insert idx layer)
      (p.successors idx) released X := by
  have hqueue : p.readyQueue ++ p.nextQueue = idx :: (rest ++ p.nextQueue) := by rw [hready]; rfl
  have hfresh := h.fresh idx (by rw [hqueue]; exact .head _)
  obtain ⟨hlt, hidx⟩ := h.queued idx (.inr (by rw [hqueue]; exact .head _))
  have hnodup := h.nodup
  rw [hqueue] at hnodup
  obtain ⟨hnew, hrest⟩ := List.nodup_cons.mp hnodup
  have hunion : done ∪ insert idx layer = insert idx (done ∪ layer) := Finset.union_insert _ _ _
  refine ⟨?_, h.idle, hrest, ?_, ?_, ?_, ?_, ?_, ?_, ?_, ?_⟩
  · intro j hj
    have hexact := h.exact j hj
    have hmem : idx ∈ Finset.range p.rules.length \ (done ∪ layer) :=
      Finset.mem_sdiff.mpr ⟨Finset.mem_range.mpr hlt, hfresh⟩
    have hsdiff : Finset.range p.rules.length \ (done ∪ insert idx layer) =
        (Finset.range p.rules.length \ (done ∪ layer)).erase idx := by
      rw [hunion, Finset.sdiff_insert]
    have hsum := Finset.add_sum_erase _ (fun i => p.countEdges i j) hmem
    change p.numPredecessors j = ∑ i ∈ Finset.range p.rules.length \ (done ∪ insert idx layer),
      p.countEdges i j + p.countEdges idx j
    rw [remaining, List.countP_nil, Nat.add_zero] at hexact
    rw [hsdiff, hexact, Nat.add_comm]
    exact hsum.symm
  · intro i hi
    rw [hunion, Finset.mem_insert]
    rintro (rfl | hc)
    · exact hnew hi
    · exact h.fresh i (by rw [hqueue]; exact .tail _ hi) hc
  · intro i hi hio
    rcases h.placed i hi hio with hp | hp
    · exact .inl (by rw [hunion]; exact Finset.mem_insert_of_mem hp)
    · rw [hqueue] at hp
      rcases List.mem_cons.mp hp with rfl | hp
      · exact .inl (by rw [hunion]; exact Finset.mem_insert_self _ _)
      · exact .inr hp
  · intro i hi
    refine h.queued i ?_
    rw [hqueue]
    rcases hi with hi | hi
    · rw [hunion] at hi
      rcases Finset.mem_insert.mp hi with rfl | hi
      · exact .inr (.head _)
      · exact .inl hi
    · exact .inr (.tail _ hi)
  · intro j hj
    obtain ⟨i, hi, hij⟩ := h.marked j hj
    exact ⟨i, Finset.mem_insert_of_mem hi, hij⟩
  · intro i hi j hij
    rcases Finset.mem_insert.mp hi with rfl | hi
    · obtain ⟨-, e, he, hj, hneg⟩ := hij
      exact .inr ⟨e, he, hj, hneg⟩
    · rcases h.marks i hi j hij with hj | ⟨e, he, -⟩
      · exact .inl hj
      · cases he
  · intro j hj
    have hold : j ∈ p.readyQueue ∨ j ∈ layer := by
      rw [hready]
      rcases hj with hj | hj
      · exact .inl (.tail _ hj)
      · rcases Finset.mem_insert.mp hj with rfl | hj
        · exact .inl (.head _)
        · exact .inr hj
    refine (h.ready j hold).imp_right fun hall s i hij => ?_
    exact (hall s i hij).imp_right fun hi => ⟨hi.1, Finset.mem_insert_of_mem hi.2⟩
  · intro j hj
    obtain ⟨⟨i, hi, hij⟩, hall⟩ := h.next j hj
    refine ⟨⟨i, Finset.mem_insert_of_mem hi, hij⟩, fun s k hk => ?_⟩
    rw [hunion]
    exact Finset.mem_insert_of_mem (hall s k hk)
  · intro x hx
    obtain ⟨hp, hq⟩ := h.clear x hx
    rw [hqueue] at hq
    refine ⟨?_, fun hc => hq (.tail _ hc)⟩
    rw [hunion, Finset.mem_insert]
    rintro (rfl | hc)
    · exact hq (.head _)
    · exact hp hc

theorem Placing.getPartition {fuel : Nat}
    (hX : p.ClosedBack X) (hfuel : p.work < fuel) :
    ∃ l : List Nat, (p.getPartition fuel).1 = l.filterMap (fun i => p.rules[i]?) ∧
      l.Nodup ∧ (∀ i ∈ l, i ∉ done ∪ layer) ∧ p.readyQueue ⊆ l ∧
      (p.getPartition fuel).2.Placing done (layer ∪ l.toFinset) [] released X ∧
      (p.getPartition fuel).2.readyQueue = [] ∧ (p.getPartition fuel).2.rules = p.rules ∧
      (p.getPartition fuel).2.successors = p.successors := by
  induction fuel generalizing p layer with
  | zero => omega
  | succ fuel ih =>
    cases hready : p.readyQueue with
    | nil =>
      have hnil : p.getPartition (fuel + 1) = ([], p) := by
        rw [RulePartitioner.getPartition, hready]
      rw [hnil]
      refine ⟨[], rfl, .nil, by simp, List.Subset.refl _, ?_, hready, rfl, rfl⟩
      rw [List.toFinset_nil, Finset.union_empty]
      exact h
    | cons idx rest =>
      have hadv := foldl_updateSuccessor_advances { p with readyQueue := rest } (p.successors idx)
      have hidx : idx ∈ p.readyQueue ++ p.nextQueue := by
        rw [hready]
        exact .head _
      have hstep := (h.pop hready).updates hX (Finset.mem_insert_self idx layer)
        (h.queued idx (.inr hidx)).1 fun _ he => he
      have hwork := work_foldl_updateSuccessor hready
      have hrules := hadv.rules
      have hsucc := hadv.successors
      generalize hp' : (p.successors idx).foldl updateSuccessor { p with readyQueue := rest } = p'
        at hstep hwork hrules hsucc hadv
      change p'.rules = p.rules at hrules
      change p'.successors = p.successors at hsucc
      obtain ⟨l, hl, hnodup, hnew, hsub, hfinal, hempty, hr, hs⟩ :=
        ih hstep (hX.congr hrules hsucc) (by omega)
      have hdef : p.getPartition (fuel + 1) =
          (p'.rules[idx]?.toList ++ (p'.getPartition fuel).1, (p'.getPartition fuel).2) := by
        rw [RulePartitioner.getPartition, hready]
        simp only [hp']
      rw [hdef]
      refine ⟨idx :: l, ?_, ?_, ?_, ?_, ?_, hempty, hr.trans hrules, hs.trans hsucc⟩
      · simp only [hl, hrules, List.filterMap_cons]
        cases p.rules[idx]? <;> rfl
      · refine List.nodup_cons.mpr ⟨?_, hnodup⟩
        intro hc
        exact hnew idx hc (Finset.mem_union_right _ (Finset.mem_insert_self _ _))
      · intro i hi
        rcases List.mem_cons.mp hi with rfl | hi
        · exact h.fresh i hidx
        · intro hc
          refine hnew i hi ?_
          rw [Finset.union_insert]
          exact Finset.mem_insert_of_mem hc
      · intro i hi
        rcases List.mem_cons.mp hi with rfl | hi
        · exact .head _
        · exact .tail _ (hsub (hadv.ready hi))
      · rw [List.toFinset_cons, Finset.union_insert, ← Finset.insert_union]
        exact hfinal

theorem Placing.reset (hready : p.readyQueue = []) :
    p.resetStratification.Placing (done ∪ layer) ∅ [] (fun _ => False) X := by
  have hqueue : p.resetStratification.readyQueue ++ p.resetStratification.nextQueue =
      p.readyQueue ++ p.nextQueue := List.append_nil _
  have hempty : done ∪ layer ∪ ∅ = done ∪ layer := Finset.union_empty _
  refine ⟨?_, h.idle, ?_, ?_, ?_, ?_, ?_, ?_, ?_, ?_, ?_⟩
  · intro j hj
    rw [hempty]
    exact h.exact j hj
  · rw [hqueue]
    exact h.nodup
  · rw [hqueue, hempty]
    exact h.fresh
  · rw [hqueue, hempty]
    exact h.placed
  · rw [hqueue, hempty]
    exact h.queued
  · intro j hj
    cases hj
  · intro i hi
    cases hi
  · intro j hj
    have hnext : j ∈ p.nextQueue := by
      rcases hj with hj | hj
      · have hj : j ∈ p.readyQueue ++ p.nextQueue := hj
        rw [hready] at hj
        exact hj
      · cases hj
    exact .inr fun s i hij => .inl ((h.next j hnext).2 s i hij)
  · intro j hj
    cases hj
  · rw [hqueue, hempty]
    exact h.clear

theorem Placing.release {cycle : List Nat}
    (hcycle : ∀ i ∈ cycle, i < p.rules.length ∧ (i ∈ p.output ∨ p.numPredecessors i ≠ 0) ∧
      released i ∧ i ∉ X) :
    (cycle.foldl releaseRule p).Placing done layer [] released X ∧
      (cycle.foldl releaseRule p).rules = p.rules ∧
      (cycle.foldl releaseRule p).successors = p.successors ∧
      (cycle.foldl releaseRule p).nextQueue = p.nextQueue := by
  induction cycle generalizing p with
  | nil => exact ⟨h, rfl, rfl, rfl⟩
  | cons idx cycle ih =>
    obtain ⟨hlt, hwait, hrel, hX⟩ := hcycle idx (.head _)
    rw [List.foldl_cons]
    by_cases hout : idx ∈ p.output
    · have heq : p.releaseRule idx = p := if_pos hout
      rw [heq]
      exact ih h fun i hi => hcycle i (.tail idx hi)
    · have heq : p.releaseRule idx = { p with
          output := insert idx p.output, readyQueue := p.readyQueue ++ [idx] } := if_neg hout
      have hperm : ((p.readyQueue ++ [idx]) ++ p.nextQueue).Perm
          (idx :: (p.readyQueue ++ p.nextQueue)) := by
        rw [List.append_assoc]
        exact List.perm_middle
      obtain ⟨hnodup, hfresh, hplaced, hqueued, hclear⟩ :=
        h.enqueue hlt hout (hwait.resolve_left hout) hX hperm (fun _ _ => rfl)
      have hstep : (p.releaseRule idx).Placing done layer [] released X := by
        rw [heq]
        refine ⟨?_, ?_, hnodup, hfresh, hplaced, hqueued, h.marked, h.marks, ?_, h.next, hclear⟩
        · exact fun j hj => h.exact j fun hc => hj (Finset.mem_insert_of_mem hc)
        · exact fun j hj => h.idle j fun hc => hj (Finset.mem_insert_of_mem hc)
        · intro j hj
          rcases hj with hj | hj
          · rcases List.mem_append.mp hj with hj | hj
            · exact h.ready j (.inl hj)
            · rw [List.mem_singleton.mp hj]
              exact .inl hrel
          · exact h.ready j (.inr hj)
      have hrest := ih hstep ?_
      · rw [heq] at hrest ⊢
        exact hrest
      · intro i hi
        obtain ⟨hilt, hiw, hir, hiX⟩ := hcycle i (.tail idx hi)
        rw [heq]
        exact ⟨hilt, hiw.imp_left Finset.mem_insert_of_mem, hir, hiX⟩

omit h

theorem Placing.relabel {released' : Nat → Prop} (h : p.Placing done ∅ [] released X)
    (hready : p.readyQueue = []) : p.Placing done ∅ [] released' X := by
  refine ⟨h.exact, h.idle, h.nodup, h.fresh, h.placed, h.queued, h.marked, h.marks, ?_, h.next,
    h.clear⟩
  intro j hj
  rw [hready] at hj
  rcases hj with hj | hj
  · cases hj
  · cases hj

include h in
theorem Placing.sorting : p.Sorting (done ∪ layer) := by
  constructor
  · intro i hi hio
    refine (h.placed i hi hio).imp_right fun hq => ?_
    exact List.mem_append.mp hq
  · intro j hj
    have hexact := h.exact j hj
    rw [remaining, List.countP_nil, Nat.add_zero] at hexact
    exact hexact.le

end Step

section Search

variable {p : RulePartitioner Expr}

/-- A rule of the graph that is not output waits for its predecessors. -/
def EdgesWait (p : RulePartitioner Expr) : Prop :=
  ∀ s i j, p.Edge s i j → j ∉ p.output → j ∈ p.candidates

variable {edges : List (PatternEdge Expr)}

theorem Placing.edgesWait {done layer : Finset Nat} {released : Nat → Prop} {X : Set Nat}
    (h : p.Placing done layer edges released X) :
    p.EdgesWait := by
  intro s i j hij hj
  obtain ⟨-, e, -, hdep, -⟩ := id hij
  refine mem_candidates.mpr ⟨ruleIndex_lt hdep, hj, Nat.pos_of_ne_zero fun hzero => ?_⟩
  exact h.idle j hj hzero s i hij

/-- The search stops at a negative edge between waiting rules, and reports its source. -/
def StopsAt (p : RulePartitioner Expr) (f : Fault Expr) : Prop :=
  ∃ i j r, p.rules[i]? = some r ∧ p.Edge true i j ∧ i ∈ p.candidates ∧
    f = .reasoning (.notStratifiable r)

/-- A path of positive edges that comes back to one of its rules. -/
def Closes (p : RulePartitioner Expr) (path : List Nat) : Prop :=
  ∃ y ∈ path, (path ++ [y]).IsChain (p.Edge false)

/-- What a search leaves: the path of waiting rules that it found, the path it began with, or the
reason why it stopped. -/
def SearchResult (p : RulePartitioner Expr) (path : List Nat) :
    Except (Fault Expr) (Bool × Search) → Prop
  | .ok (true, s) => (∀ x ∈ s.path, x ∈ p.candidates) ∧ p.Closes s.path
  | .ok (false, s) => s.path = path
  | .error f => f = .outOfFuel ∨ p.StopsAt f

theorem searchSuccessors_result (hwait : p.EdgesWait)
    {dfs : Nat → Search → Except (Fault Expr) (Bool × Search)} (hdfs : ∀ dep s, dep ∈ p.candidates →
      (∀ x ∈ s.path, x ∈ p.candidates) → (s.path ++ [dep]).IsChain (p.Edge false) →
      p.SearchResult s.path (dfs dep s)) {idx : Nat} (hidx : idx ∈ p.candidates)
    (hedges : ∀ e ∈ edges, e ∈ p.successors idx) {path : List Nat} {s : Search}
    (hpath : s.path = path ++ [idx]) (hs : ∀ x ∈ s.path, x ∈ p.candidates)
    (hchain : s.path.IsChain (p.Edge false)) :
    p.SearchResult path (p.searchSuccessors dfs idx edges s) := by
  obtain ⟨hlt, -, -⟩ := mem_candidates.mp hidx
  induction edges generalizing s with
  | nil =>
    change s.path.dropLast = path
    rw [hpath, List.dropLast_concat]
  | cons edge edges ih =>
    have hrest : ∀ e ∈ edges, e ∈ p.successors idx := fun e he => hedges e (.tail edge he)
    rw [searchSuccessors]
    cases hdep : ruleIndex p.rules edge.getRule with
    | none => exact ih hrest hpath hs hchain
    | some dep =>
      dsimp only
      split_ifs with hout
      · exact ih hrest hpath hs hchain
      · have hedge : p.Edge edge.isNegative idx dep := ⟨hlt, edge, hedges edge (.head _), hdep, rfl⟩
        have hmem := hwait _ idx dep hedge hout
        have hr : p.rules[idx]? = some p.rules[idx] := List.getElem?_eq_getElem hlt
        rw [hr]
        cases hneg : edge.isNegative with
        | true =>
          rw [hneg] at hedge
          exact .inr ⟨idx, dep, p.rules[idx], hr, hedge, hidx, rfl⟩
        | false =>
          rw [hneg] at hedge
          have hnext : (s.path ++ [dep]).IsChain (p.Edge false) := by
            refine List.isChain_append.mpr ⟨hchain, List.isChain_singleton dep, ?_⟩
            intro x hx y hy
            rw [hpath, List.getLast?_concat] at hx
            cases hx
            cases hy
            exact hedge
          have hresult := hdfs dep s hmem hs hnext
          dsimp only
          cases hd : dfs dep s with
          | error f =>
            rw [hd] at hresult
            exact hresult
          | ok r =>
            obtain ⟨b, s₁⟩ := r
            rw [hd] at hresult
            cases b with
            | true => exact hresult
            | false =>
              have hsame : s₁.path = s.path := hresult
              exact ih hrest (hsame.trans hpath) (hsame ▸ hs) (hsame ▸ hchain)

theorem dfsCycle_result (hwait : p.EdgesWait) (fuel : Nat) {idx : Nat} {s : Search}
    (hidx : idx ∈ p.candidates) (hs : ∀ x ∈ s.path, x ∈ p.candidates)
    (hchain : (s.path ++ [idx]).IsChain (p.Edge false)) :
    p.SearchResult s.path (p.dfsCycle fuel idx s) := by
  induction fuel generalizing idx s with
  | zero => exact .inl rfl
  | succ fuel ih =>
    rw [dfsCycle]
    split_ifs with hv
    · by_cases hon : idx ∈ s.path
      · rw [decide_eq_true hon]
        exact ⟨hs, idx, hon, hchain⟩
      · rw [decide_eq_false hon]
        rfl
    · refine searchSuccessors_result hwait (fun dep s hdep hs hnext => ih hdep hs hnext) hidx
        (fun _ he => he) rfl ?_ hchain
      intro x hx
      rcases List.mem_append.mp hx with hx | hx
      · exact hs x hx
      · rw [List.mem_singleton.mp hx]
        exact hidx

theorem findCycleFrom_result (hwait : p.EdgesWait) {starts : List Nat}
    (hstarts : ∀ i ∈ starts, i ∈ p.candidates) :
    (∀ cycle, p.findCycleFrom starts = .ok (some cycle) →
      (∀ x ∈ cycle, x ∈ p.candidates) ∧ p.Closes cycle) ∧
      ∀ f, p.findCycleFrom starts = .error f → f = .outOfFuel ∨ p.StopsAt f := by
  induction starts with
  | nil => exact ⟨fun cycle h => (by cases h), fun f h => (by cases h)⟩
  | cons i starts ih =>
    have hnil : ∀ x ∈ (Search.mk [] []).path, x ∈ p.candidates := by simp
    have hresult := dfsCycle_result hwait (p.rules.length + 1) (hstarts i (.head _)) hnil
      (List.isChain_singleton i)
    have hrest := ih fun j hj => hstarts j (.tail i hj)
    rw [findCycleFrom]
    cases hd : p.dfsCycle (p.rules.length + 1) i ⟨[], []⟩ with
    | error e =>
      rw [hd] at hresult
      refine ⟨fun cycle h => (by cases h), fun f h => ?_⟩
      cases h
      exact hresult
    | ok r =>
      obtain ⟨b, s⟩ := r
      rw [hd] at hresult
      cases b with
      | true =>
        refine ⟨fun cycle h => ?_, by simp⟩
        cases h
        exact hresult
      | false => exact hrest

/-- Some edge leads from one position to the other. -/
def LinkedAt (p : RulePartitioner Expr) (i j : Nat) : Prop := ∃ s, p.Edge s i j

/-- The sort stops at a negative edge from a rule that a cycle leads to. -/
def Stops (p : RulePartitioner Expr) (f : Fault Expr) : Prop :=
  ∃ i j r, p.rules[i]? = some r ∧ p.Edge true i j ∧
    (∃ c, TransGen p.LinkedAt c c ∧ ReflTransGen p.LinkedAt c i) ∧
      f = .reasoning (.notStratifiable r)

theorem Stops.congr {q : RulePartitioner Expr} {f : Fault Expr} (h : p.Stops f)
    (hrules : p.rules = q.rules) (hsucc : p.successors = q.successors) : q.Stops f := by
  have hedge : p.Edge = q.Edge := by
    funext s i j
    rw [Edge, Edge, hrules, hsucc]
  have hlinked : p.LinkedAt = q.LinkedAt := by
    funext i j
    rw [LinkedAt, LinkedAt, hedge]
  rw [Stops, hrules, hedge, hlinked] at h
  exact h

theorem Placing.linked_of_waiting {done : Finset Nat} {released : Nat → Prop} {X : Set Nat}
    (h : p.Placing done ∅ [] released X) (hready : p.readyQueue = []) (hnext : p.nextQueue = [])
    {i : Nat} (hi : i ∈ p.candidates) :
    ∃ c, TransGen p.LinkedAt c c ∧ ReflTransGen p.LinkedAt c i := by
  have hpred : ∀ j ∈ p.candidates.toFinset, ∃ i ∈ p.candidates.toFinset, p.LinkedAt i j := by
    intro j hj
    obtain ⟨i, hi, ⟨e, he, hdep⟩, -⟩ :=
      h.sorting.exists_predecessor hready hnext (List.mem_toFinset.mp hj)
    exact ⟨i, List.mem_toFinset.mpr hi, _, (mem_candidates.mp hi).1, e, he, hdep, rfl⟩
  exact FinishingOrder.exists_cycle_to hpred (List.mem_toFinset.mpr hi)

end Search

section Run

/-- The states at the head of the main loop. -/
inductive LoopState (rules : List (Rule Expr)) : RulePartitioner Expr → Prop
  | ready : (new rules).purePositive = false → (new rules).readyQueue.isEmpty = false →
    LoopState rules (new rules)
  | broken {p : RulePartitioner Expr} : (new rules).purePositive = false →
    (new rules).readyQueue.isEmpty = true → (new rules).handleCycle = .ok p → LoopState rules p
  | next {p p' : RulePartitioner Expr} : LoopState rules p → p.readyQueue.isEmpty = false →
    (p.getPartition (2 * p.rules.length + 1)).2.afterPartition = .ok p' → LoopState rules p'

/-- The states in which the sort is stuck and looks for a cycle to break. -/
inductive BreaksCycle (rules : List (Rule Expr)) : RulePartitioner Expr → Prop
  | start : (new rules).purePositive = false → (new rules).readyQueue.isEmpty = true →
    BreaksCycle rules (new rules)
  | next {p : RulePartitioner Expr} : LoopState rules p → p.readyQueue.isEmpty = false →
    (p.getPartition (2 * p.rules.length + 1)).2.resetStratification.readyQueue.isEmpty = true →
    (p.getPartition (2 * p.rules.length + 1)).2.resetStratification.topologicalSortFinished =
      false →
    BreaksCycle rules (p.getPartition (2 * p.rules.length + 1)).2.resetStratification

variable {rules : List (Rule Expr)} {X : Set Nat}

theorem purePositive_new (rules : List (Rule Expr)) :
    (new rules).purePositive = !rules.eraseDups.any hasNotPattern := by
  cases h : rules.eraseDups.any hasNotPattern <;>
    simp only [new, h, if_true, Bool.false_eq_true, if_false] <;> rfl

theorem any_hasNotPattern (hpure : (new rules).purePositive = false) :
    rules.eraseDups.any hasNotPattern = true := by
  rw [purePositive_new, Bool.not_eq_false'] at hpure
  exact hpure

theorem placing_new (hpure : (new rules).purePositive = false) (hX : (new rules).ClosedBack X) :
    (new rules).Placing ∅ ∅ [] (fun _ => False) X := by
  have hnew := new_of_hasNotPattern (any_hasNotPattern hpure)
  have hexact : ∀ j, (new rules).numPredecessors j = (new rules).remaining (∅ ∪ ∅) [] j := by
    intro j
    rw [remaining, List.countP_nil, Nat.add_zero, Finset.union_empty, Finset.sdiff_empty, hnew]
    exact List.countP_flatMap
  have hidle : ∀ j, (new rules).numPredecessors j = 0 → ∀ s i, ¬ (new rules).Edge s i j := by
    intro j hzero s i hij
    have hmem := mem_of_remaining_eq_zero ((hexact j).symm.trans hzero) hij
    simp at hmem
  have hready : ∀ i, i ∈ (new rules).readyQueue ↔
      i < (new rules).rules.length ∧ (new rules).numPredecessors i = 0 := by
    intro i
    rw [hnew]
    simp
  have hqueue : (new rules).readyQueue ++ (new rules).nextQueue = (new rules).readyQueue := by
    rw [hnew]
    exact List.append_nil _
  have houtput : (new rules).output = ∅ := by rw [hnew]
  have huses : (new rules).usesIntensionalNegativeEdge = ∅ := by rw [hnew]
  have hnext : (new rules).nextQueue = [] := by rw [hnew]
  refine ⟨fun j _ => hexact j, fun j _ => hidle j, ?_, ?_, ?_, ?_, ?_, ?_, ?_, ?_, ?_⟩
  · rw [hqueue, hnew]
    exact List.nodup_range.filter _
  · intro i _
    simp
  · intro i hi hio
    rw [houtput] at hio
    rw [hqueue]
    exact .inr ((hready i).mpr ⟨hi, hio.resolve_left (by simp)⟩)
  · intro i hi
    rw [hqueue] at hi
    obtain ⟨hlt, hzero⟩ := (hready i).mp (hi.resolve_left (by simp))
    exact ⟨hlt, .inr hzero⟩
  · intro j hj
    rw [huses] at hj
    cases hj
  · intro i hi
    cases hi
  · intro j hj
    have hzero := ((hready j).mp (hj.resolve_right (by simp))).2
    exact .inr fun s i hij => absurd hij (hidle j hzero s i)
  · intro j hj
    rw [hnext] at hj
    cases hj
  · intro x hx
    refine ⟨by simp, ?_⟩
    rw [hqueue]
    intro hc
    obtain ⟨s, y, -, hyx⟩ := hX x hx
    exact hidle x ((hready x).mp hc).2 s y hyx

variable {q : RulePartitioner Expr} {released : Nat → Prop}

theorem handleCycle_placing {p : RulePartitioner Expr} {done : Finset Nat}
    (h : q.Placing done ∅ [] released X) (hready : q.readyQueue = []) (hnext : q.nextQueue = [])
    (hnot : q.topologicalSortFinished = false)
    (hX : ∀ cycle, q.findCycleFrom q.candidates = .ok (some cycle) → ∀ j ∈ cycle, j ∉ X)
    (hok : q.handleCycle = .ok p) :
    ∃ cycle, q.findCycleFrom q.candidates = .ok (some cycle) ∧
      (∀ j ∈ cycle, j ∈ q.candidates ∧ j ∈ p.readyQueue) ∧ p.Placing done ∅ [] (· ∈ cycle) X ∧
      p.rules = q.rules ∧ p.successors = q.successors ∧ p.nextQueue = [] ∧ p.work = q.work ∧
      p.readyQueue ≠ [] := by
  obtain ⟨-, -, -, hwork, hne⟩ := handleCycle_spec h.sorting hready hnext hnot hok
  rw [handleCycle] at hok
  cases hfind : q.findCycleFrom q.candidates with
  | error f => rw [hfind] at hok; cases hok
  | ok found =>
    rw [hfind] at hok
    cases found with
    | none =>
      cases hok
      exact absurd hready hne
    | some cycle =>
      cases hok
      have hcand := ((findCycleFrom_result h.edgesWait fun _ hi => hi).1 cycle hfind).1
      have hcycle : ∀ i ∈ cycle, i < q.rules.length ∧
          (i ∈ q.output ∨ q.numPredecessors i ≠ 0) ∧ i ∈ cycle ∧ i ∉ X := by
        intro i hi
        obtain ⟨hlt, -, hpos⟩ := mem_candidates.mp (hcand i hi)
        exact ⟨hlt, .inr hpos.ne', hi, hX cycle hfind i hi⟩
      have hrelabel : q.Placing done ∅ [] (· ∈ cycle) X := h.relabel hready
      obtain ⟨hplacing, hr, hs, hn⟩ := hrelabel.release hcycle
      have hqueued := (foldl_releaseRule h.sorting fun i hi => (hcycle i hi).1).2.2.2.2.2
      refine ⟨cycle, rfl, ?_, hplacing, hr, hs, hn.trans hnext, hwork, hne⟩
      intro j hj
      exact ⟨hcand j hj, hqueued j hj (mem_candidates.mp (hcand j hj)).2.1⟩

theorem handleCycle_stops {done : Finset Nat} (h : q.Placing done ∅ [] released X)
    (hready : q.readyQueue = []) (hnext : q.nextQueue = []) {f : Fault Expr}
    (herr : q.handleCycle = .error f) : q.Stops f := by
  have hfuel := handleCycle_fuel q
  rw [herr] at hfuel
  rw [handleCycle] at herr
  cases hfind : q.findCycleFrom q.candidates with
  | error f' =>
    rw [hfind] at herr
    cases herr
    have hresult := (findCycleFrom_result h.edgesWait fun _ hi => hi).2 f hfind
    obtain ⟨i, j, r, hr, hij, hi, hf⟩ := hresult.resolve_left fun hout => hfuel (by rw [hout])
    exact ⟨i, j, r, hr, hij, h.linked_of_waiting hready hnext hi, hf⟩
  | ok found =>
    rw [hfind] at herr
    cases found <;> cases herr

end Run

end RulePartitioner

end RdfDatalog.Datalog
