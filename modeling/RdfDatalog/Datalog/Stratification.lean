import RdfDatalog.Datalog.StratifierOrder
import RdfDatalog.Datalog.Batch

namespace RdfDatalog.Datalog

open Relation

variable {Expr : Type} [DecidableEq Expr]

namespace RulePartitioner

section Head

/-- Where the released rules at the head of the loop come from: there are none, or they are the
path that a cycle break has put into the ready queue. -/
def Origin (rules : List (Rule Expr)) (p : RulePartitioner Expr) (done : Finset Nat)
    (released : Nat → Prop) : Prop :=
  (∀ j, ¬ released j) ∨ ∃ q cycle, BreaksCycle rules q ∧
    q.findCycleFrom q.candidates = .ok (some cycle) ∧ (∀ j, released j → j ∈ cycle) ∧
    (∀ j ∈ cycle, j ∈ p.readyQueue) ∧
    (∀ k < q.rules.length, k ∉ q.candidates → k ∈ done) ∧
    q.rules = p.rules ∧ q.successors = p.successors

/-- The invariant of the main loop. -/
structure AtHead (rules : List (Rule Expr)) (p : RulePartitioner Expr) (done : Finset Nat)
    (released : Nat → Prop) (X : Set Nat) : Prop where
  reached : LoopState rules p
  placing : p.Placing done ∅ [] released X
  next : p.nextQueue = []
  sameRules : p.rules = (new rules).rules
  sameSuccessors : p.successors = (new rules).successors
  work : p.work ≤ 2 * p.rules.length
  finished : p.readyQueue = [] → p.topologicalSortFinished = true
  origin : Origin rules p done released

variable {rules : List (Rule Expr)} {X : Set Nat}

/-- No rule of `X` is ever released. -/
def ReleasesOutside (rules : List (Rule Expr)) (X : Set Nat) : Prop :=
  ∀ q : RulePartitioner Expr, q.rules = (new rules).rules → q.successors = (new rules).successors →
    q.EdgesWait → ∀ cycle, q.findCycleFrom q.candidates = .ok (some cycle) → ∀ j ∈ cycle, j ∉ X

variable {released : Nat → Prop}

theorem Placing.mem_of_not_waiting {q : RulePartitioner Expr} {done : Finset Nat}
    (h : q.Placing done ∅ [] released X) (hready : q.readyQueue = []) (hnext : q.nextQueue = [])
    {k : Nat} (hlt : k < q.rules.length) (hk : k ∉ q.candidates) :
    k ∈ done := by
  have hio : k ∈ q.output ∨ q.numPredecessors k = 0 := by
    by_contra hno
    obtain ⟨hout, hpos⟩ := not_or.mp hno
    exact hk (mem_candidates.mpr ⟨hlt, hout, Nat.pos_of_ne_zero hpos⟩)
  have hplaced := h.placed k hlt hio
  rw [hready, hnext, Finset.union_empty] at hplaced
  exact hplaced.resolve_right (by simp)

theorem isEmpty_eq_false {α : Type} {l : List α} (h : l ≠ []) : l.isEmpty = false := by
  cases l with
  | nil => exact absurd rfl h
  | cons a l => rfl

theorem exists_start (hpure : (new rules).purePositive = false) (hX : (new rules).ClosedBack X)
    (hout : ReleasesOutside rules X) :
    (∀ p, (if (new rules).readyQueue.isEmpty then (new rules).handleCycle else .ok (new rules)) =
        .ok p → ∃ released, AtHead rules p ∅ released X) ∧
      ∀ f, (if (new rules).readyQueue.isEmpty then (new rules).handleCycle else .ok (new rules)) =
        .error f → (new rules).Stops f := by
  have hplacing := placing_new hpure hX
  have hany := any_hasNotPattern hpure
  obtain ⟨-, hnext, -, hwork⟩ := sorting_new hany
  by_cases hempty : (new rules).readyQueue.isEmpty = true
  · have hready := List.isEmpty_iff.mp hempty
    have hbreaks : BreaksCycle rules (new rules) := .start hpure hempty
    rw [if_pos hempty]
    constructor
    · intro p hp
      obtain ⟨cycle, hfind, hcycle, hp', hr, hs, hn, hw, hne⟩ := handleCycle_placing hplacing
        hready hnext (not_finished_new hany hready) (hout _ rfl rfl hplacing.edgesWait) hp
      refine ⟨(· ∈ cycle), .broken hpure hempty hp, hp', hn, hr, hs, ?_, fun hc =>
        absurd hc hne, ?_⟩
      · rw [hw, hr]
        exact hwork
      · refine .inr ⟨new rules, cycle, hbreaks, hfind, fun _ hj => hj,
          fun j hj => (hcycle j hj).2, ?_, hr.symm, hs.symm⟩
        exact fun k hlt hk => hplacing.mem_of_not_waiting hready hnext hlt hk
    · intro f hf
      exact handleCycle_stops hplacing hready hnext hf
  · have hfalse : (new rules).readyQueue.isEmpty = false := Bool.eq_false_iff.mpr hempty
    rw [if_neg hempty]
    constructor
    · intro p hp
      cases hp
      refine ⟨_, .ready hpure hfalse, hplacing, hnext, rfl, rfl, hwork, ?_, .inl fun _ h => h⟩
      intro hc
      exact absurd (List.isEmpty_iff.mpr hc) hempty
    · intro f hf
      cases hf

theorem AtHead.round {p : RulePartitioner Expr} {done : Finset Nat}
    (h : AtHead rules p done released X) (hX : (new rules).ClosedBack X)
    (hout : ReleasesOutside rules X) (hne : p.readyQueue ≠ []) :
    ∃ l : List Nat, (p.getPartition (2 * p.rules.length + 1)).1 =
        l.filterMap (fun i => p.rules[i]?) ∧ l.Nodup ∧ (∀ i ∈ l, i ∉ done) ∧ p.readyQueue ⊆ l ∧
      (p.getPartition (2 * p.rules.length + 1)).2.Placing done l.toFinset [] released X ∧
      (p.getPartition (2 * p.rules.length + 1)).2.readyQueue = [] ∧
      (p.getPartition (2 * p.rules.length + 1)).2.rules = p.rules ∧
      (p.getPartition (2 * p.rules.length + 1)).2.successors = p.successors ∧
      (∀ p', (p.getPartition (2 * p.rules.length + 1)).2.afterPartition = .ok p' →
        ∃ released', AtHead rules p' (done ∪ l.toFinset) released' X) ∧
      ∀ f, (p.getPartition (2 * p.rules.length + 1)).2.afterPartition = .error f →
        (new rules).Stops f := by
  have hXp := hX.congr h.sameRules h.sameSuccessors
  obtain ⟨l, hl, hnodup, hnew, hsub, hplacing, hready, hr, hs⟩ :=
    h.placing.getPartition hXp (Nat.lt_succ_of_le h.work)
  obtain ⟨-, -, -, -, -, hwork, -⟩ :=
    getPartition_spec h.placing.sorting (Nat.lt_succ_of_le h.work)
  have hbreaks : ∀ q, q = (p.getPartition (2 * p.rules.length + 1)).2.resetStratification →
      q.readyQueue.isEmpty = true → q.topologicalSortFinished = false → BreaksCycle rules q := by
    rintro q rfl hq hfin
    exact .next h.reached (isEmpty_eq_false hne) hq hfin
  have hreached : ∀ p', (p.getPartition (2 * p.rules.length + 1)).2.afterPartition = .ok p' →
      LoopState rules p' := fun p' hp' => .next h.reached (isEmpty_eq_false hne) hp'
  generalize (p.getPartition (2 * p.rules.length + 1)) = result at *
  rw [Finset.empty_union] at hplacing
  refine ⟨l, hl, hnodup, fun i hi hc => hnew i hi (Finset.mem_union_left _ hc), hsub, hplacing,
    hready, hr, hs, ?_, ?_⟩
  · intro p' hp'
    have hspec := afterPartition_spec hplacing.sorting hready hp'
    obtain ⟨-, hr', hn', hw', hfin'⟩ := hspec
    have hwork' : p'.work ≤ 2 * p'.rules.length := by
      rw [hw', hr', hr]
      exact hwork.trans h.work
    have hreset := hplacing.reset hready
    have hp'' := hp'
    rw [afterPartition] at hp''
    split_ifs at hp'' with hcond
    · rw [Bool.and_eq_true, Bool.not_eq_true'] at hcond
      have hempty := List.isEmpty_iff.mp hcond.1
      have hb := hbreaks _ rfl hcond.1 hcond.2
      obtain ⟨cycle, hfind, hcycle, hpl, hr'', hs'', -⟩ := handleCycle_placing hreset hempty rfl
        hcond.2 (hout _ (hr.trans h.sameRules) (hs.trans h.sameSuccessors) hreset.edgesWait) hp''
      refine ⟨(· ∈ cycle), hreached p' hp', hpl, hn', ?_, ?_, hwork', hfin', ?_⟩
      · exact hr''.trans (hr.trans h.sameRules)
      · exact hs''.trans (hs.trans h.sameSuccessors)
      · refine .inr ⟨_, cycle, hb, hfind, fun _ hj => hj, fun j hj => (hcycle j hj).2, ?_,
          hr''.symm, hs''.symm⟩
        exact fun k hlt hk => hreset.mem_of_not_waiting hempty rfl hlt hk
    · cases hp''
      exact ⟨_, hreached _ hp', hreset, rfl, hr.trans h.sameRules, hs.trans h.sameSuccessors,
        hwork', hfin', .inl fun _ hc => hc⟩
  · intro f hf
    have hreset := hplacing.reset hready
    rw [afterPartition] at hf
    split_ifs at hf with hcond
    rw [Bool.and_eq_true, Bool.not_eq_true'] at hcond
    have hstops := handleCycle_stops hreset (List.isEmpty_iff.mp hcond.1) rfl hf
    exact hstops.congr (hr.trans h.sameRules) (hs.trans h.sameSuccessors)

end Head

section Layers

/-- The rules that a release lets through at once: those of the path, and those that wait only for
such rules, and for none of them under negation. -/
inductive ReleasedWith (p : RulePartitioner Expr) (cycle : List Nat) : Nat → Prop
  | path {i : Nat} (hi : i ∈ cycle) : ReleasedWith p cycle i
  | follows {i : Nat} (hi : i < p.rules.length)
    (hpos : ∀ s k, p.Edge s k i → k ∈ p.candidates → s = false)
    (hall : ∀ s k, p.Edge s k i → k ∈ p.candidates → ReleasedWith p cycle k) :
    ReleasedWith p cycle i

/-- A released rule reads no head of a rule that still waits, unless that rule comes along with it
and the head is read positively. -/
def CleanRelease (p : RulePartitioner Expr) (cycle : List Nat) : Prop :=
  ∀ j ∈ cycle, ∀ s i, p.Edge s i j → i ∈ p.candidates → s = false ∧ p.ReleasedWith cycle i

variable {rules : List (Rule Expr)} {p : RulePartitioner Expr}

variable {done : Finset Nat} {released : Nat → Prop} {ls : List (List Nat)}

theorem ReleasedWith.mem {q : RulePartitioner Expr} {cycle : List Nat} {i : Nat}
    (h : q.ReleasedWith cycle i) {layer : Finset Nat}
    (hplacing : p.Placing done layer [] released ∅) (hready : p.readyQueue = [])
    (hrules : q.rules = p.rules) (hsucc : q.successors = p.successors)
    (hcycle : ∀ j ∈ cycle, j ∈ layer) (hnew : ∀ k ∈ layer, k ∉ done)
    (hwait : ∀ k < q.rules.length, k ∉ q.candidates → k ∈ done) : i ∈ done ∪ layer := by
  have hedge : ∀ {s k i}, p.Edge s k i → q.Edge s k i := by
    intro s k i hki
    rw [Edge, hrules, hsucc]
    exact hki
  induction h with
  | path hi => exact Finset.mem_union_right _ (hcycle _ hi)
  | @follows i hi hpos _ ih =>
    have hpreds : ∀ s k, p.Edge s k i → k ∈ done ∪ layer := by
      intro s k hki
      by_cases hk : k ∈ q.candidates
      · exact ih s k (hedge hki) hk
      · exact Finset.mem_union_left _ (hwait k (hedge hki).1 hk)
    have hio : i ∈ p.output ∨ p.numPredecessors i = 0 := by
      by_cases hout : i ∈ p.output
      · exact .inl hout
      · right
        rw [hplacing.exact i hout, remaining, List.countP_nil, Nat.add_zero]
        refine Finset.sum_eq_zero fun k hk => ?_
        obtain ⟨hlt, hno⟩ := Finset.mem_sdiff.mp hk
        by_contra hne
        obtain ⟨e, he, hj⟩ := List.countP_pos_iff.mp (Nat.pos_of_ne_zero hne)
        exact hno (hpreds _ k ⟨Finset.mem_range.mp hlt, e, he, of_decide_eq_true hj, rfl⟩)
    rw [hrules] at hi
    rcases hplacing.placed i hi hio with hmem | hmem
    · exact hmem
    · rw [hready] at hmem
      obtain ⟨⟨k, hk, hki⟩, -⟩ := hplacing.next i hmem
      -- a rule of the next stratum reads a rule of this one under negation
      have hcand : k ∈ q.candidates := by
        by_contra hno
        exact hnew k hk (hwait k (hedge hki).1 hno)
      have hfalse := hpos true k (hedge hki) hcand
      cases hfalse

/-- The strata as positions: every rule comes after the rules whose heads it reads, and strictly
after those that it negates. -/
inductive Layers (p : RulePartitioner Expr) : Finset Nat → List (List Nat) → Prop
  | nil {done : Finset Nat} (h : ∀ i < p.rules.length, i ∈ done) : Layers p done []
  | cons {done : Finset Nat} {l : List Nat} {ls : List (List Nat)} (hnodup : l.Nodup)
    (hnew : ∀ i ∈ l, i ∉ done)
    (hreads : ∀ j ∈ l, ∀ s i, p.Edge s i j → i ∈ done ∨ (s = false ∧ i ∈ l))
    (h : Layers p (done ∪ l.toFinset) ls) : Layers p done (l :: ls)

theorem Layers.not_mem (h : p.Layers done ls) :
    ∀ i ∈ ls.flatten, i ∉ done := by
  induction h with
  | nil h =>
    intro i hi
    cases hi
  | @cons done l ls hnodup hnew _ _ ih =>
    intro i hi
    rcases List.mem_append.mp (List.flatten_cons ▸ hi) with hi | hi
    · exact hnew i hi
    · exact fun hc => ih i hi (Finset.mem_union_left _ hc)

theorem Layers.nodup (h : p.Layers done ls) :
    ls.flatten.Nodup := by
  induction h with
  | nil h => exact .nil
  | @cons done l ls hnodup hnew _ hrest ih =>
    rw [List.flatten_cons, List.nodup_append]
    refine ⟨hnodup, ih, ?_⟩
    rintro i hi _ hj rfl
    exact hrest.not_mem i hj (Finset.mem_union_right _ (List.mem_toFinset.mpr hi))

theorem Layers.ordered (h : p.Layers done ls) {a b : Nat} {la lb : List Nat} (ha : ls[a]? = some la)
    (hb : ls[b]? = some lb) {i j : Nat} (hi : i ∈ la) (hj : j ∈ lb) {s : Bool} (hij : p.Edge s i j)
    : a ≤ b ∧ (s = true → a < b) := by
  induction h generalizing a b with
  | nil h => cases ha
  | @cons done l ls hnodup hnew hreads hrest ih =>
    have hmem : i ∈ (l :: ls).flatten := List.mem_flatten.mpr ⟨la, List.mem_of_getElem? ha, hi⟩
    have hdone : i ∉ done := (Layers.cons hnodup hnew hreads hrest).not_mem i hmem
    cases b with
    | zero =>
      cases hb
      obtain ⟨rfl, hil⟩ := (hreads j hj s i hij).resolve_left hdone
      cases a with
      | zero => exact ⟨le_rfl, nofun⟩
      | succ a =>
        have hrest' : i ∈ ls.flatten := List.mem_flatten.mpr ⟨la, List.mem_of_getElem? ha, hi⟩
        exact absurd (Finset.mem_union_right _ (List.mem_toFinset.mpr hil))
          (hrest.not_mem i hrest')
    | succ b =>
      cases a with
      | zero => exact ⟨Nat.zero_le _, fun _ => Nat.succ_pos b⟩
      | succ a =>
        obtain ⟨hle, hlt⟩ := ih ha hb
        exact ⟨Nat.succ_le_succ hle, fun hs => Nat.succ_lt_succ (hlt hs)⟩

theorem orderLoop_layers (hclean : ∀ q, BreaksCycle rules q → ∀ cycle, q.findCycleFrom q.candidates
      = .ok (some cycle) → q.CleanRelease cycle) {fuel : Nat} (h : AtHead rules p done released ∅)
    {strata : List (List (Rule Expr))} (hok : orderLoop fuel p = .ok strata) :
    ∃ ls : List (List Nat), strata = ls.map (fun l => l.filterMap fun i => (new rules).rules[i]?) ∧
      (new rules).Layers done ls := by
  have hX : (new rules).ClosedBack ∅ := nofun
  have hout : ReleasesOutside rules ∅ := nofun
  induction fuel generalizing p done released strata with
  | zero => cases hok
  | succ fuel ih =>
    rw [orderLoop] at hok
    split_ifs at hok with hempty
    · cases hok
      have hready := List.isEmpty_iff.mp hempty
      refine ⟨[], rfl, .nil ?_⟩
      intro i hi
      rw [← h.sameRules] at hi
      have hfin := h.finished hready
      rw [topologicalSortFinished, List.all_eq_true] at hfin
      have hio := of_decide_eq_true (hfin i (List.mem_range.mpr hi))
      have hplaced := h.placing.placed i hi hio
      rw [hready, h.next, Finset.union_empty] at hplaced
      exact hplaced.resolve_right (by simp)
    · have hne : p.readyQueue ≠ [] := fun hc => hempty (List.isEmpty_iff.mpr hc)
      obtain ⟨l, hl, hnodup, hnew, hsub, hplacing, hready, hr, hs, hafter, -⟩ := h.round hX hout hne
      dsimp only at hok
      split at hok
      · cases hok
      · rename_i p' hp'
        split at hok
        · cases hok
        · rename_i strata' hstrata'
          cases hok
          obtain ⟨released', hhead'⟩ := hafter p' hp'
          obtain ⟨ls, rfl, hlayers⟩ := ih hhead' hstrata'
          have hedge : ∀ {s i j}, (new rules).Edge s i j →
              (p.getPartition (2 * p.rules.length + 1)).2.Edge s i j := by
            intro s i j hij
            rw [Edge, hr, hs, h.sameRules, h.sameSuccessors]
            exact hij
          refine ⟨l :: ls, ?_, .cons hnodup hnew ?_ hlayers⟩
          · rw [hl, h.sameRules]
            rfl
          · intro j hj s i hij
            have hjl : j ∈ l.toFinset := List.mem_toFinset.mpr hj
            rcases hplacing.ready j (.inr hjl) with hrel | hall
            · rcases h.origin with hnone | ⟨q, cycle, hb, hfind, hrel', hcycle, hwait, hqr, hqs⟩
              · exact absurd hrel (hnone j)
              · by_cases hcand : i ∈ q.candidates
                · have hqij : q.Edge s i j := by
                    rw [Edge, hqr, hqs, h.sameRules, h.sameSuccessors]
                    exact hij
                  obtain ⟨hpos, hwith⟩ := hclean q hb cycle hfind j (hrel' j hrel) s i hqij hcand
                  have hmem := hwith.mem hplacing hready (hqr.trans hr.symm) (hqs.trans hs.symm)
                    (fun k hk => List.mem_toFinset.mpr (hsub (hcycle k hk)))
                    (fun k hk => hnew k (List.mem_toFinset.mp hk)) hwait
                  rcases Finset.mem_union.mp hmem with hi | hi
                  · exact .inl hi
                  · exact .inr ⟨hpos, List.mem_toFinset.mp hi⟩
                · refine .inl (hwait i ?_ hcand)
                  rw [hqr, h.sameRules]
                  exact hij.1
            · exact (hall s i (hedge hij)).imp_right fun hi => ⟨hi.1, List.mem_toFinset.mp hi.2⟩

end Layers

end RulePartitioner

section Reads

/-- `b` reads the head of `a`, by the test of `depending_rules`. -/
def Reads (rules : List (Rule Expr)) (negative : Bool) (a b : Rule Expr) : Prop :=
  a ∈ rules ∧ ∃ h, a.head = .normalHead h ∧ ∃ e ∈ dependingRules rules h,
    e.getRule = b ∧ e.isNegative = negative

/-- A cycle of the dependency graph with a negative edge. -/
def NegativeCycle (rules : List (Rule Expr)) : Prop :=
  ∃ a b, Reads rules true a b ∧ ReflTransGen (fun a b => ∃ s, Reads rules s a b) b a

/-- The test of `depending_rules` finds every dependency that a quad realises. -/
def Detected (rules : List (Rule Expr)) : Prop :=
  ∀ a ∈ rules, ∀ b ∈ rules, ∀ h, a.head = .normalHead h →
    (∀ p ∈ b.positivePatterns, Overlap h p → quadPatternsUnifiable h p = true) ∧
      ∀ p ∈ b.notPatterns, Overlap h p → quadPatternsUnifiable h p = true

variable {rules : List (Rule Expr)}

omit [DecidableEq Expr] in
theorem mem_dependingRules {h : QuadPattern} {e : PatternEdge Expr} :
    e ∈ dependingRules rules h ↔ e.getRule ∈ rules ∧
      (e.isNegative = true → e.getRule.notPatterns.any (quadPatternsUnifiable h) = true) ∧
      (e.isNegative = false → e.getRule.notPatterns.any (quadPatternsUnifiable h) = false ∧
        e.getRule.positivePatterns.any (quadPatternsUnifiable h) = true) := by
  rw [dependingRules, List.mem_filterMap]
  constructor
  · intro ⟨r, hr, he⟩
    split_ifs at he with hneg hpos
    · cases he
      exact ⟨hr, fun _ => hneg, nofun⟩
    · cases he
      exact ⟨hr, nofun, fun _ => ⟨Bool.eq_false_iff.mpr hneg, hpos⟩⟩
  · intro ⟨hr, hneg, hpos⟩
    refine ⟨e.getRule, hr, ?_⟩
    cases e with
    | positivePatternEdge r =>
      obtain ⟨hno, hyes⟩ := hpos rfl
      exact (if_neg (Bool.eq_false_iff.mp hno)).trans (if_pos hyes)
    | negativePatternEdge r => exact if_pos (hneg rfl)

omit [DecidableEq Expr] in
theorem Reads.congr {rules' : List (Rule Expr)} (hmem : ∀ r, r ∈ rules ↔ r ∈ rules') {s : Bool}
    {a b : Rule Expr} : Reads rules s a b ↔ Reads rules' s a b := by
  simp only [Reads, mem_dependingRules, hmem]

omit [DecidableEq Expr] in
theorem NegativeCycle.congr {rules' : List (Rule Expr)} (hmem : ∀ r, r ∈ rules ↔ r ∈ rules') :
    NegativeCycle rules ↔ NegativeCycle rules' := by
  simp only [NegativeCycle, Reads.congr hmem]

omit [DecidableEq Expr] in
theorem Detected.reads_of_feedsNegative (h : Detected rules) {a b : Rule Expr} (ha : a ∈ rules)
    (hb : b ∈ rules) (hfeeds : FeedsNegative a b) : Reads rules true a b := by
  obtain ⟨head, hhead, p, hp, hover⟩ := hfeeds
  have hunif := (h a ha b hb head hhead).2 p hp hover
  refine ⟨ha, head, hhead, .negativePatternEdge b, ?_, rfl, rfl⟩
  exact mem_dependingRules.mpr ⟨hb, fun _ => List.any_eq_true.mpr ⟨p, hp, hunif⟩,
    nofun⟩

omit [DecidableEq Expr] in
theorem Detected.reads_of_feedsPositive (h : Detected rules) {a b : Rule Expr} (ha : a ∈ rules)
    (hb : b ∈ rules) (hfeeds : FeedsPositive a b) : ∃ s, Reads rules s a b := by
  obtain ⟨head, hhead, p, hp, hover⟩ := hfeeds
  have hunif := (h a ha b hb head hhead).1 p hp hover
  by_cases hneg : b.notPatterns.any (quadPatternsUnifiable head) = true
  · refine ⟨true, ha, head, hhead, .negativePatternEdge b, ?_, rfl, rfl⟩
    exact mem_dependingRules.mpr ⟨hb, fun _ => hneg, nofun⟩
  · refine ⟨false, ha, head, hhead, .positivePatternEdge b, ?_, rfl, rfl⟩
    exact mem_dependingRules.mpr ⟨hb, nofun,
      fun _ => ⟨Bool.eq_false_iff.mpr hneg, List.any_eq_true.mpr ⟨p, hp, hunif⟩⟩⟩

theorem nodup_eraseDups {α : Type} [DecidableEq α] (l : List α) : l.eraseDups.Nodup := by
  induction hn : l.length using Nat.strong_induction_on generalizing l with
  | _ n ih =>
    cases l with
    | nil => exact .nil
    | cons a l =>
      rw [List.eraseDups_cons]
      have hlen := List.length_filter_le (fun b => !b == a) l
      refine List.nodup_cons.mpr ⟨?_, ih _ ?_ _ rfl⟩
      · intro hmem
        have hfilter := (List.mem_filter.mp (List.mem_eraseDups.mp hmem)).2
        simp at hfilter
      · rw [← hn, List.length_cons]
        omega

theorem getElem?_inj_of_nodup {α : Type} {l : List α} (h : l.Nodup) {i j : Nat} {a : α}
    (hi : l[i]? = some a) (hj : l[j]? = some a) : i = j := by
  obtain ⟨hi, hia⟩ := List.getElem?_eq_some_iff.mp hi
  obtain ⟨hj, hja⟩ := List.getElem?_eq_some_iff.mp hj
  exact h.getElem_inj_iff.mp (hia.trans hja.symm)

theorem ruleIndex_eq_some {r : Rule Expr} {i : Nat} (h : rules.Nodup) :
    ruleIndex rules r = some i ↔ rules[i]? = some r := by
  rw [ruleIndex, List.idxOf?_eq_some_iff, List.getElem?_eq_some_iff]
  constructor
  · intro ⟨hi, hr, _⟩
    exact ⟨hi, hr⟩
  · intro ⟨hi, hr⟩
    refine ⟨hi, hr, ?_⟩
    intro j hj hjr
    have hij : j = i := h.getElem_inj_iff.mp (hjr.trans hr.symm)
    omega

namespace RulePartitioner

theorem rules_new (rules : List (Rule Expr)) : (new rules).rules = rules.eraseDups := by
  cases h : rules.eraseDups.any hasNotPattern <;>
    simp only [new, h, if_true, Bool.false_eq_true, if_false]

theorem mem_rules_new {r : Rule Expr} : r ∈ (new rules).rules ↔ r ∈ rules := by
  rw [rules_new]
  exact List.mem_eraseDups

theorem edge_new (hpure : (new rules).purePositive = false) {s : Bool} {i j : Nat} :
    (new rules).Edge s i j ↔ ∃ a b, (new rules).rules[i]? = some a ∧
      (new rules).rules[j]? = some b ∧ Reads rules s a b := by
  have hany := any_hasNotPattern hpure
  have hsucc : (new rules).successors = headSuccessors (new rules).rules := by
    simp only [new, hany, if_true]
  have hnodup : (new rules).rules.Nodup := by
    rw [rules_new]
    exact nodup_eraseDups rules
  have hreads : ∀ a b, Reads (new rules).rules s a b ↔ Reads rules s a b :=
    fun a b => Reads.congr fun r => mem_rules_new
  rw [Edge, hsucc]
  constructor
  · rintro ⟨hlt, e, he, hj, hneg⟩
    have ha : (new rules).rules[i]? = some (new rules).rules[i] := List.getElem?_eq_getElem hlt
    refine ⟨_, e.getRule, ha, (ruleIndex_eq_some hnodup).mp hj, (hreads _ _).mp ?_⟩
    rw [headSuccessors, ha] at he
    generalize hgen : (new rules).rules[i] = a at he ha
    obtain ⟨head, body⟩ := a
    cases head with
    | contradiction => cases he
    | normalHead h => exact ⟨List.mem_of_getElem? ha, h, rfl, e, he, rfl, hneg⟩
  · rintro ⟨a, b, ha, hb, hr⟩
    obtain ⟨-, h, hh, e, he, rfl, hneg⟩ := (hreads a b).mpr hr
    refine ⟨(List.getElem?_eq_some_iff.mp ha).1, e, ?_, (ruleIndex_eq_some hnodup).mpr hb, hneg⟩
    obtain ⟨head, body⟩ := a
    cases hh
    rw [headSuccessors, ha]
    exact he

/-- A sort whose cycle breaks are clean and that detects every dependency gives each rule exactly
one stratum, and the strata respect the dependencies. -/
theorem orderRules_validOrder (hdetected : (∃ r ∈ rules, r.notPatterns ≠ []) → Detected rules)
    (hclean : ∀ q, BreaksCycle rules q → ∀ cycle,
      q.findCycleFrom q.candidates = .ok (some cycle) → q.CleanRelease cycle)
    {strata : List (List (Rule Expr))} (hok : (new rules).orderRules = .ok strata) :
    strata.flatten.Nodup ∧ (∀ r, r ∈ strata.flatten ↔ r ∈ rules) ∧ ValidOrder strata := by
  have hmem := (orderRules_spec rules).2 strata hok
  have hnodup : (new rules).rules.Nodup := by
    rw [rules_new]
    exact nodup_eraseDups rules
  rw [orderRules] at hok
  by_cases hpure : (new rules).purePositive = true
  · rw [if_pos hpure] at hok
    by_cases hempty : (new rules).rules.isEmpty = true
    · rw [if_pos hempty] at hok
      cases hok
      refine ⟨List.nodup_nil, hmem, ?_⟩
      intro i j A B hA
      cases hA
    rw [if_neg hempty] at hok
    cases hok
    rw [List.flatten_singleton] at hmem ⊢
    refine ⟨hnodup, hmem, ?_⟩
    have hone : ∀ {i : Nat} {A : List (Rule Expr)}, [(new rules).rules][i]? = some A →
        i = 0 ∧ A = (new rules).rules := by
      intro i A hA
      cases i with
      | zero => exact ⟨rfl, (Option.some.inj hA).symm⟩
      | succ i => cases hA
    intro i j A B hA hB a _ b hb
    obtain ⟨rfl, -⟩ := hone hA
    obtain ⟨rfl, rfl⟩ := hone hB
    refine ⟨fun _ => le_rfl, ?_⟩
    rintro ⟨_, _, p, hp, _⟩
    -- without negation there is nothing to feed
    rw [purePositive_new, Bool.not_eq_true'] at hpure
    have hb' := List.any_eq_false.mp hpure b (rules_new rules ▸ hb)
    have hnil : b.notPatterns = [] := by simpa [hasNotPattern] using hb'
    rw [hnil] at hp
    cases hp
  · rw [if_neg hpure] at hok
    have hpure' : (new rules).purePositive = false := Bool.eq_false_iff.mpr hpure
    have hX : (new rules).ClosedBack ∅ := fun x hx => by cases hx
    have hout : ReleasesOutside rules ∅ := fun _ _ _ _ _ _ _ _ hc => by cases hc
    split at hok
    · cases hok
    · rename_i p hp
      obtain ⟨released, hhead⟩ := (exists_start hpure' hX hout).1 p hp
      obtain ⟨ls, rfl, hlayers⟩ := orderLoop_layers hclean hhead hok
      have hdet : Detected rules := by
        refine hdetected ?_
        by_contra hno
        obtain ⟨r, hr, hneg⟩ := List.any_eq_true.mp (any_hasNotPattern hpure')
        refine hno ⟨r, List.mem_eraseDups.mp hr, ?_⟩
        simpa [hasNotPattern] using hneg
      have hflat : (ls.map fun l => l.filterMap fun i => (new rules).rules[i]?).flatten =
          ls.flatten.filterMap fun i => (new rules).rules[i]? := (List.filterMap_flatten).symm
      refine ⟨?_, hmem, ?_⟩
      · rw [hflat]
        refine List.Nodup.filterMap ?_ hlayers.nodup
        exact fun i j r hi hj => getElem?_inj_of_nodup hnodup hi hj
      · intro i j A B hA hB a ha b hb
        rw [List.getElem?_map, Option.map_eq_some_iff] at hA hB
        obtain ⟨la, hla, rfl⟩ := hA
        obtain ⟨lb, hlb, rfl⟩ := hB
        obtain ⟨ia, hia, hra⟩ := List.mem_filterMap.mp ha
        obtain ⟨ib, hib, hrb⟩ := List.mem_filterMap.mp hb
        have ha' := mem_rules_new.mp (List.mem_of_getElem? hra)
        have hb' := mem_rules_new.mp (List.mem_of_getElem? hrb)
        have hedge : ∀ {s}, Reads rules s a b → (new rules).Edge s ia ib :=
          fun hr => (edge_new hpure').mpr ⟨a, b, hra, hrb, hr⟩
        constructor
        · intro hfeeds
          obtain ⟨s, hs⟩ := hdet.reads_of_feedsPositive ha' hb' hfeeds
          exact (hlayers.ordered hla hlb hia hib (hedge hs)).1
        · intro hfeeds
          have hs := hdet.reads_of_feedsNegative ha' hb' hfeeds
          exact (hlayers.ordered hla hlb hia hib (hedge hs)).2 rfl

end RulePartitioner

end Reads

section Check

namespace RulePartitioner

/-- `check` holds in every state of the main loop in which the sort is stuck. -/
def checkLoop (check : RulePartitioner Expr → Bool) : Nat → RulePartitioner Expr → Bool
  | 0, _ => false
  | fuel + 1, p =>
    if p.readyQueue.isEmpty then true
    else
      let q := (p.getPartition (2 * p.rules.length + 1)).2
      (!(q.resetStratification.readyQueue.isEmpty &&
          !q.resetStratification.topologicalSortFinished) || check q.resetStratification) &&
        match q.afterPartition with
        | .ok p' => checkLoop check fuel p'
        | .error _ => true

/-- `check` holds in every state in which the sort is stuck. -/
def checkBreaks (check : RulePartitioner Expr → Bool) (rules : List (Rule Expr)) : Bool :=
  let p := new rules
  if p.readyQueue.isEmpty then
    check p && match p.handleCycle with
      | .ok p' => checkLoop check (2 * p.rules.length + 1) p'
      | .error _ => true
  else checkLoop check (2 * p.rules.length + 1) p

variable {check : RulePartitioner Expr → Bool} {rules : List (Rule Expr)}

theorem LoopState.checked (h : checkBreaks check rules = true) {p : RulePartitioner Expr}
    (hp : LoopState rules p) : ∃ fuel, checkLoop check fuel p = true := by
  induction hp with
  | ready _ hready =>
    rw [checkBreaks] at h
    rw [hready] at h
    exact ⟨_, h⟩
  | broken _ hready hok =>
    rw [checkBreaks] at h
    rw [hready, hok] at h
    exact ⟨_, (Bool.and_eq_true_iff.mp h).2⟩
  | @next p p' _ hready hok ih =>
    obtain ⟨fuel, hfuel⟩ := ih
    cases fuel with
    | zero => cases hfuel
    | succ fuel =>
      rw [checkLoop, hready] at hfuel
      simp only [Bool.false_eq_true, if_false, hok] at hfuel
      exact ⟨fuel, (Bool.and_eq_true_iff.mp hfuel).2⟩

variable {q : RulePartitioner Expr}

theorem BreaksCycle.checked (h : checkBreaks check rules = true) (hq : BreaksCycle rules q) :
    check q = true := by
  cases hq with
  | start _ hready =>
    rw [checkBreaks] at h
    rw [hready] at h
    exact (Bool.and_eq_true_iff.mp h).1
  | next hp hready hempty hfin =>
    obtain ⟨fuel, hfuel⟩ := hp.checked h
    cases fuel with
    | zero => cases hfuel
    | succ fuel =>
      rw [checkLoop, hready] at hfuel
      simp only [Bool.false_eq_true, if_false, hempty, hfin, Bool.not_false, Bool.and_self,
        Bool.not_true, Bool.false_or] at hfuel
      exact (Bool.and_eq_true_iff.mp hfuel).1

/-- A test for a clean release: the path has all waiting predecessors of its rules, and no negative
edge leads into it from a waiting rule. -/
def closedRelease (q : RulePartitioner Expr) : Bool :=
  match q.findCycleFrom q.candidates with
  | .ok (some cycle) => q.candidates.all fun i => (q.successors i).all fun e =>
    match ruleIndex q.rules e.getRule with
    | some j => !cycle.contains j || (!e.isNegative && cycle.contains i)
    | none => true
  | _ => true

theorem CleanRelease.of_check (h : q.closedRelease = true) {cycle : List Nat}
    (hfind : q.findCycleFrom q.candidates = .ok (some cycle)) :
    q.CleanRelease cycle := by
  intro j hj s i ⟨_, e, he, hdep, hneg⟩ hi
  rw [closedRelease, hfind] at h
  have hall := List.all_eq_true.mp (List.all_eq_true.mp h i hi) e he
  rw [hdep] at hall
  have hjc : cycle.contains j = true := List.contains_iff_mem.mpr hj
  simp only [hjc, Bool.not_true, Bool.false_or, Bool.and_eq_true, Bool.not_eq_true'] at hall
  exact ⟨hneg.symm.trans hall.1, .path (List.contains_iff_mem.mp hall.2)⟩

end RulePartitioner

/-- A test for `Detected`: the patterns that the test of `depending_rules` tells apart differ at a
position. -/
def detectedCheck (rules : List (Rule Expr)) : Bool :=
  rules.all fun a => rules.all fun b =>
    match a.head with
    | .normalHead h => (b.positivePatterns ++ b.notPatterns).all fun p =>
      quadPatternsUnifiable h p || h.clash p
    | .contradiction => true

omit [DecidableEq Expr] in
theorem Detected.of_check {rules : List (Rule Expr)} (h : detectedCheck rules = true) :
    Detected rules := by
  intro a ha b hb head hhead
  have hall := List.all_eq_true.mp (List.all_eq_true.mp h a ha) b hb
  rw [hhead] at hall
  have hpattern : ∀ p ∈ b.positivePatterns ++ b.notPatterns, Overlap head p →
      quadPatternsUnifiable head p = true := by
    intro p hp hover
    have hor := Bool.or_eq_true_iff.mp (List.all_eq_true.mp hall p hp)
    exact hor.resolve_right fun hc => not_overlap_of_clash hc hover
  exact ⟨fun p hp => hpattern p (List.mem_append_left _ hp),
    fun p hp => hpattern p (List.mem_append_right _ hp)⟩

def recursiveFirst : List (Rule Empty) := [unaryRule 7 [7] [], unaryRule 5 [6] [7]]

theorem orderRules_validOrder_recursive : ∃ strata,
    (RulePartitioner.new recursiveFirst).orderRules = .ok strata ∧ strata.flatten.Nodup ∧
      (∀ r, r ∈ strata.flatten ↔ r ∈ recursiveFirst) ∧ ValidOrder strata := by
  have hok : ((RulePartitioner.new recursiveFirst).orderRules).toBool = true := by decide
  have hcheck :
      RulePartitioner.checkBreaks RulePartitioner.closedRelease recursiveFirst = true := by
    decide
  cases h : (RulePartitioner.new recursiveFirst).orderRules with
  | error e => rw [h] at hok; cases hok
  | ok strata =>
    refine ⟨strata, rfl, RulePartitioner.orderRules_validOrder ?_ ?_ h⟩
    · exact fun _ => .of_check (by decide)
    · exact fun q hq cycle hfind => .of_check (hq.checked hcheck) hfind

/-- The path that breaks the first cycle is released before a rule whose head it reads. -/
theorem orderRules_misorders : ∃ strata,
    (RulePartitioner.new misordered).orderRules = .ok strata ∧ ¬ ValidOrder strata := by
  obtain ⟨strata, h, hstrata⟩ : ∃ strata, (RulePartitioner.new misordered).orderRules = .ok strata ∧
      strata = [[unaryRule 5 [6] [7]], [unaryRule 1 [2] [], unaryRule 2 [1] []],
        [unaryRule 2 [3] [], unaryRule 3 [2] []]] := by decide
  refine ⟨strata, h, ?_⟩
  rw [hstrata]
  intro hvalid
  have hfeeds : FeedsPositive (unaryRule 2 [3] []) (unaryRule 1 [2] []) := by
    have hmatch : Matches emptySubstitution (unaryPattern 2) (unaryQuad 2 0) :=
      getSubstitutions_isSome.mp (by decide)
    exact ⟨unaryPattern 2, rfl, unaryPattern 2, by simp [unaryRule], _, hmatch, hmatch⟩
  have hle := (hvalid 2 1 _ _ rfl rfl _ (.head _) _ (.head _)).1 hfeeds
  omega

end Check

end RdfDatalog.Datalog
