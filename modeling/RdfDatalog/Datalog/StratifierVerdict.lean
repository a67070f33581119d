import RdfDatalog.Datalog.Stratification

namespace RdfDatalog.Datalog

open Relation

variable {Expr : Type} [DecidableEq Expr] {rules : List (Rule Expr)}

section Graph

/-- Some edge of the dependency graph leads from one rule to the other. -/
def Linked (rules : List (Rule Expr)) (a b : Rule Expr) : Prop := ∃ s, Reads rules s a b

/-- Positive edges lead from the rule to a cycle of positive edges. -/
def LeadsToLoop (rules : List (Rule Expr)) (a : Rule Expr) : Prop :=
  ∃ b, TransGen (Reads rules false) a b ∧ TransGen (Reads rules false) b b

/-- A cycle leads only to rules without negative edges, or there is a cycle none of whose rules
leads along positive edges to a cycle of positive edges. -/
def Decided (rules : List (Rule Expr)) : Prop :=
  (∀ c a b, TransGen (Linked rules) c c → ReflTransGen (Linked rules) c a →
      ¬ Reads rules true a b) ∨
    ∃ c, TransGen (fun a b => Linked rules a b ∧ ¬ LeadsToLoop rules b) c c

omit [DecidableEq Expr] in
theorem Decided.congr {rules' : List (Rule Expr)} (hmem : ∀ r, r ∈ rules ↔ r ∈ rules') :
    Decided rules ↔ Decided rules' := by
  have hreads : Reads rules = Reads rules' := by
    funext s a b
    exact propext (Reads.congr hmem)
  have hlinked : Linked rules = Linked rules' := by
    funext a b
    rw [Linked, Linked, hreads]
  have hloop : LeadsToLoop rules = LeadsToLoop rules' := by
    funext a
    rw [LeadsToLoop, LeadsToLoop, hreads]
  rw [Decided, Decided, hlinked, hreads, hloop]

omit [DecidableEq Expr] in
/-- A walk has a negative edge, or it is one of positive edges. -/
theorem positive_or_negative {a b : Rule Expr} (h : TransGen (Linked rules) a b) :
    TransGen (Reads rules false) a b ∨ ∃ i j, Reads rules true i j ∧
      ReflTransGen (Linked rules) a i ∧ ReflTransGen (Linked rules) j b := by
  induction h with
  | @single b hab =>
    obtain ⟨s, hs⟩ := hab
    cases s with
    | false => exact .inl (.single hs)
    | true => exact .inr ⟨a, b, hs, .refl, .refl⟩
  | @tail b c hab hbc ih =>
    obtain ⟨s, hs⟩ := hbc
    rcases ih with hpos | ⟨i, j, hij, hai, hjb⟩
    · cases s with
      | false => exact .inl (hpos.tail hs)
      | true => exact .inr ⟨b, c, hs, hab.to_reflTransGen, .refl⟩
    · exact .inr ⟨i, j, hij, hai, hjb.tail ⟨s, hs⟩⟩

omit [DecidableEq Expr] in
/-- A cycle that avoids the positive cycles has a negative edge. -/
theorem negativeCycle_of_avoiding {c : Rule Expr}
    (h : TransGen (fun a b => Linked rules a b ∧ ¬ LeadsToLoop rules b) c c) :
    NegativeCycle rules := by
  have hc : ¬ LeadsToLoop rules c := by
    obtain ⟨_, -, -, hc⟩ := TransGen.tail'_iff.mp h
    exact hc
  have hcycle : TransGen (Linked rules) c c := TransGen.mono (fun _ _ hab => hab.1) c c h
  rcases positive_or_negative hcycle with hpos | ⟨i, j, hij, hci, hjc⟩
  · exact absurd ⟨c, hpos, hpos⟩ hc
  · exact ⟨i, j, hij, hjc.trans hci⟩

end Graph

namespace RulePartitioner

variable {p : RulePartitioner Expr}

section Positions

variable (hpure : (new rules).purePositive = false)

include hpure

theorem linkedAt_new {i j : Nat} : (new rules).LinkedAt i j ↔
    ∃ a b, (new rules).rules[i]? = some a ∧
    (new rules).rules[j]? = some b ∧ Linked rules a b := by
  constructor
  · rintro ⟨s, hs⟩
    obtain ⟨a, b, ha, hb, hr⟩ := (edge_new hpure).mp hs
    exact ⟨a, b, ha, hb, s, hr⟩
  · rintro ⟨a, b, ha, hb, s, hr⟩
    exact ⟨s, (edge_new hpure).mpr ⟨a, b, ha, hb, hr⟩⟩

omit hpure [DecidableEq Expr] in
/-- A walk over positions is one over the rules there. -/
theorem transGen_rules {E : Nat → Nat → Prop} {R : Rule Expr → Rule Expr → Prop}
    (hE : ∀ i j, E i j → ∃ a b, p.rules[i]? = some a ∧ p.rules[j]? = some b ∧ R a b)
    {i j : Nat} (h : TransGen E i j) :
    ∃ a b, p.rules[i]? = some a ∧ p.rules[j]? = some b ∧ TransGen R a b := by
  induction h with
  | single hij =>
    obtain ⟨a, b, ha, hb, hr⟩ := hE _ _ hij
    exact ⟨a, b, ha, hb, .single hr⟩
  | tail _ hjk ih =>
    obtain ⟨a, b, ha, hb, hab⟩ := ih
    obtain ⟨b', c, hb', hc, hr⟩ := hE _ _ hjk
    cases hb.symm.trans hb'
    exact ⟨a, c, ha, hc, hab.tail hr⟩

/-- The negative edge at which the sort stops starts at a rule that a cycle leads to. -/
theorem Stops.reads {f : Fault Expr} (h : (new rules).Stops f) :
    ∃ c a b, f = .reasoning (.notStratifiable a) ∧ TransGen (Linked rules) c c ∧
      ReflTransGen (Linked rules) c a ∧ Reads rules true a b := by
  obtain ⟨i, j, r, hr, hij, ⟨k, hkk, hki⟩, rfl⟩ := h
  obtain ⟨a, b, ha, -, hreads⟩ := (edge_new hpure).mp hij
  cases hr.symm.trans ha
  obtain ⟨c, c', hc, hc', hcc⟩ := transGen_rules (fun _ _ => (linkedAt_new hpure).mp) hkk
  cases hc.symm.trans hc'
  refine ⟨c, r, b, rfl, hcc, ?_, hreads⟩
  rcases reflTransGen_iff_eq_or_transGen.mp hki with rfl | hki
  · cases hr.symm.trans hc
    exact .refl
  · obtain ⟨d, d', hd, hd', hdd⟩ := transGen_rules (fun _ _ => (linkedAt_new hpure).mp) hki
    cases hd.symm.trans hc
    cases hd'.symm.trans hr
    exact hdd.to_reflTransGen

/-- What a cycle break releases leads along positive edges to a cycle of them. -/
theorem Closes.leadsToLoop {cycle : List Nat} (h : (new rules).Closes cycle) {j : Nat}
    (hj : j ∈ cycle) : ∃ a, (new rules).rules[j]? = some a ∧ LeadsToLoop rules a := by
  obtain ⟨y, hy, hchain⟩ := h
  have hwalk := FinishingOrder.transGen_of_isChain hchain
  have hedge := fun i j => (edge_new hpure (s := false) (i := i) (j := j)).mp
  obtain ⟨a, b, ha, hb, hab⟩ := transGen_rules hedge (hwalk j hj)
  obtain ⟨b', b'', hb', hb'', hbb⟩ := transGen_rules hedge (hwalk y hy)
  cases hb.symm.trans hb'
  cases hb.symm.trans hb''
  exact ⟨a, ha, b, hab, hbb⟩

/-- The positions of the rules on cycles that avoid the positive ones. -/
def avoiding (rules : List (Rule Expr)) : Set Nat :=
  {x | ∃ a, (new rules).rules[x]? = some a ∧
    TransGen (fun a b => Linked rules a b ∧ ¬ LeadsToLoop rules b) a a}

theorem closedBack_avoiding : (new rules).ClosedBack (avoiding rules) := by
  intro x ⟨a, ha, hcycle⟩
  obtain ⟨b, hab, hba⟩ := TransGen.tail'_iff.mp hcycle
  obtain ⟨s, hs⟩ := hba.1
  obtain ⟨y, hy⟩ := List.mem_iff_getElem?.mp (mem_rules_new.mpr hs.1)
  exact ⟨s, y, ⟨b, hy, .head' hba hab⟩, (edge_new hpure).mpr ⟨b, a, hy, ha, hs⟩⟩

theorem releasesOutside_avoiding : ReleasesOutside rules (avoiding rules) := by
  intro q hrules hsucc hwait cycle hfind j hj ⟨a, ha, hcycle⟩
  have hcloses := ((findCycleFrom_result hwait fun _ hi => hi).1 cycle hfind).2
  have hedge : q.Edge false = (new rules).Edge false := by
    funext i j
    rw [Edge, Edge, hrules, hsucc]
  rw [Closes, hedge] at hcloses
  obtain ⟨a', ha', hloop⟩ := Closes.leadsToLoop hpure hcloses hj
  cases ha.symm.trans ha'
  obtain ⟨_, -, -, hno⟩ := TransGen.tail'_iff.mp hcycle
  exact hno hloop

end Positions

def Rejects (rules : List (Rule Expr)) : Prop :=
  ∃ r, (new rules).orderRules = .error (.reasoning (.notStratifiable r))

/-- The sort succeeds only if there is no rule at a position of `X`, and an error is a negative edge
at which it stops. -/
def Verdict (rules : List (Rule Expr)) (X : Set Nat) :
    Except (Fault Expr) (List (List (Rule Expr))) → Prop
  | .ok _ => ∀ x ∈ X, (new rules).rules.length ≤ x
  | .error f => f = .outOfFuel ∨ (new rules).Stops f

variable {X : Set Nat}

theorem orderLoop_verdict (hX : (new rules).ClosedBack X) (hout : ReleasesOutside rules X)
    {fuel : Nat} {done : Finset Nat} {released : Nat → Prop} (h : AtHead rules p done released X) :
    Verdict rules X (orderLoop fuel p) := by
  induction fuel generalizing p done released with
  | zero => exact .inl rfl
  | succ fuel ih =>
    rw [orderLoop]
    split_ifs with hempty
    · intro x hx
      by_contra hlt
      rw [not_le, ← h.sameRules] at hlt
      have hfin := h.finished (List.isEmpty_iff.mp hempty)
      rw [topologicalSortFinished, List.all_eq_true] at hfin
      have hio := of_decide_eq_true (hfin x (List.mem_range.mpr hlt))
      obtain ⟨hpopped, hqueue⟩ := h.placing.clear x hx
      exact (h.placing.placed x hlt hio).elim hpopped hqueue
    · have hne : p.readyQueue ≠ [] := fun hc => hempty (List.isEmpty_iff.mpr hc)
      obtain ⟨l, -, -, -, -, -, -, -, -, hafter, hfail⟩ := h.round hX hout hne
      dsimp only
      cases hpart : (p.getPartition (2 * p.rules.length + 1)).2.afterPartition with
      | error f => exact .inr (hfail f hpart)
      | ok p' =>
        obtain ⟨released', hhead'⟩ := hafter p' hpart
        have hloop := ih hhead'
        dsimp only
        cases hresult : orderLoop fuel p' with
        | error f | ok strata =>
          rw [hresult] at hloop
          exact hloop

theorem orderRules_verdict (hpure : (new rules).purePositive = false)
    (hX : (new rules).ClosedBack X) (hout : ReleasesOutside rules X) :
    Verdict rules X (new rules).orderRules := by
  obtain ⟨hstart, hfail⟩ := exists_start hpure hX hout
  rw [orderRules, hpure]
  simp only [Bool.false_eq_true, if_false]
  cases hcase : (if (new rules).readyQueue.isEmpty = true then (new rules).handleCycle
      else .ok (new rules)) with
  | error f => exact .inr (hfail f hcase)
  | ok p =>
    obtain ⟨released, hhead⟩ := hstart p hcase
    exact orderLoop_verdict hX hout hhead

theorem stops_of_error (hpure : (new rules).purePositive = false) (hX : (new rules).ClosedBack X)
    (hout : ReleasesOutside rules X) {f : Fault Expr} (hf : (new rules).orderRules = .error f) :
    (new rules).Stops f := by
  have hverdict := orderRules_verdict hpure hX hout
  have hfuel := (orderRules_spec rules).1
  rw [hf] at hverdict hfuel
  refine hverdict.resolve_left ?_
  rintro rfl
  exact hfuel rfl

/-- Rules without a NOT atom have no negative edge. -/
theorem purePositive_reads (hpure : (new rules).purePositive = true) (a b : Rule Expr) :
    ¬ Reads rules true a b := by
  rintro ⟨-, head, -, e, he, -, hneg⟩
  have hedge := mem_dependingRules.mp he
  rw [purePositive_new, Bool.not_eq_true'] at hpure
  have hpos := List.any_eq_false.mp hpure e.getRule (List.mem_eraseDups.mpr hedge.1)
  have hnil : e.getRule.notPatterns = [] := by simpa [hasNotPattern] using hpos
  have hany := hedge.2.1 hneg
  rw [hnil] at hany
  cases hany

theorem rejects_iff (h : Decided rules) : Rejects rules ↔ NegativeCycle rules := by
  by_cases hpure : (new rules).purePositive = true
  · refine iff_of_false ?_ fun ⟨a, b, hab, _⟩ => purePositive_reads hpure a b hab
    rintro ⟨r, hr⟩
    rw [orderRules, if_pos hpure] at hr
    cases hr
  have hpure' : (new rules).purePositive = false := Bool.eq_false_iff.mpr hpure
  rcases h with hquiet | ⟨c, hcycle⟩
  · refine iff_of_false ?_ ?_
    · rintro ⟨r, hr⟩
      have hX : (new rules).ClosedBack ∅ := fun x hx => by cases hx
      have hout : ReleasesOutside rules ∅ := fun _ _ _ _ _ _ _ _ hc => absurd hc (by simp)
      have hstops := stops_of_error hpure' hX hout hr
      obtain ⟨c, a, b, -, hcc, hca, hab⟩ := Stops.reads hpure' hstops
      exact hquiet c a b hcc hca hab
    · rintro ⟨a, b, hab, hba⟩
      exact hquiet a a b (.head' ⟨true, hab⟩ hba) .refl hab
  · refine iff_of_true ?_ (negativeCycle_of_avoiding hcycle)
    have hclosed := closedBack_avoiding hpure'
    have hout := releasesOutside_avoiding hpure'
    cases horder : (new rules).orderRules with
    | ok strata =>
      have hverdict := orderRules_verdict hpure' hclosed hout
      rw [horder] at hverdict
      obtain ⟨b, hcb, -⟩ := TransGen.head'_iff.mp hcycle
      obtain ⟨s, hs⟩ := hcb.1
      obtain ⟨x, hx⟩ := List.mem_iff_getElem?.mp (mem_rules_new.mpr hs.1)
      have hlt := (List.getElem?_eq_some_iff.mp hx).1
      exact absurd (hverdict x ⟨c, hx, hcycle⟩) hlt.not_ge
    | error f =>
      obtain ⟨_, r, _, rfl, -⟩ := Stops.reads hpure' (stops_of_error hpure' hclosed hout horder)
      exact ⟨r, horder⟩

section Edges

/-- The edges of the dependency graph. -/
def edges (rules : List (Rule Expr)) : List (Rule Expr × Bool × Rule Expr) :=
  rules.flatMap fun a => match a.head with
    | .contradiction => []
    | .normalHead h => (dependingRules rules h).map fun e => (a, e.isNegative, e.getRule)

omit [DecidableEq Expr] in
theorem mem_edges {s : Bool} {a b : Rule Expr} : (a, s, b) ∈ edges rules ↔ Reads rules s a b := by
  rw [edges, List.mem_flatMap]
  constructor
  · rintro ⟨a', ha', hmem⟩
    cases hhead : a'.head with
    | contradiction =>
      rw [hhead] at hmem
      cases hmem
    | normalHead h =>
      rw [hhead] at hmem
      obtain ⟨e, he, heq⟩ := List.mem_map.mp hmem
      cases heq
      exact ⟨ha', h, hhead, e, he, rfl, rfl⟩
  · rintro ⟨ha, h, hhead, e, he, rfl, rfl⟩
    refine ⟨a, ha, ?_⟩
    rw [hhead]
    exact List.mem_map.mpr ⟨e, he, rfl⟩

omit [DecidableEq Expr] in
theorem not_negativeCycle_of_deadEnds
    (h : ∀ x ∈ edges rules, x.2.1 = true → ∀ y ∈ edges rules, y.1 ≠ x.2.2) :
    ¬ NegativeCycle rules := by
  rintro ⟨a, b, hab, hba⟩
  have hdead : ∀ s c, ¬ Reads rules s b c := fun s c hbc =>
    h _ (mem_edges.mpr hab) rfl _ (mem_edges.mpr hbc) rfl
  rcases ReflTransGen.cases_head hba with rfl | ⟨c, ⟨s, hs⟩, -⟩
  · exact hdead true _ hab
  · exact hdead s c hs

omit [DecidableEq Expr] in
theorem decided_of_roots
    (h : ∀ x ∈ edges rules, x.2.1 = true → ∀ y ∈ edges rules, y.2.2 ≠ x.1) : Decided rules := by
  left
  intro c a b hcc hca hab
  have hroot : ∀ s d, ¬ Reads rules s d a := fun s d hda =>
    h _ (mem_edges.mpr hab) rfl _ (mem_edges.mpr hda) rfl
  have hno : ∀ d, ¬ TransGen (Linked rules) d a := by
    intro d hda
    obtain ⟨e, -, s, hs⟩ := TransGen.tail'_iff.mp hda
    exact hroot s e hs
  rcases reflTransGen_iff_eq_or_transGen.mp hca with rfl | hca
  · exact hno a hcc
  · exact hno c hca

end Edges

/-- A recursive rule, and one that negates the head of a third. -/
def negatedOnce : List (Rule Empty) := [unaryRule 7 [7] [], unaryRule 5 [6] [8], unaryRule 8 [6] []]

/-- A recursive rule, and one that negates its own head. -/
def selfNegating : List (Rule Empty) := [unaryRule 7 [7] [], unaryRule 5 [6] [5]]

/-- The same two rules, the negating one first. -/
def negationFirst : List (Rule Empty) := [unaryRule 5 [6] [7], unaryRule 7 [7] []]

end RulePartitioner

end RdfDatalog.Datalog
