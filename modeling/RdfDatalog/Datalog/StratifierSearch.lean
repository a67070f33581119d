import RdfDatalog.Datalog.Stratifier
import RdfDatalog.Math.CycleSearch

namespace RdfDatalog.Datalog

open FinishingOrder

variable {Expr : Type} [DecidableEq Expr]

theorem ruleIndex_lt {rules : List (Rule Expr)} {r : Rule Expr} {i : Nat}
    (h : ruleIndex rules r = some i) : i < rules.length := by
  obtain ⟨hlt, -⟩ := List.idxOf?_eq_some_iff.mp h
  exact hlt

namespace RulePartitioner

variable {p : RulePartitioner Expr}

/-- An edge of the dependency graph into a rule that is not yet output. -/
def OpenEdge (p : RulePartitioner Expr) (i j : Nat) : Prop :=
  (∃ e ∈ p.successors i, ruleIndex p.rules e.getRule = some j) ∧ j ∉ p.output

section Search

/-- `D` lists the finished rules of the search `s`; the others it visited are on its path. -/
structure SearchInv (p : RulePartitioner Expr) (visited path D : List Nat) : Prop where
  finished : Finished p.OpenEdge D
  visited_iff : ∀ x, x ∈ visited ↔ x ∈ D ∨ x ∈ path

/-- What a search from `idx` does: it either stops on a path that runs through `idx`, or it
finishes `idx` and leaves the path as it was. -/
structure DfsSpec (p : RulePartitioner Expr)
    (dfs : Nat → Search → Except (Fault Expr) (Bool × Search)) : Prop where
  visited : ∀ {idx s b s'}, dfs idx s = .ok (b, s') → s.visited ⊆ s'.visited
  bound : ∀ {idx s b s'}, dfs idx s = .ok (b, s') → idx < p.rules.length →
    (∀ x ∈ s.path, x < p.rules.length) → ∀ x ∈ s'.path, x < p.rules.length
  found : ∀ {idx s s'}, dfs idx s = .ok (true, s') → s.path <+: s'.path ∧
    (idx ∉ s.visited → s.path ++ [idx] <+: s'.path)
  path : ∀ {idx s s'}, dfs idx s = .ok (false, s') → s'.path = s.path
  finished : ∀ {idx s s' D}, dfs idx s = .ok (false, s') → p.SearchInv s.visited s.path D →
    ∃ D', p.SearchInv s'.visited s.path D' ∧ D ⊆ D' ∧ idx ∈ D'

variable {dfs : Nat → Search → Except (Fault Expr) (Bool × Search)} {idx : Nat}

variable (dfs idx) in
/-- The loop over the successors, one edge: it is skipped, it is negative, or its target is
searched. -/
theorem searchSuccessors_step (edge : PatternEdge Expr) (edges : List (PatternEdge Expr))
    (s : Search) :
    ((∀ j, ruleIndex p.rules edge.getRule = some j → j ∈ p.output) ∧
      p.searchSuccessors dfs idx (edge :: edges) s = p.searchSuccessors dfs idx edges s) ∨
    ∃ dep, ruleIndex p.rules edge.getRule = some dep ∧ dep ∉ p.output ∧
      ((∃ r, p.searchSuccessors dfs idx (edge :: edges) s =
          .error (.reasoning (.notStratifiable r))) ∨
        p.searchSuccessors dfs idx (edge :: edges) s = (match dfs dep s with
          | .error e => .error e
          | .ok (true, s) => .ok (true, s)
          | .ok (false, s) => p.searchSuccessors dfs idx edges s)) := by
  cases hi : ruleIndex p.rules edge.getRule with
  | none =>
    refine .inl ⟨nofun, ?_⟩
    simp only [searchSuccessors, hi]
  | some dep =>
    by_cases hout : dep ∈ p.output
    · refine .inl ⟨?_, ?_⟩
      · intro j hj
        obtain rfl := Option.some.inj hj
        exact hout
      · simp only [searchSuccessors, hi, if_pos hout]
    · refine .inr ⟨dep, rfl, hout, ?_⟩
      simp only [searchSuccessors, hi, if_neg hout]
      cases edge.isNegative <;> cases p.rules[idx]?
      · exact .inr rfl
      · exact .inr rfl
      · exact .inr rfl
      · exact .inl ⟨_, rfl⟩

variable {edges : List (PatternEdge Expr)} {s s' : Search} {starts : List Nat}

theorem searchSuccessors_cons {edge : PatternEdge Expr} {b : Bool}
    (h : p.searchSuccessors dfs idx (edge :: edges) s = .ok (b, s')) :
    ((∀ j, ruleIndex p.rules edge.getRule = some j → j ∈ p.output) ∧
      p.searchSuccessors dfs idx edges s = .ok (b, s')) ∨
    ∃ dep, ruleIndex p.rules edge.getRule = some dep ∧ dep ∉ p.output ∧
      (dfs dep s = .ok (true, s') ∧ b = true ∨
        ∃ s₁, dfs dep s = .ok (false, s₁) ∧
          p.searchSuccessors dfs idx edges s₁ = .ok (b, s')) := by
  rcases searchSuccessors_step dfs idx edge edges s with
    ⟨hskip, heq⟩ | ⟨dep, hdep, hout, ⟨r, heq⟩ | heq⟩
  · exact .inl ⟨hskip, heq ▸ h⟩
  · rw [heq] at h
    cases h
  · refine .inr ⟨dep, hdep, hout, ?_⟩
    rw [heq] at h
    cases hd : dfs dep s with
    | error e => rw [hd] at h; cases h
    | ok r =>
      obtain ⟨b₁, s₁⟩ := r
      rw [hd] at h
      cases b₁ with
      | true =>
        cases h
        exact .inl ⟨rfl, rfl⟩
      | false => exact .inr ⟨s₁, rfl, h⟩

variable (hdfs : p.DfsSpec dfs)

include hdfs

theorem searchSuccessors_fuel (hfuel : ∀ dep s', dep < p.rules.length →
      s.visited ⊆ s'.visited → dfs dep s' ≠ .error .outOfFuel) :
    p.searchSuccessors dfs idx edges s ≠ .error .outOfFuel := by
  induction edges generalizing s with
  | nil =>
    intro h
    cases h
  | cons edge edges ih =>
    rcases searchSuccessors_step dfs idx edge edges s with
      ⟨-, heq⟩ | ⟨dep, hdep, -, ⟨r, heq⟩ | heq⟩
    · rw [heq]
      exact ih hfuel
    · rw [heq]
      intro h
      cases h
    · rw [heq]
      cases hd : dfs dep s with
      | error e =>
        intro h
        cases h
        exact hfuel dep s (ruleIndex_lt hdep) (fun _ hx => hx) hd
      | ok r =>
        obtain ⟨b₁, s₁⟩ := r
        cases b₁ with
        | true =>
          intro h
          cases h
        | false =>
          have hsub := hdfs.visited hd
          exact ih fun dep s' hlt hs' => hfuel dep s' hlt (List.Subset.trans hsub hs')

theorem searchSuccessors_visited {b : Bool}
    (h : p.searchSuccessors dfs idx edges s = .ok (b, s')) :
    s.visited ⊆ s'.visited := by
  induction edges generalizing s with
  | nil =>
    cases h
    exact fun _ hx => hx
  | cons edge edges ih =>
    rcases searchSuccessors_cons h with ⟨-, h⟩ | ⟨dep, -, -, ⟨h, -⟩ | ⟨s₁, h₁, h⟩⟩
    · exact ih h
    · exact hdfs.visited h
    · exact List.Subset.trans (hdfs.visited h₁) (ih h)

theorem searchSuccessors_bound {b : Bool}
    (h : p.searchSuccessors dfs idx edges s = .ok (b, s')) (hs : ∀ x ∈ s.path, x < p.rules.length) :
    ∀ x ∈ s'.path, x < p.rules.length := by
  induction edges generalizing s with
  | nil =>
    cases h
    exact fun x hx => hs x (List.mem_of_mem_dropLast hx)
  | cons edge edges ih =>
    rcases searchSuccessors_cons h with ⟨-, h⟩ | ⟨dep, hdep, -, ⟨hd, -⟩ | ⟨s₁, h₁, h⟩⟩
    · exact ih h hs
    · exact hdfs.bound hd (ruleIndex_lt hdep) hs
    · exact ih h (hdfs.bound h₁ (ruleIndex_lt hdep) hs)

theorem searchSuccessors_path {b : Bool}
    (h : p.searchSuccessors dfs idx edges s = .ok (b, s')) :
    if b then s.path <+: s'.path else s'.path = s.path.dropLast := by
  induction edges generalizing s with
  | nil =>
    cases h
    rfl
  | cons edge edges ih =>
    rcases searchSuccessors_cons h with ⟨-, h⟩ | ⟨dep, -, -, ⟨hd, rfl⟩ | ⟨s₁, h₁, h⟩⟩
    · exact ih h
    · exact (hdfs.found hd).1
    · have hpath := ih h
      rw [hdfs.path h₁] at hpath
      exact hpath

theorem searchSuccessors_finished {D : List Nat}
    (hinv : p.SearchInv s.visited s.path D)
    (h : p.searchSuccessors dfs idx edges s = .ok (false, s')) :
    ∃ D', p.SearchInv s'.visited s.path D' ∧ D ⊆ D' ∧
      ∀ e ∈ edges, ∀ j, ruleIndex p.rules e.getRule = some j → j ∉ p.output → j ∈ D' := by
  induction edges generalizing s D with
  | nil =>
    cases h
    exact ⟨D, hinv, fun _ hx => hx, nofun⟩
  | cons edge edges ih =>
    rcases searchSuccessors_cons h with ⟨hskip, h⟩ | ⟨dep, hdep, hout, ⟨h, hb⟩ | ⟨s₁, h₁, h⟩⟩
    · obtain ⟨D', hinv', hsub, hall⟩ := ih hinv h
      refine ⟨D', hinv', hsub, ?_⟩
      intro e he j hj hno
      rcases List.mem_cons.mp he with rfl | he
      · exact absurd (hskip j hj) hno
      · exact hall e he j hj hno
    · cases hb
    · obtain ⟨D₁, hinv₁, hsub₁, hmem⟩ := hdfs.finished h₁ hinv
      have hpath₁ := hdfs.path h₁
      rw [← hpath₁] at hinv₁
      obtain ⟨D', hinv', hsub, hall⟩ := ih hinv₁ h
      rw [hpath₁] at hinv'
      refine ⟨D', hinv', List.Subset.trans hsub₁ hsub, ?_⟩
      intro e he j hj hno
      rcases List.mem_cons.mp he with rfl | he
      · obtain rfl : dep = j := Option.some.inj (hdep.symm.trans hj)
        exact hsub hmem
      · exact hall e he j hj hno

omit hdfs

theorem dfsCycle_spec (fuel : Nat) : p.DfsSpec (p.dfsCycle fuel) := by
  induction fuel with
  | zero =>
    exact ⟨(by intro _ _ _ _ h; cases h), (by intro _ _ _ _ h; cases h),
      (by intro _ _ _ h; cases h), (by intro _ _ _ h; cases h), (by intro _ _ _ _ h; cases h)⟩
  | succ fuel ih =>
    refine ⟨?_, ?_, ?_, ?_, ?_⟩
    · intro idx s b s' h
      rw [dfsCycle] at h
      split_ifs at h with hv
      · cases h
        exact fun _ hx => hx
      · have hsub := searchSuccessors_visited ih h
        exact fun x hx => hsub (.tail _ hx)
    · intro idx s b s' h hlt hs
      rw [dfsCycle] at h
      split_ifs at h with hv
      · cases h
        exact hs
      · refine searchSuccessors_bound ih h ?_
        intro x hx
        rcases List.mem_append.mp hx with hx | hx
        · exact hs x hx
        · rw [List.mem_singleton.mp hx]
          exact hlt
    · intro idx s s' h
      rw [dfsCycle] at h
      split_ifs at h with hv
      · simp only [Except.ok.injEq, Prod.mk.injEq] at h
        obtain ⟨-, rfl⟩ := h
        exact ⟨List.prefix_rfl, fun hno => absurd hv hno⟩
      · have hpre : s.path ++ [idx] <+: s'.path := searchSuccessors_path ih h
        exact ⟨(List.prefix_append _ _).trans hpre, fun _ => hpre⟩
    · intro idx s s' h
      rw [dfsCycle] at h
      split_ifs at h with hv
      · simp only [Except.ok.injEq, Prod.mk.injEq] at h
        rw [h.2]
      · have hpath : s'.path = (s.path ++ [idx]).dropLast := searchSuccessors_path ih h
        rw [hpath, List.dropLast_concat]
    · intro idx s s' D h hinv
      rw [dfsCycle] at h
      split_ifs at h with hv
      · simp only [Except.ok.injEq, Prod.mk.injEq, decide_eq_false_iff_not] at h
        obtain ⟨hno, rfl⟩ := h
        exact ⟨D, hinv, fun _ hx => hx, ((hinv.visited_iff idx).mp hv).resolve_right hno⟩
      · have hinv₁ : p.SearchInv (idx :: s.visited) (s.path ++ [idx]) D := by
          refine ⟨hinv.finished, ?_⟩
          intro x
          simp only [List.mem_cons, List.mem_append, List.not_mem_nil, or_false,
            hinv.visited_iff x]
          tauto
        obtain ⟨D', hinv', hsub, hall⟩ := searchSuccessors_finished ih hinv₁ h
        have hopen : ∀ y, p.OpenEdge idx y → y ∈ D' := by
          rintro y ⟨⟨e, he, hy⟩, hno⟩
          exact hall e he y hy hno
        refine ⟨idx :: D', ⟨.cons hopen hinv'.finished, ?_⟩, fun x hx => .tail _ (hsub hx),
          .head D'⟩
        intro x
        rw [hinv'.visited_iff x]
        simp only [List.mem_cons, List.mem_append, List.not_mem_nil, or_false]
        tauto

def unvisited (p : RulePartitioner Expr) (visited : List Nat) : Finset Nat :=
  (Finset.range p.rules.length).filter (· ∉ visited)

theorem dfsCycle_fuel {fuel : Nat} (hlt : idx < p.rules.length)
    (hfuel : (p.unvisited s.visited).card < fuel) : p.dfsCycle fuel idx s ≠ .error .outOfFuel := by
  induction fuel generalizing idx s with
  | zero => omega
  | succ fuel ih =>
    rw [dfsCycle]
    split_ifs with hv
    · intro h
      cases h
    · refine searchSuccessors_fuel (dfsCycle_spec fuel) ?_
      intro dep s' hdep hs'
      refine ih hdep ?_
      have hss : p.unvisited s'.visited ⊂ p.unvisited s.visited := by
        rw [Finset.ssubset_iff_of_subset]
        · refine ⟨idx, ?_, ?_⟩
          · exact Finset.mem_filter.mpr ⟨Finset.mem_range.mpr hlt, hv⟩
          · intro hmem
            exact (Finset.mem_filter.mp hmem).2 (hs' (.head _))
        · intro x hx
          obtain ⟨hr, hno⟩ := Finset.mem_filter.mp hx
          exact Finset.mem_filter.mpr ⟨hr, fun hxv => hno (hs' (.tail _ hxv))⟩
      have hcard := Finset.card_lt_card hss
      omega

theorem findCycleFrom_none (h : p.findCycleFrom starts = .ok none) :
    ∀ start ∈ starts, ∃ s, p.dfsCycle (p.rules.length + 1) start ⟨[], []⟩ = .ok (false, s) := by
  induction starts with
  | nil => exact nofun
  | cons i starts ih =>
    rw [findCycleFrom] at h
    cases hd : p.dfsCycle (p.rules.length + 1) i ⟨[], []⟩ with
    | error e => rw [hd] at h; cases h
    | ok r =>
      obtain ⟨b, s⟩ := r
      rw [hd] at h
      cases b with
      | true => cases h
      | false =>
        intro start hs
        rcases List.mem_cons.mp hs with rfl | hs
        · exact ⟨s, hd⟩
        · exact ih h start hs

theorem findCycleFrom_some {cycle : List Nat} (h : p.findCycleFrom starts = .ok (some cycle))
    (hlt : ∀ i ∈ starts, i < p.rules.length) :
    (∃ start ∈ starts, start ∈ cycle) ∧ ∀ x ∈ cycle, x < p.rules.length := by
  induction starts with
  | nil => cases h
  | cons i starts ih =>
    rw [findCycleFrom] at h
    cases hd : p.dfsCycle (p.rules.length + 1) i ⟨[], []⟩ with
    | error e => rw [hd] at h; cases h
    | ok r =>
      obtain ⟨b, s⟩ := r
      rw [hd] at h
      cases b with
      | true =>
        cases h
        have hspec := dfsCycle_spec (p := p) (p.rules.length + 1)
        have hpre := (hspec.found hd).2 (by simp)
        refine ⟨⟨i, .head _, hpre.subset (by simp)⟩, ?_⟩
        exact hspec.bound hd (hlt i (.head _)) nofun
      | false =>
        obtain ⟨⟨start, hs, hmem⟩, hall⟩ := ih h fun j hj => hlt j (.tail i hj)
        exact ⟨⟨start, .tail i hs, hmem⟩, hall⟩

theorem findCycleFrom_fuel (hlt : ∀ i ∈ starts, i < p.rules.length) :
    p.findCycleFrom starts ≠ .error .outOfFuel := by
  induction starts with
  | nil =>
    intro h
    cases h
  | cons i starts ih =>
    rw [findCycleFrom]
    have hcard : (p.unvisited []).card < p.rules.length + 1 := by
      have hle := Finset.card_filter_le (Finset.range p.rules.length) (· ∉ ([] : List Nat))
      rw [Finset.card_range] at hle
      exact Nat.lt_succ_of_le hle
    have hi := dfsCycle_fuel (p := p) (s := ⟨[], []⟩) (hlt i (.head _)) hcard
    cases hd : p.dfsCycle (p.rules.length + 1) i ⟨[], []⟩ with
    | error e =>
      intro h
      cases h
      exact hi hd
    | ok r =>
      obtain ⟨b, s⟩ := r
      cases b with
      | true =>
        intro h
        cases h
      | false => exact ih fun j hj => hlt j (.tail i hj)

theorem findCycleFrom_ne_none (hne : p.candidates ≠ [])
    (hpred : ∀ j ∈ p.candidates, ∃ i ∈ p.candidates, p.OpenEdge i j) :
    p.findCycleFrom p.candidates ≠ .ok none := by
  intro hnone
  obtain ⟨i, hi⟩ := List.exists_mem_of_ne_nil _ hne
  have hpred' : ∀ j ∈ p.candidates.toFinset, ∃ i ∈ p.candidates.toFinset, p.OpenEdge i j := by
    intro j hj
    obtain ⟨i, hi, hij⟩ := hpred j (List.mem_toFinset.mp hj)
    exact ⟨i, List.mem_toFinset.mpr hi, hij⟩
  obtain ⟨c, hc, hcycle⟩ := exists_cycle ⟨i, List.mem_toFinset.mpr hi⟩ hpred'
  obtain ⟨s, hs⟩ := findCycleFrom_none hnone c (List.mem_toFinset.mp hc)
  have hinit : p.SearchInv [] [] [] := ⟨.nil, by simp⟩
  obtain ⟨D, hinv, -, hcD⟩ := (dfsCycle_spec _).finished hs hinit
  exact hinv.finished.acyclic hcD hcycle

end Search

end RulePartitioner

end RdfDatalog.Datalog
