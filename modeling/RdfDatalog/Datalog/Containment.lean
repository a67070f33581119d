import RdfDatalog.Datalog.InsertionRuns

namespace RdfDatalog.Datalog

open GroundProgram FallibleFold

variable {Expr : Type} {env : ReasonerEnv Expr} {X : Set Quad}

theorem strataModel_subset {strata : List (List (Rule Expr))} {E : Set Quad}
    (h : GroundProgram.ClosedUnder (clausesOf env strata.flatten) X) (hE : E ⊆ X) :
    strataModel env strata E ⊆ X := by
  rw [← union_map_clausesOf] at h
  exact h.perfect hE

theorem factHeads_subset {rules : List (Rule Expr)}
    (h : GroundProgram.ClosedUnder (clausesOf env rules) X) : factHeads rules ⊆ X := by
  intro q hq
  obtain ⟨c, hc, rfl, hactive⟩ := exists_clause_of_fact env hq
  exact h c hc fun a ha => absurd ((hactive ∅).1 ha) (Set.notMem_empty a)

theorem Swept.subset {ps : List (DatalogProgram Expr)} {base : QuadStore} {s : Sweep Expr}
    {delta : List Quad} (h : Swept env delta ps base s) (hs : OrderedStrata (activeStrata ps))
    (hX : GroundProgram.ClosedUnder (clausesOf env (activeStrata ps).flatten) X)
    (hdelta : ∀ q ∈ delta, q ∈ base) (hbase : base.quads ⊆ X) : s.base.quads ⊆ X := by
  have hrecorded : recordedClauses env s.programs ⊆ clausesOf env (activeStrata ps).flatten := by
    rw [← h.strata]
    exact recordedClauses_subset env _
  refine (h.backed hs hdelta).trans ((hX.mono hrecorded).closure ?_)
  exact Set.union_subset hbase (factHeads_subset hX)

namespace IncrementalReasoner

section Operations

variable (hf : env.FixedFilters) {m m' : IncrementalReasoner Expr}
  (hs : OrderedStrata (activeStrata m.programs))
  (hX : GroundProgram.ClosedUnder (clausesOf env (activeStrata m.programs).flatten) X)
include hf hs hX

variable (hbase : m.base.quads ⊆ X)

include hbase

theorem rederive_subset {pd : List Quad} {s : Sweep Expr}
    (h : rederive env m pd = .ok s) : s.base.quads ⊆ X := by
  rw [(rederive_ok hf hs h).1]
  exact strataModel_subset hX fun q hq => hbase hq.1

theorem retractNegationInvalidated_subset {fuel : Nat} {check : List Quad}
    (h : retractNegationInvalidated env fuel m check = .ok m') :
    m'.base.quads ⊆ X := by
  induction fuel generalizing m check with
  | zero => cases h
  | succ fuel ih =>
    rw [retractNegationInvalidated] at h
    split_ifs at h with hseeds
    · cases h
      exact hbase
    · split at h
      · cases h
      · rename_i s hrun
        have hsame := rederive_strata hrun
        refine ih (m := ⟨s.programs, s.base⟩) ?_ ?_ (rederive_subset hf hs hX hbase hrun) h
        · rw [hsame]
          exact hs
        · rw [hsame]
          exact hX

theorem applyInsertions_subset {fuel : Nat} {inserts : List Quad}
    (hinserts : ∀ q ∈ inserts, q ∈ X) (h : applyInsertions env fuel m inserts = .ok m') :
    m'.base.quads ⊆ X := by
  rw [applyInsertions] at h
  split at h
  · cases h
  · rename_i s hrun
    have hswept := swept_materialiseForward hf hrun
    have hdelta : ∀ q ∈ inserts, q ∈ inserts.foldl QuadStore.addQuad m.base :=
      fun q hq => (m.base.mem_foldl_addQuad inserts q).mpr (.inr hq)
    have hstart : (inserts.foldl QuadStore.addQuad m.base).quads ⊆ X := by
      intro q hq
      rcases (m.base.mem_foldl_addQuad inserts q).mp hq with hq | hq
      · exact hbase hq
      · exact hinserts q hq
    refine retractNegationInvalidated_subset hf (m := ⟨s.programs, s.base⟩) ?_ ?_
      (hswept.subset hs hX hdelta hstart) h
    · rw [hswept.strata]
      exact hs
    · rw [hswept.strata]
      exact hX

theorem applyDeletions_subset {deletes : List Quad} {n : Nat}
    (h : applyDeletions env m deletes = .ok (m', n)) : m'.base.quads ⊆ X := by
  by_cases hne : deletes = []
  · subst hne
    cases h
    exact hbase
  · obtain ⟨-, hrebuilt, hkept⟩ := applyDeletions_quads hf hs hne h
    by_cases hfall : m.FallsBack deletes
    · rw [hrebuilt hfall]
      exact strataModel_subset hX fun q hq => hbase hq.1.1
    · rw [hkept hfall]
      exact strataModel_subset hX fun q hq => hbase hq.1

omit hbase

end Operations

end IncrementalReasoner

end RdfDatalog.Datalog
