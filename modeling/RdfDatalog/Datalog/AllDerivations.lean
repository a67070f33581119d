import RdfDatalog.Datalog.NegationCoverage
import RdfDatalog.Datalog.UnboundVariables

namespace RdfDatalog.Datalog

open GroundProgram DerivedFromIndex DatalogProgram

variable {Expr : Type}

/-- A run whose log is dropped: the program with its derivation index, and the store. -/
def DatalogProgram.materialiseSeminaive (env : ReasonerEnv Expr) (p : DatalogProgram Expr)
    (base : QuadStore) : Except (Fault Expr) (DatalogProgram Expr × QuadStore) :=
  match p.materialiseSeminaiveTracked env base with
  | .error e => .error e.1
  | .ok m => .ok (p.withDerivedFrom m.derivedFrom, m.base)

/-- The rule yields `q` from the quads `ws` of the store: they instantiate its positive atoms, and
the guards hold. -/
def Rule.Yields (env : ReasonerEnv Expr) (r : Rule Expr) (rdf : QuadStore) (ws : List Quad)
    (q : Quad) : Prop :=
  ∃ sub, r.MatchedBy env rdf sub ∧ r.bodyWitnesses sub = some ws ∧ r.headQuad sub = some q

section Steps

variable {env : ReasonerEnv Expr} {p : DatalogProgram Expr} {N : Set Quad} {m m' : Materialisation}

theorem Rule.matchedBy_iff (hf : env.FixedFilters) {r : Rule Expr} (hne : r.positivePatterns ≠ [])
    {rdf : QuadStore} {sub : Substitution} :
    r.MatchedBy env rdf sub ↔ r.Grounds env sub ∧ r.ActiveIn sub rdf.quads := by
  constructor
  · intro h
    have hguards := h.guards
    rw [hf.guardsHold] at hguards
    refine ⟨⟨.inl hne, h.isSome_iff, hguards⟩, ?_, ?_⟩
    · intro q ⟨pattern, hpattern, hq⟩
      obtain ⟨q', hq', hsub⟩ := h.positive pattern hpattern
      obtain rfl : q = q' := Option.some.inj (hq.symm.trans hsub)
      exact hq'
    · intro b ⟨pattern, hpattern, hb⟩ hmem
      exact h.negated pattern hpattern b hmem hb
  · intro ⟨hg, hpos, hneg⟩
    have hguards := hg.guards
    rw [← hf.guardsHold rdf] at hguards
    refine ⟨?_, ?_, hguards, fun pattern hpattern q hq hm => hneg q ⟨pattern, hpattern, hm⟩ hq⟩
    · intro pattern hpattern
      obtain ⟨q, hq⟩ := hg.exists_witness hpattern
      exact ⟨q, hpos ⟨pattern, hpattern, hq⟩, hq⟩
    · intro v hv
      rw [← Option.not_isSome_iff_eq_none, hg.dom v]
      exact fun ⟨pattern, hpattern, hvp⟩ => hv pattern hpattern hvp

theorem Reaches.recorded_fires (h : Reaches env p N m m') {q : Quad} {d : Derivation}
    (hd : m'.derivedFrom.Recorded q d) : m.derivedFrom.Recorded q d ∨
      ∃ r sub, p.Enabled d.ruleId r ∧ r.Grounds env sub ∧ r.positivePatterns ≠ [] ∧
        r.headQuad sub = some q ∧ r.bodyWitnesses sub = some d.bodyWitnesses ∧
        r.witnesses sub ⊆ m'.base.quads := by
  induction h with
  | refl => exact .inl hd
  | @tail m₁ m₂ _ hstep ih =>
    cases hstep with
    | @fire id r sub h ws henabled hg hne hhead hws hpos hneg =>
      have hgrow : m₁.base.quads ⊆ (m₁.derive h ⟨id, ws⟩).base.quads :=
        fun q hq => (Materialisation.mem_derive ..).mpr (.inl hq)
      rcases (Materialisation.recorded_derive ..).mp hd with hd | ⟨rfl, rfl⟩
      · refine (ih hd).imp_right ?_
        intro ⟨r', sub', henabled', hg', hne', hhead', hws', hpos'⟩
        exact ⟨r', sub', henabled', hg', hne', hhead', hws', hpos'.trans hgrow⟩
      · exact .inr ⟨r, sub, henabled, hg, hne, hhead, hws, hpos.trans hgrow⟩

/-- What a run adds follows by derivations on record from what it starts with; below the quads of
the proof tree, only recorded derivations are followed. -/
theorem Reaches.exists_proofTree (h : Reaches env p N m m') {base : QuadStore}
    (hstart : ∀ q ∈ m.base, q ∈ base ∨ q ∈ factHeads p.activeRules) {q : Quad} (hq : q ∈ m'.base) :
    ∃ U, ProofTree (clausesOf env p.activeRules) N base.quads q U ∧
      ∀ u ∈ U, Relation.TransGen
        (IncrementalReasoner.Supports [p.withDerivedFrom m'.derivedFrom]) u q := by
  let R := (p.withDerivedFrom m'.derivedFrom).recorded env
  let F : Set (Clause Quad) := {c | c ∈ clausesOf env p.activeRules ∧ ∀ M, c.Active M}
  have hF : ∀ c ∈ F, c.pos = ∅ := by
    intro c hc
    exact Set.subset_empty_iff.mp (hc.2 ∅).1
  have hall : R ∪ F ⊆ clausesOf env p.activeRules :=
    Set.union_subset ((p.withDerivedFrom m'.derivedFrom).recorded_subset env) fun c hc => hc.1
  have hclosure : q ∈ closure (R ∪ F) N base.quads := by
    have hfed : m.base.quads ⊆ closure (R ∪ F) N base.quads := by
      intro w hw
      rcases hstart w hw with hw | hw
      · exact subset_closure _ _ _ hw
      · obtain ⟨c, hc, rfl, hact⟩ := exists_clause_of_fact env hw
        have hcF : c ∈ R ∪ F := .inr ⟨hc, hact⟩
        exact head_mem_closure hcF (by rw [hF c ⟨hc, hact⟩]; exact Set.empty_subset _) (hact N).2
    have hgrow : closure R N m.base.quads ⊆ closure (R ∪ F) N (closure (R ∪ F) N base.quads) :=
      closure_mono Set.subset_union_left Set.Subset.rfl hfed
    exact closure_closure_subset (R ∪ F) N base.quads (hgrow (h.backed hq))
  obtain ⟨U, htree, hbelow⟩ := GroundProgram.exists_proofTree hclosure
  refine ⟨U, htree.mono hall Set.Subset.rfl, fun u hu =>
    Relation.TransGen.mono ?_ _ _ (hbelow u hu)⟩
  intro x y ⟨c, hc, hhead, hx⟩
  rcases hc with ⟨id, r, sub, ws, -, -, -, hws, hrec, hclause⟩ | hc
  · rw [hclause] at hx
    rw [hhead] at hrec
    have hmem : x ∈ ws := (Rule.mem_bodyWitnesses hws x).mpr hx
    exact ⟨_, List.mem_singleton_self _, ⟨id, ws⟩, hrec, hmem⟩
  · rw [hF c hc] at hx
    exact hx.elim

end Steps

section Records

variable {env : ReasonerEnv Expr} {rules : List (Rule Expr)} {p : DatalogProgram Expr}
  {base : QuadStore} {m : Materialisation}

/-- An accepted list of rules compiles to a program with these rules, all enabled, and an empty
derivation index. -/
theorem DatalogProgram.new_fresh (hnew : DatalogProgram.new rules = .ok p) :
    (∀ id r, p.Enabled id r ↔ rules[id]? = some r) ∧ p.derivedFrom.Exact ∧
      ∀ q d, ¬ p.derivedFrom.Recorded q d := by
  obtain ⟨-, rfl⟩ := new_eq_ok_iff.mp hnew
  refine ⟨fun id r => ?_, exact_with _, fun q d => ?_⟩
  · exact and_iff_left (Finset.notMem_empty id)
  · exact not_recorded_with q d _

theorem recorded_iff_yields (hf : env.FixedFilters) (hno : ∀ r ∈ rules, r.notPatterns = [])
    (hnew : DatalogProgram.new rules = .ok p)
    (h : p.materialiseSeminaiveTracked env base = .ok m) (q : Quad) (d : Derivation) :
    m.derivedFrom.Recorded q d ↔ ∃ r, rules[d.ruleId]? = some r ∧ r.positivePatterns ≠ [] ∧
      r.Yields env m.base d.bodyWitnesses q := by
  obtain ⟨henabled, -, hfresh⟩ := new_fresh hnew
  obtain ⟨facts, -, hrun, hcovered⟩ := materialiseSeminaiveTracked_ok hf h
  have hblockers (r : Rule Expr) (hr : r ∈ rules) (sub : Substitution) (M : Set Quad) :
      ∀ b ∈ r.blockers sub, b ∉ M := by
    intro b ⟨pattern, hpattern, _⟩
    rw [hno r hr] at hpattern
    cases hpattern
  constructor
  · intro hrec
    obtain ⟨r, sub, hr, hg, hne, hhead, hws, hpos⟩ :=
      (hrun.recorded_fires hrec).resolve_left (hfresh q d)
    have hget := (henabled _ _).mp hr
    have hmem : r ∈ rules := List.mem_of_getElem? hget
    have hmatched : r.MatchedBy env m.base sub :=
      (Rule.matchedBy_iff hf hne).mpr ⟨hg, hpos, hblockers r hmem sub _⟩
    exact ⟨r, hget, hne, sub, hmatched, hws, hhead⟩
  · intro ⟨r, hget, hne, sub, hmatched, hws, hhead⟩
    obtain ⟨hg, hpos, hneg⟩ := (Rule.matchedBy_iff hf hne).mp hmatched
    obtain ⟨pattern, hpattern⟩ := List.exists_mem_of_ne_nil _ hne
    obtain ⟨w, hw⟩ := hg.exists_witness hpattern
    -- the run is over, so the instance with these witnesses is done
    obtain ⟨q', ws, hhead', hws', -, hrec⟩ := hcovered d.ruleId r sub ((henabled _ _).mpr hget) hg
      hpos ⟨w, ⟨pattern, hpattern, hw⟩, trivial⟩ hneg
    obtain rfl : q = q' := Option.some.inj (hhead.symm.trans hhead')
    obtain rfl : d.bodyWitnesses = ws := Option.some.inj (hws.symm.trans hws')
    exact hrec

theorem nodup_derivationsFor (hnew : DatalogProgram.new rules = .ok p)
    (h : p.materialiseSeminaiveTracked env base = .ok m) (q : Quad) :
    (m.derivedFrom.derivationsFor q).Nodup := by
  have hrun := materialiseSeminaiveTracked_runFrom env p base
  rw [h] at hrun
  exact (hrun.logged.edited.exact (new_fresh hnew).2.1).nodup q

theorem mem_backwardPhase_of_proofTrees (hf : env.FixedFilters)
    (hnew : DatalogProgram.new rules = .ok p)
    (h : p.materialiseSeminaiveTracked env base = .ok m) {deletes : List Quad} {q : Quad}
    (hq : q ∈ m.base)
    (hall : ∀ U, ProofTree (clausesOf env rules) ∅ base.quads q U → ∃ d ∈ deletes, d ∈ U) :
    q ∈ IncrementalReasoner.backwardPhase [p.withDerivedFrom m.derivedFrom] deletes := by
  obtain ⟨henabled, -, -⟩ := new_fresh hnew
  obtain ⟨facts, hfacts, hrun, -⟩ := materialiseSeminaiveTracked_ok hf h
  have hstart : ∀ w ∈ (p.seeded base facts).base, w ∈ base ∨ w ∈ factHeads p.activeRules := by
    intro w hw
    exact ((p.mem_seeded base facts w).mp hw).imp_right (mem_facts_iff hfacts w).mp
  have hclauses : clausesOf env p.activeRules ⊆ clausesOf env rules := by
    intro c ⟨r, hr, hc⟩
    obtain ⟨id, hid⟩ := mem_activeRules.mp hr
    exact ⟨r, List.mem_of_getElem? ((henabled id r).mp hid), hc⟩
  obtain ⟨U, htree, hbelow⟩ := hrun.exists_proofTree hstart hq
  obtain ⟨d, hd, hdU⟩ := hall U (htree.mono hclauses (Set.empty_subset _))
  exact IncrementalReasoner.mem_backwardPhase.mpr ⟨d, hd, hbelow d hdU⟩

/-- After a run from a fresh program over `NOT`-free rules, the derivations of a quad are, each
once, those by which a rule with a positive atom yields it; and the backward phase finds every
quad whose proof trees all use a deleted quad. -/
theorem materialiseSeminaive_records (hf : env.FixedFilters)
    (hno : ∀ r ∈ rules, r.notPatterns = []) (hnew : DatalogProgram.new rules = .ok p)
    {p' : DatalogProgram Expr} {base' : QuadStore}
    (h : p.materialiseSeminaive env base = .ok (p', base')) (q : Quad) :
    (p'.derivedFrom.derivationsFor q).Nodup ∧
      (∀ id ws, ⟨id, ws⟩ ∈ p'.derivedFrom.derivationsFor q ↔
        ∃ r, rules[id]? = some r ∧ r.positivePatterns ≠ [] ∧ r.Yields env base' ws q) ∧
      ∀ deletes, q ∈ base' →
        (∀ U, ProofTree (clausesOf env rules) ∅ base.quads q U → ∃ d ∈ deletes, d ∈ U) →
        q ∈ IncrementalReasoner.backwardPhase [p'] deletes := by
  rw [DatalogProgram.materialiseSeminaive] at h
  split at h
  · cases h
  · next m hm =>
    cases h
    refine ⟨nodup_derivationsFor hnew hm q, ?_, ?_⟩
    · intro id ws
      exact recorded_iff_yields hf hno hnew hm q ⟨id, ws⟩
    · intro deletes hq hall
      exact mem_backwardPhase_of_proofTrees hf hnew hm hq hall

theorem materialiseSeminaive_records_unary : ∃ (p p' : DatalogProgram Empty) (base' : QuadStore),
    DatalogProgram.new [unaryRule 2 [1] [], unaryRule 3 [2] []] = .ok p ∧
      p.materialiseSeminaive .plain (IncrementalReasoner.storeOf [unaryQuad 1 0]) =
        .ok (p', base') ∧
      (p'.derivedFrom.derivationsFor (unaryQuad 3 0)).Nodup ∧
      ∀ id ws, ⟨id, ws⟩ ∈ p'.derivedFrom.derivationsFor (unaryQuad 3 0) ↔
        ∃ r, [unaryRule 2 [1] [], unaryRule 3 [2] []][id]? = some r ∧ r.positivePatterns ≠ [] ∧
          r.Yields .plain base' ws (unaryQuad 3 0) := by
  have hrun :
      ((DatalogProgram.ofRules [unaryRule 2 [1] [], unaryRule 3 [2] []]).materialiseSeminaive
      .plain (IncrementalReasoner.storeOf [unaryQuad 1 0])).toBool = true := by decide
  have hsafe : ∀ r ∈ [unaryRule 2 [1] [], unaryRule 3 [2] []], isSafeRule r = .ok () := by
    decide
  have hno : ∀ r ∈ [unaryRule 2 [1] [], unaryRule 3 [2] []], r.notPatterns = [] := by decide
  have hnew := DatalogProgram.new_eq_ok_iff.mpr ⟨hsafe, rfl⟩
  cases h : (DatalogProgram.ofRules [unaryRule 2 [1] [], unaryRule 3 [2] []]).materialiseSeminaive
      .plain (IncrementalReasoner.storeOf [unaryQuad 1 0]) with
  | error e => rw [h] at hrun; cases hrun
  | ok res =>
    obtain ⟨hnodup, hiff, -⟩ := materialiseSeminaive_records ReasonerEnv.plain_fixedFilters hno hnew
      h (unaryQuad 3 0)
    exact ⟨_, res.1, res.2, hnew, h, hnodup, hiff⟩

end Records

section Example

/-- A guard that asks whether a quad is stored, as FILTER (EXISTS ..) does. -/
def existsEnv : ReasonerEnv Quad where
  evalExprAsFilter q _ rdf := decide (q ∈ rdf)
  quadOrder := id
  quadOrder_perm := List.Perm.refl
  ruleOrder := id
  ruleOrder_perm := List.Perm.refl

/-- The rules `3(0) :- 0 != 1`, `3(?x) :- 1(?x), FILTER (EXISTS 2(0))`, `2(?x) :- 1(?x)` and
`3(?x) :- 2(?x)`. -/
def guardedRules : List (Rule Quad) :=
  [⟨.normalHead ⟨.resource 0, .resource 0, .resource 3, .resource 0⟩,
      [.notEqualsAtom (.resource 0) (.resource 1)]⟩,
    ⟨.normalHead (unaryPattern 3),
      [.positivePattern (unaryPattern 1), .filterAtom (unaryQuad 2 0)]⟩,
    ⟨.normalHead (unaryPattern 2), [.positivePattern (unaryPattern 1)]⟩,
    ⟨.normalHead (unaryPattern 3), [.positivePattern (unaryPattern 2)]⟩]

/-- Two instances are missing on record: a rule without positive atoms is never triggered, and a
guard that reads the store is not evaluated again when the store has grown. -/
theorem materialiseSeminaive_misses : ∃ (p p' : DatalogProgram Quad) (base' : QuadStore)
    (r r' : Rule Quad), (∀ r ∈ guardedRules, r.notPatterns = []) ∧
      DatalogProgram.new guardedRules = .ok p ∧
      p.materialiseSeminaive existsEnv (IncrementalReasoner.storeOf [unaryQuad 1 0]) =
        .ok (p', base') ∧ base'.Derived (unaryQuad 3 0) ∧
      guardedRules[0]? = some r ∧ r.Yields existsEnv base' [] (unaryQuad 3 0) ∧
      ⟨0, []⟩ ∉ p'.derivedFrom.derivationsFor (unaryQuad 3 0) ∧
      guardedRules[1]? = some r' ∧ r'.Yields existsEnv base' [unaryQuad 1 0] (unaryQuad 3 0) ∧
      ⟨1, [unaryQuad 1 0]⟩ ∉ p'.derivedFrom.derivationsFor (unaryQuad 3 0) := by
  have hsafe : ∀ r ∈ guardedRules, isSafeRule r = .ok () := by decide
  have hno : ∀ r ∈ guardedRules, r.notPatterns = [] := by decide
  have hnew := DatalogProgram.new_eq_ok_iff.mpr ⟨hsafe, rfl⟩
  have hrun : (match (DatalogProgram.ofRules guardedRules).materialiseSeminaive existsEnv
        (IncrementalReasoner.storeOf [unaryQuad 1 0]) with
      | .error _ => false
      | .ok (p, base) => decide (base.Derived (unaryQuad 3 0) ∧ unaryQuad 1 0 ∈ base ∧
          unaryQuad 2 0 ∈ base ∧ p.derivedFrom.derivationsFor (unaryQuad 3 0) =
            [⟨3, [unaryQuad 2 0]⟩])) = true := by decide
  cases h : (DatalogProgram.ofRules guardedRules).materialiseSeminaive existsEnv
      (IncrementalReasoner.storeOf [unaryQuad 1 0]) with
  | error e => rw [h] at hrun; cases hrun
  | ok res =>
    simp only [h, decide_eq_true_eq] at hrun
    obtain ⟨hderived, hone, htwo, honly⟩ := hrun
    refine ⟨_, res.1, res.2, _, _, hno, hnew, h, hderived, rfl, ?_, ?_, rfl, ?_, ?_⟩
    · refine ⟨emptySubstitution, ⟨?_, fun _ _ => rfl, rfl, ?_⟩, rfl, rfl⟩
      · intro pattern hpattern
        cases hpattern
      · intro pattern hpattern
        cases hpattern
    · rw [honly]
      decide
    · refine ⟨Function.update emptySubstitution "x" (some 0), ⟨?_, ?_, ?_, ?_⟩, rfl, rfl⟩
      · intro pattern hpattern
        obtain rfl := List.mem_singleton.mp hpattern
        exact ⟨unaryQuad 1 0, hone, rfl⟩
      · intro v hv
        have hne : v ≠ "x" := by
          rintro rfl
          exact hv (unaryPattern 1) List.mem_cons_self (by decide)
        exact Function.update_of_ne hne _ _
      · simp [guardsHold, Rule.notEquals, Rule.filterExprs, existsEnv, htwo]
      · intro pattern hpattern
        cases hpattern
    · rw [honly]
      decide

end Example

end RdfDatalog.Datalog
