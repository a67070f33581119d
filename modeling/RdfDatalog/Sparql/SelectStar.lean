import RdfDatalog.Sparql.BoundVariables
import RdfDatalog.Sparql.ServiceAnswers

namespace RdfDatalog.Sparql

variable {N : NativeTypes}

section Header

/-- The variables of a term that the header does not count. -/
def missedInTerm : Term N → Finset String
  | .var v => if isInternalVariable v then {v} else ∅
  | .constant _ => ∅
  | .tripleTerm s p o => (Term.tripleTerm s p o).variables

def missedInPatterns (patterns : List (TriplePattern N)) : Finset String :=
  patterns.foldr (fun tp acc =>
    missedInTerm tp.subject ∪ missedInTerm tp.predicate ∪ missedInTerm tp.object ∪ acc) ∅

mutual

/-- The variables that the header counts in the bodies of MINUS. -/
def minusVariablesOf : QueryComponent N → Finset String
  | .minus inner => (collectVarsFromComponents inner).toFinset
  | .optional inner | .group inner | .graph _ inner | .service _ inner _ => minusVariables inner
  | .union left right => minusVariables left ∪ minusVariables right
  | .bgp _ | .pathPattern _ _ _ | .subquery _ | .filter _ | .bind _ _ | .values _ _ => ∅

def minusVariables : List (QueryComponent N) → Finset String
  | [] => ∅
  | comp :: comps => minusVariablesOf comp ∪ minusVariables comps

end

mutual

/-- The variables in scope that the header passes over: those of a triple term, of a SERVICE
endpoint, of a nested `SELECT *`, and those with the name of an internal one. -/
def missedVariablesOf : QueryComponent N → Finset String
  | .bgp patterns => missedInPatterns patterns
  | .pathPattern subject _ object => missedInTerm subject ∪ missedInTerm object
  | .subquery (.select projection _ whereClause _ _ _ _ _ _) =>
    if projection.any isStar then inScope whereClause else ∅
  | .subquery _ => ∅
  | .optional inner | .group inner => missedVariables inner
  | .union left right => missedVariables left ∪ missedVariables right
  | .filter _ | .minus _ | .bind _ _ => ∅
  | .values vars _ => (vars.filter isInternalVariable).toFinset
  | .graph graphTerm inner => missedInTerm graphTerm ∪ missedVariables inner
  | .service endpoint inner _ => endpoint.variables ∪ missedVariables inner

def missedVariables : List (QueryComponent N) → Finset String
  | [] => ∅
  | comp :: comps => missedVariablesOf comp ∪ missedVariables comps

end

variable {v : String}

/-- How a variable is accounted for: the header counts it or misses it exactly if it is in scope or
stands in MINUS; what stands in MINUS is counted, and what is missed is in scope. -/
structure Accounts (counted missed inside subtracted : Prop) : Prop where
  balance : counted ∨ missed ↔ inside ∨ subtracted
  of_subtracted : subtracted → counted
  of_missed : missed → inside

variable {a b c d a' b' c' d' : Prop}

theorem Accounts.or (h : Accounts a b c d) (h' : Accounts a' b' c' d') :
    Accounts (a ∨ a') (b ∨ b') (c ∨ c') (d ∨ d') := by
  have hbalance := h.balance
  have hbalance' := h'.balance
  exact ⟨by tauto, Or.imp h.of_subtracted h'.of_subtracted, Or.imp h.of_missed h'.of_missed⟩

theorem Accounts.of_iff (hd : ¬ d) (h : c ↔ a ∨ b) : Accounts a b c d :=
  ⟨by rw [h, or_iff_left hd], fun hsub => absurd hsub hd, fun hb => h.mpr (.inr hb)⟩

theorem Accounts.congr (h : Accounts a b c d) (ha : a' ↔ a) (hb : b' ↔ b) (hc : c' ↔ c)
    (hd : d' ↔ d) : Accounts a' b' c' d' := by
  rw [ha, hb, hc, hd]
  exact h

theorem accounts_term (v : String) (T : Term N) :
    Accounts (v ∈ collectVarsFromTerm T) (v ∈ missedInTerm T) (v ∈ T.variables) False := by
  refine .of_iff not_false ?_
  cases T with
  | var w =>
    rw [Term.variables, collectVarsFromTerm, missedInTerm]
    split_ifs <;> simp
  | constant gel => simp [Term.variables, collectVarsFromTerm, missedInTerm]
  | tripleTerm s p o => simp [collectVarsFromTerm, missedInTerm]

theorem accounts_patterns (patterns : List (TriplePattern N)) :
    Accounts (v ∈ collectVarsFromComponent (.bgp patterns : QueryComponent N))
      (v ∈ missedInPatterns patterns) (v ∈ patternVariables patterns) False := by
  induction patterns with
  | nil =>
    exact .of_iff not_false
      (by simp [collectVarsFromComponent, missedInPatterns, patternVariables])
  | cons tp rest ih =>
    have htriple := ((accounts_term v tp.subject).or (accounts_term v tp.predicate)).or
      (accounts_term v tp.object)
    refine (htriple.or ih).congr ?_ ?_ ?_ (by simp)
    · simp [collectVarsFromComponent, or_assoc]
    · simp [missedInPatterns, or_assoc]
    · simp [patternVariables, TriplePattern.variables, or_assoc]

theorem mem_collectVarsFromProjection {projection : List (ProjectionElement N)} :
    v ∈ collectVarsFromProjection projection ↔ v ∈ projection.filterMap projectedName := by
  induction projection with
  | nil => rfl
  | cons elem rest ih =>
    cases elem with
    | star => exact ih
    | var | expression => simp [collectVarsFromProjection, projectedName, ih]

mutual

theorem accounts_component : (comp : QueryComponent N) →
    Accounts (v ∈ collectVarsFromComponent comp) (v ∈ missedVariablesOf comp) (v ∈ inScopeOf comp)
      (v ∈ minusVariablesOf comp)
  | .bgp patterns => by
    refine (accounts_patterns patterns).congr Iff.rfl ?_ ?_ ?_
    · rw [missedVariablesOf]
    · rw [inScopeOf]
    · simp [minusVariablesOf]
  | .pathPattern subject path object => by
    refine ((accounts_term v subject).or (accounts_term v object)).congr ?_ ?_ ?_ ?_
    · simp [collectVarsFromComponent]
    · simp [missedVariablesOf]
    · simp [inScopeOf]
    · simp [minusVariablesOf]
  | .subquery query => by
    cases query with
    | select projection dataset whereClause groupBy having orderBy limit offset distinct =>
      refine .of_iff (by simp [minusVariablesOf]) ?_
      simp [collectVarsFromComponent, missedVariablesOf, inScopeOf, inScopeOfQuery,
        mem_collectVarsFromProjection]
    | ask | construct | describe =>
      refine .of_iff (by simp [minusVariablesOf]) ?_
      simp [collectVarsFromComponent, missedVariablesOf, inScopeOf, inScopeOfQuery]
  | .union left right => by
    refine ((accounts_components left).or (accounts_components right)).congr ?_ ?_ ?_ ?_
    · simp [collectVarsFromComponent]
    · simp [missedVariablesOf]
    · simp [inScopeOf]
    · simp [minusVariablesOf]
  | .filter _ | .bind _ _ => by
    refine .of_iff (by simp [minusVariablesOf]) ?_
    simp [collectVarsFromComponent, missedVariablesOf, inScopeOf]
  | .values vars data => by
    refine .of_iff (by simp [minusVariablesOf]) ?_
    simp only [collectVarsFromComponent, missedVariablesOf, inScopeOf, List.mem_toFinset,
      List.mem_filter, Bool.not_eq_true', ← and_or_left]
    cases isInternalVariable v <;> simp
  | .minus inner => by
    refine ⟨?_, fun h => ?_, fun h => ?_⟩
    · simp [collectVarsFromComponent, missedVariablesOf, inScopeOf, minusVariablesOf]
    · rw [minusVariablesOf, List.mem_toFinset] at h
      rwa [collectVarsFromComponent]
    · simp [missedVariablesOf] at h
  | .graph graphTerm inner => by
    refine ((accounts_term v graphTerm).or (accounts_components inner)).congr ?_ ?_ ?_ ?_
    · simp [collectVarsFromComponent]
    · simp [missedVariablesOf]
    · simp [inScopeOf]
    · simp [minusVariablesOf]
  | .service endpoint inner silent => by
    have hendpoint : Accounts False (v ∈ endpoint.variables) (v ∈ endpoint.variables) False :=
      .of_iff not_false (by simp)
    refine (hendpoint.or (accounts_components inner)).congr ?_ ?_ ?_ ?_
    · simp [collectVarsFromComponent]
    · simp [missedVariablesOf]
    · simp [inScopeOf]
    · simp [minusVariablesOf]
  | .optional inner | .group inner => by
    refine (accounts_components inner).congr ?_ ?_ ?_ ?_
    · rw [collectVarsFromComponent]
    · rw [missedVariablesOf]
    · rw [inScopeOf]
    · rw [minusVariablesOf]

theorem accounts_components : (comps : List (QueryComponent N)) →
    Accounts (v ∈ collectVarsFromComponents comps) (v ∈ missedVariables comps) (v ∈ inScope comps)
      (v ∈ minusVariables comps)
  | [] => by
    exact .of_iff (by simp [minusVariables])
      (by simp [collectVarsFromComponents, missedVariables, inScope])
  | comp :: comps => by
    refine ((accounts_component comp).or (accounts_components comps)).congr ?_ ?_ ?_ ?_
    · simp [collectVarsFromComponents]
    · simp [missedVariables]
    · simp [inScope]
    · simp [minusVariables]

end

theorem mem_projectionVariables {components : List (QueryComponent N)} :
    v ∈ projectionVariables [.star] components ↔ v ∈ collectVarsFromComponents components := by
  have hstar : [(.star : ProjectionElement N)].any isStar = true := rfl
  unfold projectionVariables
  rw [if_pos hstar, List.mem_dedup]
  exact (List.mergeSort_perm _ _).mem_iff

end Header

section Rows

variable {ds : Datastore N} {K : Finset String} {a b : PartialSub N}

/-- The variable has the same value in both rows, or none. -/
def AgreeAt (ds : Datastore N) (a b : PartialSub N) (v : String) : Prop :=
  (a.lookup v = none ∧ b.lookup v = none) ∨
    ∃ e, (a.lookup v).bind (·.resolve ds) = some e ∧ (b.lookup v).bind (·.resolve ds) = some e

/-- The variables that the parser makes of blank nodes without a label. -/
def bnName (k : ℕ) : String := "__bn_" ++ toString k

/-- The variables of the query that are in scope at the end of the pattern. -/
def starScope (made : Finset ℕ) (whereClause : List (QueryComponent N)) : Finset String :=
  inScope whereClause \ made.image bnName

theorem psvEq_of_resolve {x y : PartialSubValue N} {e : GraphElement N} (hx : x.resolve ds = some e)
    (hy : y.resolve ds = some e) : psvEq ds x y = true := by
  cases x with
  | interned i =>
    cases y with
    | interned j => exact decide_eq_true (GraphElementManager.getGraphElement_inj hx hy)
    | computed gel => exact decide_eq_true (hx.trans hy.symm)
  | computed gel =>
    cases y with
    | interned j => exact decide_eq_true (hx.trans hy.symm)
    | computed gel' =>
      cases hx
      cases hy
      exact decide_eq_true rfl

theorem lookup_none_of_within {v : String} (h : Within K a) (hv : v ∉ K) : a.lookup v = none :=
  Finmap.lookup_eq_none.mpr fun hmem => hv (h v hmem)

theorem partialSubsEqual_of_agreeAt (ha : Within K a) (hb : Within K b)
    (h : ∀ v ∈ K, AgreeAt ds a b v) : partialSubsEqual ds a b = true := by
  have hall (v : String) : AgreeAt ds a b v := by
    by_cases hv : v ∈ K
    · exact h v hv
    · exact .inl ⟨lookup_none_of_within ha hv, lookup_none_of_within hb hv⟩
  have hkeys : a.keys = b.keys := by
    ext v
    rw [Finmap.mem_keys, Finmap.mem_keys, ← not_iff_not, ← Finmap.lookup_eq_none,
      ← Finmap.lookup_eq_none]
    rcases hall v with ⟨hna, hnb⟩ | ⟨e, hea, heb⟩
    · rw [hna, hnb]
    · obtain ⟨x, hx, -⟩ := Option.bind_eq_some_iff.mp hea
      obtain ⟨y, hy, -⟩ := Option.bind_eq_some_iff.mp heb
      simp [hx, hy]
  refine decide_eq_true ⟨by rw [hkeys], fun v hv => ?_⟩
  rcases hall v with ⟨hna, -⟩ | ⟨e, hea, heb⟩
  · exact absurd (Finmap.mem_keys.mp hv) (Finmap.lookup_eq_none.mp hna)
  · obtain ⟨x, hx, hxe⟩ := Option.bind_eq_some_iff.mp hea
    obtain ⟨y, hy, hye⟩ := Option.bind_eq_some_iff.mp heb
    rw [hx, hy]
    exact psvEq_of_resolve hxe hye

theorem pairwise_foldl_pushNew (rows : List (PartialSub N)) {acc : List (PartialSub N)}
    (h : acc.Pairwise fun a b => partialSubsEqual ds a b = false) :
    (rows.foldl (pushNew ds) acc).Pairwise fun a b => partialSubsEqual ds a b = false := by
  induction rows generalizing acc with
  | nil => exact h
  | cons row rest ih =>
    refine ih ?_
    unfold pushNew
    split_ifs with hany
    · exact h
    · refine List.pairwise_append.mpr ⟨h, List.pairwise_singleton _ _, fun a ha b hb => ?_⟩
      rw [List.mem_singleton.mp hb]
      rw [List.any_eq_true, not_exists] at hany
      exact Bool.eq_false_iff.mpr fun heq => hany a ⟨ha, heq⟩

/-- The rows have the values of a solution each, at the variables and nowhere else, and if they are
to be distinct, no two agree. -/
structure ProjectsOnto (ds : Datastore N) (K : Finset String) (distinct : Bool)
    (value : PartialSubValue N → PartialSubValue N) (solutions rows : List (PartialSub N)) :
    Prop where
  values : ∀ row ∈ rows, ∃ sub ∈ solutions, ∀ v,
    row.lookup v = if v ∈ K then (sub.lookup v).map value else none
  apart : distinct = true → rows.Pairwise fun a b => ¬ ∀ v ∈ K, AgreeAt ds a b v

variable {lib : Library N} {value : PartialSubValue N → PartialSubValue N}
  {solutions rows : List (PartialSub N)}

theorem ProjectsOnto.of_modifiers (plan : SelectPlan N) (hwithin : AllWithin K rows)
    (hrows : ∀ row ∈ rows,
      ∃ sub ∈ solutions, ∀ v, row.lookup v = (sub.lookup v).map value) :
    ProjectsOnto ds K plan.distinct value solutions (plan.applyModifiers lib ds rows) := by
  refine ⟨fun row hrow => ?_, fun hdistinct => ?_⟩
  · have hmem := SelectPlan.mem_of_mem_applyModifiers hrow
    obtain ⟨sub, hsub, hlookup⟩ := hrows row hmem
    refine ⟨sub, hsub, fun v => ?_⟩
    split_ifs with hv
    · exact hlookup v
    · exact lookup_none_of_within (hwithin row hmem) hv
  · have hpairwise : (plan.applyModifiers lib ds rows).Pairwise fun a b =>
        partialSubsEqual ds a b = false := by
      unfold SelectPlan.applyModifiers
      rw [hdistinct]
      exact (pairwise_foldl_pushNew _ List.Pairwise.nil).sublist
        (SelectPlan.sliceRows_sublist _ _ _)
    refine hpairwise.imp_of_mem fun {a b} ha hb hne hagree => ?_
    have heq := partialSubsEqual_of_agreeAt (hwithin a (SelectPlan.mem_of_mem_applyModifiers ha))
      (hwithin b (SelectPlan.mem_of_mem_applyModifiers hb)) hagree
    rw [heq] at hne
    cases hne

end Rows

section Star

/-- `SELECT * WHERE ...`, with its modifiers. -/
def starQuery (dataset : List (DatasetClause N)) (whereClause : List (QueryComponent N))
    (orderBy : List (OrderCondition N)) (limit offset : Option Nat) (distinct : Bool) : Query N :=
  .select [.star] dataset whereClause [] [] orderBy limit offset distinct

/-- What `SELECT *` has to do, as a query and as a subquery: the header has the variables in scope,
and the rows are the solutions at these variables; a subquery inside GRAPH has the variable of the
graph too. -/
structure StarProjects (ctx : Context N) (made : Finset ℕ) (dataset : List (DatasetClause N))
    (whereClause : List (QueryComponent N)) (orderBy : List (OrderCondition N))
    (limit offset : Option Nat) (distinct : Bool) : Prop where
  query : ∃ vars rows plan,
    evaluateQuery ctx (starQuery dataset whereClause orderBy limit offset distinct) =
      .select vars rows ∧
    planQuery ctx (starQuery dataset whereClause orderBy limit offset distinct) = some plan ∧
    (∀ v, v ∈ vars ↔ v ∈ starScope made whereClause) ∧
    ProjectsOnto ctx.store.toDatastore (starScope made whereClause) distinct
      (·.resolved ctx.store.toDatastore)
      (evalComponentsBudgeted ctx.store.toDatastore plan.whereClause [∅]
        (datasetActiveGraph ctx.store.toDatastore dataset) plan.selectSolutionBudget) rows
  subquery : ∃ plan,
    planQuery ctx (starQuery dataset whereClause orderBy limit offset distinct) = some plan ∧
    ∀ ag, ProjectsOnto ctx.store.toDatastore (starScope made whereClause ∪ ag.variables) distinct id
      (evalComponentsBudgeted ctx.store.toDatastore plan.whereClause [∅] ag
        plan.selectSolutionBudget)
      (executeSelectInner ctx.lib ctx.store.toDatastore ag plan)

/-- What `SELECT *` asks of its pattern: what the header counts in MINUS is in scope, what it misses
is counted elsewhere, and no variable in scope is one that the parser has made. -/
structure StarFits (made : Finset ℕ) (whereClause : List (QueryComponent N)) : Prop where
  minus : minusVariables whereClause ⊆ inScope whereClause
  counted : ∀ v ∈ missedVariables whereClause, v ∈ collectVarsFromComponents whereClause
  unmade : ∀ k ∈ made, bnName k ∉ inScope whereClause

variable {ctx : Context N} {made : Finset ℕ} {whereClause : List (QueryComponent N)}
  {K : Finset String}

theorem header_iff : (∀ v, v ∈ projectionVariables [.star] whereClause ↔
    v ∈ starScope made whereClause) ↔
    minusVariables whereClause ⊆ starScope made whereClause ∧
      (∀ v ∈ missedVariables whereClause \ made.image bnName,
        v ∈ collectVarsFromComponents whereClause) ∧
      ∀ k ∈ made, bnName k ∉ collectVarsFromComponents whereClause := by
  have haccounts (v : String) : Accounts (v ∈ collectVarsFromComponents whereClause) _ _ _ :=
    accounts_components whereClause
  simp only [mem_projectionVariables, starScope, Finset.mem_sdiff]
  constructor
  · intro h
    refine ⟨fun v hv => ?_, fun v hv => ?_, fun k hk hcounted => ?_⟩
    · exact Finset.mem_sdiff.mpr ((h v).mp ((haccounts v).of_subtracted hv))
    · exact (h v).mpr ⟨(haccounts v).of_missed hv.1, hv.2⟩
    · exact ((h _).mp hcounted).2 (Finset.mem_image_of_mem bnName hk)
  · rintro ⟨hminus, hmissed, hmade⟩ v
    constructor
    · intro hv
      rcases (haccounts v).balance.mp (.inl hv) with hscope | hsub
      · refine ⟨hscope, fun himage => ?_⟩
        obtain ⟨k, hk, rfl⟩ := Finset.mem_image.mp himage
        exact hmade k hk hv
      · exact Finset.mem_sdiff.mp (hminus hsub)
    · rintro ⟨hscope, hv⟩
      rcases (haccounts v).balance.mpr (.inl hscope) with hcounted | hmiss
      · exact hcounted
      · exact hmissed v ⟨hmiss, hv⟩

theorem starScope_eq (h : ∀ k ∈ made, bnName k ∉ inScope whereClause) :
    starScope made whereClause = inScope whereClause := by
  refine Finset.sdiff_eq_self_of_disjoint (Finset.disjoint_right.mpr fun v hv => ?_)
  obtain ⟨k, hk, rfl⟩ := Finset.mem_image.mp hv
  exact h k hk

theorem lookup_resolveRow (ds : Datastore N) (sub : PartialSub N) (v : String) :
    (resolveRow ds sub).lookup v = (sub.lookup v).map (·.resolved ds) := by
  refine Option.ext fun val => ?_
  rw [Finmap.lookup_eq_some_iff, Option.map_eq_some_iff]
  constructor
  · intro hval
    obtain ⟨entry, hentry, heq⟩ := Multiset.mem_map.mp hval
    cases heq
    exact ⟨entry.2, Finmap.lookup_eq_some_iff.mpr hentry, rfl⟩
  · rintro ⟨x, hx, rfl⟩
    exact Multiset.mem_map.mpr ⟨⟨v, x⟩, Finmap.lookup_eq_some_iff.mp hx, rfl⟩

theorem projectWithExprsPartial_star (sub : PartialSub N) :
    projectWithExprsPartial sub [.star] = sub := by
  change sub ∪ ∅ = sub
  exact Finmap.union_empty

theorem datasetActiveGraph_variables (ds : Datastore N) (dataset : List (DatasetClause N)) :
    (datasetActiveGraph ds dataset).variables = ∅ := by
  induction dataset with
  | nil => rfl
  | cons clause clauses ih =>
    cases clause with
    | named gel => exact ih
    | default gel =>
      unfold datasetActiveGraph
      split
      · rfl
      · exact ih

def starPlan (ctx : Context N) (dataset : List (DatasetClause N))
    (whereClause : List (QueryComponent N)) (orderBy : List (OrderCondition N))
    (limit offset : Option Nat) (distinct : Bool) : SelectPlan N where
  projection := [.star]
  dataset := dataset
  whereClause := planComponents ctx whereClause
  groupBy := []
  having := []
  orderBy := planOrderBy ctx orderBy
  limit := limit
  offset := offset
  distinct := distinct

theorem projectRows_starPlan {dataset : List (DatasetClause N)} {orderBy : List (OrderCondition N)}
    {limit offset : Option Nat} {distinct : Bool} (solutions : List (PartialSub N)) :
    (starPlan ctx dataset whereClause orderBy limit offset distinct).projectRows solutions =
      solutions := by
  change (solutions.map fun sub => projectWithExprsPartial sub [.star]) = solutions
  simp only [projectWithExprsPartial_star, List.map_id']

variable {dataset : List (DatasetClause N)} {orderBy : List (OrderCondition N)}
  {limit offset : Option Nat} {distinct : Bool}

theorem evaluateQuery_starQuery :
    evaluateQuery ctx (starQuery dataset whereClause orderBy limit offset distinct) =
      .select (projectionVariables [.star] whereClause)
        (executeSelect ctx (starPlan ctx dataset whereClause orderBy limit offset distinct)) := rfl

theorem allWithin_starSolutions (hctx : ServicesBind ctx) {ag : ActiveGraph}
    (hag : ag.variables ⊆ K)
    (hK : inScope whereClause ⊆ K) (budget : Option Nat) :
    AllWithin K
      (evalComponentsBudgeted ctx.store.toDatastore (planComponents ctx whereClause) [∅] ag
      budget) :=
  allWithin_evalComponentsBudgeted (planComponents_binds hctx whereClause) hK hag
    (allWithin_singleton within_empty)

theorem projectsOnto_executeSelect (hctx : ServicesBind ctx) :
    ProjectsOnto ctx.store.toDatastore (inScope whereClause) distinct
      (·.resolved ctx.store.toDatastore)
      (evalComponentsBudgeted ctx.store.toDatastore (planComponents ctx whereClause) [∅]
        (datasetActiveGraph ctx.store.toDatastore dataset)
        (starPlan ctx dataset whereClause orderBy limit offset distinct).selectSolutionBudget)
      (executeSelect ctx (starPlan ctx dataset whereClause orderBy limit offset distinct)) := by
  have hag : (datasetActiveGraph ctx.store.toDatastore dataset).variables ⊆ inScope
      whereClause := by
    rw [datasetActiveGraph_variables]
    exact Finset.empty_subset _
  have hsolutions := allWithin_starSolutions hctx hag (Finset.Subset.refl _)
    (starPlan ctx dataset whereClause orderBy limit offset distinct).selectSolutionBudget
  simp only [executeSelect, projectRows_starPlan]
  refine ProjectsOnto.of_modifiers (starPlan ctx dataset whereClause orderBy limit offset distinct)
    (fun row hrow v hv => ?_) fun row hrow => ?_
  · obtain ⟨sub, hsub, rfl⟩ := List.mem_map.mp hrow
    rw [← Finmap.lookup_isSome, lookup_resolveRow, Option.isSome_map, Finmap.lookup_isSome] at hv
    exact hsolutions sub hsub v hv
  · obtain ⟨sub, hsub, rfl⟩ := List.mem_map.mp hrow
    exact ⟨sub, hsub, lookup_resolveRow _ sub⟩

theorem projectsOnto_executeSelectInner (hctx : ServicesBind ctx) (ag : ActiveGraph) :
    ProjectsOnto ctx.store.toDatastore (inScope whereClause ∪ ag.variables) distinct id
      (evalComponentsBudgeted ctx.store.toDatastore (planComponents ctx whereClause) [∅] ag
        (starPlan ctx dataset whereClause orderBy limit offset distinct).selectSolutionBudget)
      (executeSelectInner ctx.lib ctx.store.toDatastore ag
        (starPlan ctx dataset whereClause orderBy limit offset distinct)) := by
  have hsolutions := allWithin_starSolutions hctx
    (Finset.subset_union_right : ag.variables ⊆ inScope whereClause ∪ ag.variables)
    Finset.subset_union_left
    (starPlan ctx dataset whereClause orderBy limit offset distinct).selectSolutionBudget
  simp only [executeSelectInner, projectRows_starPlan]
  refine ProjectsOnto.of_modifiers (starPlan ctx dataset whereClause orderBy limit offset distinct)
    hsolutions fun row hrow => ?_
  exact ⟨row, hrow, fun v => Option.map_id'.symm⟩

theorem header_of_fits (h : StarFits made whereClause) :
    ∀ v, v ∈ projectionVariables [.star] whereClause ↔ v ∈ starScope made whereClause := by
  refine header_iff.mpr ⟨?_, fun v hv => ?_, fun k hk hcounted => ?_⟩
  · rw [starScope_eq h.unmade]
    exact h.minus
  · exact h.counted v (Finset.mem_sdiff.mp hv).1
  · rcases (accounts_components whereClause).balance.mp (.inl hcounted) with hin | hsub
    · exact h.unmade k hk hin
    · exact h.unmade k hk (h.minus hsub)

/-- `SELECT *` does what it has to on a pattern that fits, and its header is right exactly if what
MINUS adds is in scope, what is missed is counted elsewhere and nothing made is counted. -/
theorem selectStar_projects (hctx : ServicesBind ctx) (made : Finset ℕ)
    (dataset : List (DatasetClause N)) (whereClause : List (QueryComponent N))
    (orderBy : List (OrderCondition N)) (limit offset : Option Nat) (distinct : Bool) :
    (StarFits made whereClause →
      StarProjects ctx made dataset whereClause orderBy limit offset distinct) ∧
    ((∀ v, v ∈ projectionVariables [.star] whereClause ↔ v ∈ starScope made whereClause) ↔
      minusVariables whereClause ⊆ starScope made whereClause ∧
        (∀ v ∈ missedVariables whereClause \ made.image bnName,
          v ∈ collectVarsFromComponents whereClause) ∧
        ∀ k ∈ made, bnName k ∉ collectVarsFromComponents whereClause) := by
  refine ⟨fun h => ?_, header_iff⟩
  have hscope := starScope_eq h.unmade
  refine ⟨⟨_, _, starPlan ctx dataset whereClause orderBy limit offset distinct,
    evaluateQuery_starQuery, rfl, header_of_fits h, ?_⟩,
    ⟨starPlan ctx dataset whereClause orderBy limit offset distinct, rfl, fun ag => ?_⟩⟩
  · rw [hscope]
    exact projectsOnto_executeSelect hctx
  · rw [hscope]
    exact projectsOnto_executeSelectInner hctx ag

end Star

section Samples

theorem servicesBind_plain : ServicesBind Context.plain := nofun

/-- `?s ?p ?o` -/
def anyTriple : QueryComponent NativeTypes.text := .bgp [⟨.var "s", .var "p", .var "o"⟩]

/-- `SELECT * WHERE ?s ?p ?o` with a blank node elsewhere in the request. -/
theorem selectStar_projects_anyTriple :
    StarProjects Context.plain {0} [] [anyTriple] [] none none true := by
  refine (selectStar_projects servicesBind_plain _ _ _ _ _ _ _).1 ⟨?_, fun v hv =>
    ?_, fun k hk => ?_⟩
  · decide
  · cases hv
  · obtain rfl := Finset.mem_singleton.mp hk
    decide

/-- `SELECT * WHERE (MINUS ?s ?p ?o)`: no variable is in scope, and the header has three. -/
theorem not_starProjects_minus :
    ¬ ∀ (ctx : Context NativeTypes.text) (made : Finset ℕ)
      (dataset : List (DatasetClause NativeTypes.text))
      (whereClause : List (QueryComponent NativeTypes.text))
      (orderBy : List (OrderCondition NativeTypes.text)) (limit offset : Option Nat)
      (distinct : Bool), ServicesBind ctx →
        StarProjects ctx made dataset whereClause orderBy limit offset distinct := by
  intro h
  obtain ⟨vars, rows, plan, heval, -, hvars, -⟩ :=
    (h Context.plain ∅ [] [.minus [anyTriple]] [] none none false servicesBind_plain).query
  rw [evaluateQuery_starQuery] at heval
  cases heval
  have hscope := (hvars "s").mp (mem_projectionVariables.mpr (by decide))
  exact absurd (Finset.mem_sdiff.mp hscope).1 (by decide)

end Samples

end RdfDatalog.Sparql
