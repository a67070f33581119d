import RdfDatalog.Sparql.ServiceAnswers
import Mathlib.Algebra.Order.Ring.Unbundled.Rat
import Mathlib.Data.String.Basic

namespace RdfDatalog.Sparql

variable {N : NativeTypes}

section Comparator

/-- The lexical form of an element; blank nodes, triple terms and durations have none. -/
def graphElementToString : GraphElement N → Option String
  | .graphLiteral (.literalString s) => some s
  | .graphLiteral (.langLiteral _ literal) => some literal
  | .graphLiteral (.typedLiteral _ literal) => some literal
  | .graphLiteral (.integerLiteral n) => some (toString n)
  | .graphLiteral (.booleanLiteral b) => some (toString b)
  | .graphLiteral (.decimalLiteral d) => some (N.decimalText d)
  | .graphLiteral (.floatLiteral f) => some (N.floatText f)
  | .graphLiteral (.doubleLiteral d) => some (N.floatText d)
  | .graphLiteral (.dateLiteral d) => some (N.dateText d)
  | .graphLiteral (.dateTimeLiteral dt) => some (N.dateTimeText dt)
  | .graphLiteral (.timeLiteral t) => some (N.timeText t)
  | .nodeOrEdge (.iri iri) => some iri
  | _ => none

/-- How numbers are read: a lexical form, if it is one of a number, and a native float. -/
structure NumericReading (N : NativeTypes) where
  parse : String → Option ℚ
  floatValue : N.Float → ℚ

/-- The number a literal stands for, if its datatype is numeric. -/
def literalToF64 (reading : NumericReading N) : RdfLiteral N → Option ℚ
  | .integerLiteral i => reading.parse (toString i)
  | .doubleLiteral d => some (reading.floatValue d)
  | .decimalLiteral d => reading.parse (N.decimalText d)
  | .floatLiteral f => some (reading.floatValue f)
  | .typedLiteral typeIri literal =>
    if typeIri = xsdInteger ∨ typeIri = xsdDecimal ∨ typeIri = xsdDouble ∨ typeIri = xsdFloat then
      reading.parse literal
    else none
  | _ => none

/-- The order of two elements: of two numbers by value, of two IRIs as strings, of all others by
lexical form. -/
def compareGraphElementsTotal (reading : NumericReading N) (a b : GraphElement N) : Ordering :=
  let lexical := compare ((graphElementToString a).getD "") ((graphElementToString b).getD "")
  match a, b with
  | .graphLiteral al, .graphLiteral bl =>
    match literalToF64 reading al, literalToF64 reading bl with
    | some af, some bf => compare af bf
    | _, _ => lexical
  | .nodeOrEdge (.iri ai), .nodeOrEdge (.iri bi) => compare ai bi
  | _, _ => lexical

variable {reading : NumericReading N} {a b c : GraphElement N} {T : Set (GraphElement N)}

def numberOf (reading : NumericReading N) : GraphElement N → Option ℚ
  | .graphLiteral l => literalToF64 reading l
  | _ => none

def lexicalForm (e : GraphElement N) : String := (graphElementToString e).getD ""

theorem compareGraphElementsTotal_eq (reading : NumericReading N) (a b : GraphElement N) :
    compareGraphElementsTotal reading a b =
      match numberOf reading a, numberOf reading b with
      | some m, some n => compare m n
      | _, _ => compare (lexicalForm a) (lexicalForm b) := by
  have hlexical : compare ((graphElementToString a).getD "") ((graphElementToString b).getD "") =
      compare (lexicalForm a) (lexicalForm b) := rfl
  unfold compareGraphElementsTotal
  cases a with
  | graphLiteral al =>
    cases b with
    | graphLiteral bl => rfl
    | nodeOrEdge | tripleTerm =>
      cases hn : literalToF64 reading al <;> simp only [numberOf, hn, hlexical]
  | nodeOrEdge r =>
    cases b with
    | nodeOrEdge r' =>
      cases r <;> cases r' <;> rfl
    | graphLiteral | tripleTerm => cases r <;> rfl
  | tripleTerm k => cases b <;> rfl

theorem compare_numbers {m n : ℚ} (hm : numberOf reading a = some m)
    (hn : numberOf reading b = some n) : compareGraphElementsTotal reading a b = compare m n := by
  rw [compareGraphElementsTotal_eq, hm, hn]

theorem compare_lexical (h : numberOf reading a = none ∨ numberOf reading b = none) :
    compareGraphElementsTotal reading a b = compare (lexicalForm a) (lexicalForm b) := by
  rw [compareGraphElementsTotal_eq]
  rcases h with h | h
  · rw [h]
  · rw [h]
    cases numberOf reading a <;> rfl

theorem compare_swap {α : Type} [LinearOrder α] (a b : α) : compare b a = (compare a b).swap := by
  rcases lt_trichotomy a b with h | h | h
  · rw [compare_lt_iff_lt.mpr h, compare_gt_iff_gt.mpr h]
    rfl
  · rw [h, compare_eq_iff_eq.mpr rfl]
    rfl
  · rw [compare_gt_iff_gt.mpr h, compare_lt_iff_lt.mpr h]
    rfl

theorem compare_ne_gt_iff {α : Type} [LinearOrder α] {a b : α} : compare a b ≠ .gt ↔ a ≤ b := by
  rw [ne_eq, compare_gt_iff_gt, not_lt]

theorem compareGraphElementsTotal_swap (reading : NumericReading N) (a b : GraphElement N) :
    compareGraphElementsTotal reading b a = (compareGraphElementsTotal reading a b).swap := by
  cases ha : numberOf reading a with
  | none =>
    rw [compare_lexical (.inl ha), compare_lexical (.inr ha)]
    exact compare_swap _ _
  | some m =>
    cases hb : numberOf reading b with
    | none =>
      rw [compare_lexical (.inl hb), compare_lexical (.inr hb)]
      exact compare_swap _ _
    | some n =>
      rw [compare_numbers ha hb, compare_numbers hb ha]
      exact compare_swap _ _

/-- In the set there are two numbers and an element that is no number with a lexical form between
theirs, where the lexical forms of the numbers are in the order opposite to their values. -/
def Straddled (reading : NumericReading N) (T : Set (GraphElement N)) : Prop :=
  ∃ x ∈ T, ∃ y ∈ T, ∃ z ∈ T, ∃ m n, numberOf reading x = some m ∧ numberOf reading y = some n ∧
    numberOf reading z = none ∧ lexicalForm y ≤ lexicalForm z ∧ lexicalForm z ≤ lexicalForm x ∧
    (m < n ∨ m = n ∧ lexicalForm y ≠ lexicalForm x)

theorem not_straddled_of_consistentOn
    (h : ConsistentOn (compareGraphElementsTotal reading) T) : ¬ Straddled reading T := by
  intro ⟨x, hx, y, hy, z, hz, m, n, hm, hn, hnone, hyz, hzx, hor⟩
  have hyz' : compareGraphElementsTotal reading y z ≠ .gt := by
    rwa [compare_lexical (.inr hnone), compare_ne_gt_iff]
  have hzx' : compareGraphElementsTotal reading z x ≠ .gt := by
    rwa [compare_lexical (.inl hnone), compare_ne_gt_iff]
  rcases hor with hlt | ⟨heq, hne⟩
  · have hyx := h.trans y hy z hz x hx hyz' hzx'
    rw [compare_numbers hn hm, compare_ne_gt_iff] at hyx
    exact absurd hyx (not_le.mpr hlt)
  · have hxy : compareGraphElementsTotal reading x y ≠ .gt := by
      rw [compare_numbers hm hn, compare_ne_gt_iff, heq]
    have hzy := h.trans z hz x hx y hy hzx' hxy
    have hxz := h.trans x hx y hy z hz hxy hyz'
    rw [compare_lexical (.inl hnone), compare_ne_gt_iff] at hzy
    rw [compare_lexical (.inr hnone), compare_ne_gt_iff] at hxz
    exact hne ((le_antisymm hyz hzy).trans (le_antisymm hzx hxz))

theorem consistentOn_of_not_straddled (h : ¬ Straddled reading T) :
    ConsistentOn (compareGraphElementsTotal reading) T := by
  refine ⟨fun a _ b _ => compareGraphElementsTotal_swap reading a b, ?_⟩
  intro a ha b hb c hc hab hbc
  cases hna : numberOf reading a with
  | none =>
    rw [compare_lexical (.inl hna), compare_ne_gt_iff] at hab
    rw [compare_lexical (.inl hna), compare_ne_gt_iff]
    cases hnb : numberOf reading b with
    | none =>
      rw [compare_lexical (.inl hnb), compare_ne_gt_iff] at hbc
      exact hab.trans hbc
    | some n =>
      cases hnc : numberOf reading c with
      | none =>
        rw [compare_lexical (.inr hnc), compare_ne_gt_iff] at hbc
        exact hab.trans hbc
      | some k =>
        rw [compare_numbers hnb hnc, compare_ne_gt_iff] at hbc
        -- `c` is not below `b` as a number, so it is not below `a` as a string
        by_contra hca
        have hca := not_le.mp hca
        refine h ⟨b, hb, c, hc, a, ha, n, k, hnb, hnc, hna, hca.le, hab, ?_⟩
        rcases lt_or_eq_of_le hbc with hlt | heq
        · exact .inl hlt
        · exact .inr ⟨heq, (hca.trans_le hab).ne⟩
  | some m =>
    cases hnb : numberOf reading b with
    | none =>
      rw [compare_lexical (.inr hnb), compare_ne_gt_iff] at hab
      rw [compare_lexical (.inl hnb), compare_ne_gt_iff] at hbc
      cases hnc : numberOf reading c with
      | none =>
        rw [compare_lexical (.inr hnc), compare_ne_gt_iff]
        exact hab.trans hbc
      | some k =>
        rw [compare_numbers hna hnc, compare_ne_gt_iff]
        by_contra hca
        exact h ⟨c, hc, a, ha, b, hb, k, m, hnc, hna, hnb, hab, hbc, .inl (not_le.mp hca)⟩
    | some n =>
      rw [compare_numbers hna hnb, compare_ne_gt_iff] at hab
      cases hnc : numberOf reading c with
      | none =>
        rw [compare_lexical (.inr hnc), compare_ne_gt_iff] at hbc
        rw [compare_lexical (.inr hnc), compare_ne_gt_iff]
        by_contra hca
        have hca := not_le.mp hca
        refine h ⟨a, ha, b, hb, c, hc, m, n, hna, hnb, hnc, hbc, hca.le, ?_⟩
        rcases lt_or_eq_of_le hab with hlt | heq
        · exact .inl hlt
        · exact .inr ⟨heq, (hbc.trans_lt hca).ne⟩
      | some k =>
        rw [compare_numbers hnb hnc, compare_ne_gt_iff] at hbc
        rw [compare_numbers hna hnc, compare_ne_gt_iff]
        exact hab.trans hbc

end Comparator

section Rows

variable {lib : Library N} {conditions : List (ExprEval N × Bool)} {T : Set (GraphElement N)}

/-- The values by which the row is sorted are in the set. -/
def KeysIn (conditions : List (ExprEval N × Bool)) (T : Set (GraphElement N)) (r : PartialSub N) :
    Prop :=
  ∀ condition ∈ conditions, ∀ e ∈ condition.1.value r, e ∈ T

/-- One condition: missing values first, the other way round when descending. -/
def compareBy (lib : Library N) (condition : ExprEval N × Bool) (a b : PartialSub N) : Ordering :=
  let ord := noneFirst lib.compareGraphElementsTotal (condition.1.value a) (condition.1.value b)
  if condition.2 then ord else ord.swap

theorem compareRows_cons (condition : ExprEval N × Bool) (a b : PartialSub N) :
    SelectPlan.compareRows lib (condition :: conditions) a b =
      if compareBy lib condition a b = .eq then SelectPlan.compareRows lib conditions a b
      else compareBy lib condition a b := by
  obtain ⟨expr, ascending⟩ := condition
  have hdirect (ord rest : Ordering) :
      (if ord = .eq then rest else if ascending = true then ord else ord.swap) =
        if (if ascending = true then ord else ord.swap) = .eq then rest
        else if ascending = true then ord else ord.swap := by
    cases ascending <;> cases ord <;> rfl
  have hrows : SelectPlan.compareRows lib ((expr, ascending) :: conditions) a b =
      if noneFirst lib.compareGraphElementsTotal (expr.value a) (expr.value b) = .eq then
        SelectPlan.compareRows lib conditions a b
      else if ascending = true then
        noneFirst lib.compareGraphElementsTotal (expr.value a) (expr.value b)
      else (noneFirst lib.compareGraphElementsTotal (expr.value a) (expr.value b)).swap := by
    cases ha : expr.value a <;> cases hb : expr.value b <;>
      simp only [SelectPlan.compareRows, ha, hb, noneFirst] <;> rfl
  rw [hrows]
  exact hdirect _ _

theorem consistentOn_compareRows (h : ConsistentOn lib.compareGraphElementsTotal T) :
    ConsistentOn (SelectPlan.compareRows lib conditions) {r | KeysIn conditions T r} := by
  induction conditions with
  | nil => exact consistentOn_eq _
  | cons condition conditions ih =>
    have hkeys : {r | KeysIn (condition :: conditions) T r} ⊆ {r | KeysIn conditions T r} :=
      fun r hr c hc => hr c (List.mem_cons_of_mem _ hc)
    have hvalue := h.noneFirst.comap (f := condition.1.value)
      (S := {r | KeysIn (condition :: conditions) T r})
      fun r hr => hr condition List.mem_cons_self
    have hdirected : ConsistentOn (compareBy lib condition)
        {r | KeysIn (condition :: conditions) T r} := by
      unfold compareBy
      cases condition.2 with
      | true => exact hvalue
      | false => exact hvalue.reversed
    have hrows := hdirected.thenBy (ih.mono hkeys)
    have heq : SelectPlan.compareRows lib (condition :: conditions) = fun a b =>
        if compareBy lib condition a b = .eq then SelectPlan.compareRows lib conditions a b
        else compareBy lib condition a b :=
      funext fun a => funext fun b => compareRows_cons condition a b
    rw [heq]
    exact hrows

theorem sortSolutions_eq (lib : Library N) (rows : List (PartialSub N))
    (conditions : List (ExprEval N × Bool)) :
    SelectPlan.sortSolutions lib rows conditions =
      rows.mergeSort (notGreater (SelectPlan.compareRows lib conditions)) :=
  rfl

/-- The comparison is a consistent order of the elements of the set, and so are the rows whose
sort keys are in it, which are sorted. -/
structure OrdersBy (reading : NumericReading N) (T : Set (GraphElement N)) : Prop where
  consistent : ConsistentOn (compareGraphElementsTotal reading) T
  rows : ∀ lib : Library N, lib.compareGraphElementsTotal = compareGraphElementsTotal reading →
    ∀ conditions, ConsistentOn (SelectPlan.compareRows lib conditions) {r | KeysIn conditions T r}
  sorts : ∀ lib : Library N, lib.compareGraphElementsTotal = compareGraphElementsTotal reading →
    ∀ conditions rows, (∀ r ∈ rows, KeysIn conditions T r) →
      (SelectPlan.sortSolutions lib rows conditions).Perm rows ∧
      (SelectPlan.sortSolutions lib rows conditions).Pairwise fun a b =>
        SelectPlan.compareRows lib conditions a b ≠ .gt

/-- `ORDER BY` orders the elements of a set, and sorts rows by them, exactly when no element that
is not a number straddles two numbers. -/
theorem ordersBy_iff (reading : NumericReading N) (T : Set (GraphElement N)) :
    OrdersBy reading T ↔ ¬ Straddled reading T := by
  constructor
  · intro h
    exact not_straddled_of_consistentOn h.consistent
  · intro h
    have hcmp := consistentOn_of_not_straddled h
    have hrows (lib : Library N)
        (hlib : lib.compareGraphElementsTotal = compareGraphElementsTotal reading)
        (conditions : List (ExprEval N × Bool)) :
        ConsistentOn (SelectPlan.compareRows lib conditions) {r | KeysIn conditions T r} :=
      consistentOn_compareRows (hlib ▸ hcmp)
    refine ⟨hcmp, hrows, fun lib hlib conditions rows hkeys => ⟨List.mergeSort_perm _ _, ?_⟩⟩
    rw [sortSolutions_eq]
    exact (hrows lib hlib conditions).pairwise_mergeSort hkeys

/-- Strings of digits as numbers. -/
def digitReading : NumericReading NativeTypes.text where
  parse s :=
    if s ≠ "" ∧ s.toList.all Char.isDigit then
      some (s.toList.foldl (fun n c => 10 * n + (c.toNat - 48)) 0 : Nat)
    else none
  floatValue _ := 0

/-- `10`, the string `2x` and `9`: each is below the next, but `10` is not below `9`. -/
theorem not_ordersBy_mixed : ¬ ∀ T : Set (GraphElement NativeTypes.text),
    OrdersBy digitReading T := by
  intro h
  have htrans := (h Set.univ).consistent.trans
    (.graphLiteral (.integerLiteral 10)) trivial (.graphLiteral (.literalString "2x")) trivial
    (.graphLiteral (.integerLiteral 9)) trivial
  revert htrans
  decide

end Rows

section Complete

/-- A solution of the WHERE clause, or a group of them in an aggregate query. -/
inductive Candidate (N : NativeTypes) where
  | solution (sub : PartialSub N)
  | group (members : List (PartialSub N))

/-- A solution with the aliases of the projection; a later expression sees the earlier ones. -/
def completeSolution (projection : List (Projected N)) (sub : PartialSub N) : PartialSub N :=
  projection.foldl (fun extended elem =>
    match elem with
    | .expression expr aliasName =>
      match expr.value extended with
      | some val => extended.insert aliasName (.computed val)
      | none => extended
    | _ => extended) sub

/-- The first solution of a group with the aliases of the projection. -/
def completeGroup (projection : List (Projected N)) (members : List (PartialSub N)) :
    PartialSub N :=
  let rep := members.head?.getD ∅
  projection.foldl (fun extended elem =>
    match elem with
    | .expression expr aliasName =>
      match expr.inGroup members rep with
      | some val => extended.insert aliasName (.computed val)
      | none => extended
    | _ => extended) rep

namespace Candidate

def value (plan : SelectPlan N) (expr : ExprEval N) : Candidate N → Option (GraphElement N)
  | .solution sub => expr.value (completeSolution plan.projection sub)
  | .group members => expr.inGroup members (completeGroup plan.projection members)

def row (plan : SelectPlan N) : Candidate N → PartialSub N
  | .solution sub => projectWithExprsPartial sub plan.projection
  | .group members => projectAggregateRow plan.projection members

/-- The order conditions on complete solutions. -/
def compareFull (lib : Library N) (plan : SelectPlan N) :
    List (ExprEval N × Bool) → Candidate N → Candidate N → Ordering
  | [], _, _ => .eq
  | (expr, ascending) :: conditions, a, b =>
    let ord := noneFirst lib.compareGraphElementsTotal (a.value plan expr) (b.value plan expr)
    if ord = .eq then compareFull lib plan conditions a b
    else if ascending then ord else ord.swap

end Candidate

namespace SelectPlan

/-- The solutions or groups that become rows. -/
def candidates (plan : SelectPlan N) (solutions : List (PartialSub N)) : List (Candidate N) :=
  if plan.aggregateMode then
    ((groupBySolutions solutions plan.groupBy).filter fun group =>
      plan.having.all fun expr => (expr.having group (group.head?.getD ∅)).getD false).map .group
  else solutions.map .solution

theorem projectRows_eq (plan : SelectPlan N) (solutions : List (PartialSub N)) :
    plan.projectRows solutions = (plan.candidates solutions).map (Candidate.row plan) := by
  unfold projectRows candidates
  split_ifs
  · rw [List.map_map]
    rfl
  · rw [List.map_map]
    rfl

/-- The rows before `DISTINCT`, `OFFSET` and `LIMIT`. -/
def orderedRows (plan : SelectPlan N) (lib : Library N) (rows : List (PartialSub N)) :
    List (PartialSub N) :=
  if plan.orderBy.isEmpty then rows else sortSolutions lib rows plan.orderBy

/-- What is done to the sorted rows. -/
def finishRows (plan : SelectPlan N) (ds : Datastore N) (rows : List (PartialSub N)) :
    List (PartialSub N) :=
  sliceRows plan.offset plan.limit (if plan.distinct then distinctRows ds rows else rows)

theorem applyModifiers_eq (plan : SelectPlan N) (lib : Library N) (ds : Datastore N)
    (rows : List (PartialSub N)) :
    plan.applyModifiers lib ds rows = plan.finishRows ds (plan.orderedRows lib rows) :=
  rfl

theorem orderedRows_eq (plan : SelectPlan N) (lib : Library N) (rows : List (PartialSub N)) :
    plan.orderedRows lib rows = rows.mergeSort (notGreater (compareRows lib plan.orderBy)) := by
  unfold orderedRows
  split_ifs with hempty
  · rw [List.isEmpty_iff.mp hempty, List.mergeSort_of_pairwise]
    exact List.pairwise_of_forall fun _ _ => rfl
  · rfl

end SelectPlan

/-- The library with the comparison of this program. -/
def Library.withOrder (lib : Library N) (reading : NumericReading N) : Library N :=
  { lib with compareGraphElementsTotal := Sparql.compareGraphElementsTotal reading }

/-- The order conditions order the complete solutions of the set, and the rows of any list of them
come out as the projection of the sorted solutions; `f` is what is done to a row before the sort. -/
structure SortsFully (lib : Library N) (plan : SelectPlan N) (f : PartialSub N → PartialSub N)
    (T : Set (Candidate N)) : Prop where
  consistent : ConsistentOn (Candidate.compareFull lib plan plan.orderBy) T
  sorted : ∀ cs : List (Candidate N), (∀ c ∈ cs, c ∈ T) →
    plan.orderedRows lib (cs.map fun c => f (c.row plan)) =
      (cs.mergeSort (notGreater (Candidate.compareFull lib plan plan.orderBy))).map fun c =>
        f (c.row plan)

/-- The conditions say the same about the rows as about the complete solutions. -/
def RowsAgree (lib : Library N) (plan : SelectPlan N) (f : PartialSub N → PartialSub N)
    (T : Set (Candidate N)) : Prop :=
  ∀ a ∈ T, ∀ b ∈ T, f (a.row plan) = f (b.row plan) ∨
    (SelectPlan.compareRows lib plan.orderBy (f (a.row plan)) (f (b.row plan)) = .gt ↔
      Candidate.compareFull lib plan plan.orderBy a b = .gt)

theorem compareRows_self {lib : Library N} (reading : NumericReading N)
    (conditions : List (ExprEval N × Bool)) (r : PartialSub N) :
    SelectPlan.compareRows (lib.withOrder reading) conditions r r = .eq := by
  have hself (e : GraphElement N) : compareGraphElementsTotal reading e e = .eq := by
    have hswap := compareGraphElementsTotal_swap reading e e
    cases hcmp : compareGraphElementsTotal reading e e with
    | eq => rfl
    | lt | gt => rw [hcmp] at hswap; cases hswap
  induction conditions with
  | nil => rfl
  | cons condition conditions ih =>
    have hvalue : noneFirst (lib.withOrder reading).compareGraphElementsTotal
        (condition.1.value r) (condition.1.value r) = .eq := by
      cases condition.1.value r with
      | none => rfl
      | some e => exact hself e
    have hby : compareBy (lib.withOrder reading) condition r r = .eq := by
      rw [compareBy, hvalue]
      cases condition.2 <;> rfl
    rw [compareRows_cons, if_pos hby]
    exact ih

/-- `ORDER BY` sorts by the complete solutions exactly when its conditions order them, and say the
same about the projected rows wherever these differ. -/
theorem sortsFully_iff (reading : NumericReading N) (lib : Library N) (plan : SelectPlan N)
    (f : PartialSub N → PartialSub N) (T : Set (Candidate N)) :
    SortsFully (lib.withOrder reading) plan f T ↔
      ConsistentOn (Candidate.compareFull (lib.withOrder reading) plan plan.orderBy) T ∧
        RowsAgree (lib.withOrder reading) plan f T := by
  have hiff (h : ConsistentOn (Candidate.compareFull (lib.withOrder reading) plan plan.orderBy) T) :
      (∀ cs : List (Candidate N), (∀ c ∈ cs, c ∈ T) →
        (cs.map fun c => f (c.row plan)).mergeSort
            (notGreater (SelectPlan.compareRows (lib.withOrder reading) plan.orderBy)) =
          (cs.mergeSort (notGreater
            (Candidate.compareFull (lib.withOrder reading) plan plan.orderBy))).map fun c =>
              f (c.row plan)) ↔ RowsAgree (lib.withOrder reading) plan f T :=
    h.map_mergeSort_iff fun c _ => compareRows_self reading plan.orderBy _
  constructor
  · intro h
    refine ⟨h.consistent, (hiff h.consistent).mp fun cs hcs => ?_⟩
    rw [← SelectPlan.orderedRows_eq]
    exact h.sorted cs hcs
  · intro ⟨hconsistent, hagree⟩
    refine ⟨hconsistent, fun cs hcs => ?_⟩
    rw [SelectPlan.orderedRows_eq]
    exact (hiff hconsistent).mpr hagree cs hcs

theorem executeSelectInner_ordered (lib : Library N) (ds : Datastore N) (ag : ActiveGraph)
    (plan : SelectPlan N) : executeSelectInner lib ds ag plan =
      plan.finishRows ds (plan.orderedRows lib ((plan.candidates (evalComponentsBudgeted ds
        plan.whereClause [∅] ag plan.selectSolutionBudget)).map fun c => c.row plan)) := by
  rw [executeSelectInner, SelectPlan.applyModifiers_eq, SelectPlan.projectRows_eq]

theorem executeSelect_ordered (ctx : Context N) (plan : SelectPlan N) : executeSelect ctx plan =
      let ds := ctx.store.toDatastore
      plan.finishRows ds (plan.orderedRows ctx.lib ((plan.candidates (evalComponentsBudgeted ds
        plan.whereClause [∅] (datasetActiveGraph ds plan.dataset)
          plan.selectSolutionBudget)).map fun c => resolveRow ds (c.row plan))) := by
  rw [executeSelect]
  dsimp only
  rw [SelectPlan.applyModifiers_eq, SelectPlan.projectRows_eq, List.map_map]
  rfl

/-- The solutions sorted by the conditions over the complete solutions. -/
def SelectPlan.sortedCandidates (plan : SelectPlan N) (lib : Library N)
    (solutions : List (PartialSub N)) : List (Candidate N) :=
  (plan.candidates solutions).mergeSort (notGreater (Candidate.compareFull lib plan plan.orderBy))

/-- Where it sorts fully, a query finishes the projection of its sorted solutions. -/
theorem executeSelect_sorted (ctx : Context N) (plan : SelectPlan N) :
    let ds := ctx.store.toDatastore
    let solutions := evalComponentsBudgeted ds plan.whereClause [∅]
      (datasetActiveGraph ds plan.dataset) plan.selectSolutionBudget
    SortsFully ctx.lib plan (resolveRow ds) {c | c ∈ plan.candidates solutions} →
      executeSelect ctx plan = plan.finishRows ds ((plan.sortedCandidates ctx.lib solutions).map
        fun c => resolveRow ds (c.row plan)) := by
  intro ds solutions h
  rw [executeSelect_ordered]
  exact congrArg (plan.finishRows ds) (h.sorted _ fun c hc => hc)

theorem executeSelectInner_sorted (lib : Library N) (ds : Datastore N) (ag : ActiveGraph)
    (plan : SelectPlan N) :
    let solutions := evalComponentsBudgeted ds plan.whereClause [∅] ag plan.selectSolutionBudget
    SortsFully lib plan id {c | c ∈ plan.candidates solutions} →
      executeSelectInner lib ds ag plan =
        plan.finishRows ds ((plan.sortedCandidates lib solutions).map fun c => c.row plan) := by
  intro solutions h
  rw [executeSelectInner_ordered]
  exact congrArg (plan.finishRows ds) (h.sorted _ fun c hc => hc)

/-- `SELECT ?x ... ORDER BY ?k`. -/
def selectByKey : SelectPlan NativeTypes.text where
  projection := [.var "x"]
  dataset := []
  whereClause := []
  groupBy := []
  having := []
  orderBy := [(.ofVar .new "k", true)]
  limit := none
  offset := none
  distinct := false

def keyed (x : String) (k : Int) : Candidate NativeTypes.text :=
  .solution (((∅ : PartialSub NativeTypes.text).insert "x" (.computed (.iri x))).insert "k"
    (.computed (.graphLiteral (.integerLiteral k))))

/-- The key is not projected, so the rows stay as they were. -/
theorem not_sortsFully_keyed :
    ¬ ∀ (lib : Library NativeTypes.text) (plan : SelectPlan NativeTypes.text)
      (T : Set (Candidate NativeTypes.text)),
      ConsistentOn (Candidate.compareFull (lib.withOrder digitReading) plan plan.orderBy) T →
        SortsFully (lib.withOrder digitReading) plan id T := by
  intro h
  have hconsistent : ConsistentOn (Candidate.compareFull (Library.plain.withOrder digitReading)
      selectByKey selectByKey.orderBy) {c | c ∈ [keyed "a" 2, keyed "b" 1]} := by decide
  have hsorted := (h Library.plain selectByKey _ hconsistent).sorted [keyed "a" 2, keyed "b" 1]
    fun c hc => hc
  rw [SelectPlan.orderedRows_eq, List.map_cons, List.map_cons, List.map_nil, mergeSort_pair,
    mergeSort_pair, if_pos (by decide), if_neg (by decide)] at hsorted
  have hx := congrArg (Finmap.lookup "x") (List.cons.inj hsorted).1
  revert hx
  decide

end Complete

end RdfDatalog.Sparql
