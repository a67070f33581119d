import RdfDatalog.Sparql.Bgp
import Mathlib.Algebra.Order.Monoid.WithTop

namespace RdfDatalog.Sparql

open GreedyOrder

variable {N : NativeTypes}

section Variables

mutual

/-- The variables a component refers to. The expression of a `BIND`, the operands of `NOT IN` and
the projection of a subquery are not looked at. -/
def collectComponentVars : QueryComponent N → Finset String
  | .bgp patterns => patterns.foldr (fun tp vars => tp.variables ∪ vars) ∅
  | .pathPattern subject _ object => subject.variables ∪ object.variables
  | .union left right => variablesInComponents left ∪ variablesInComponents right
  | .optional inner | .minus inner | .service _ inner _ | .group inner =>
    variablesInComponents inner
  | .graph term inner => term.variables ∪ variablesInComponents inner
  | .values names _ => names.toFinset
  | .bind _ aliasName => {aliasName}
  | .filter expr => collectExprVars expr
  | .subquery query => collectQueryVars query

def variablesInComponents : List (QueryComponent N) → Finset String
  | [] => ∅
  | comp :: comps => collectComponentVars comp ∪ variablesInComponents comps

def collectExprVars : Expression N → Finset String
  | .var v => {v}
  | .constant _ => ∅
  | .binary left _ right => collectExprVars left ∪ collectExprVars right
  | .unary _ inner => collectExprVars inner
  | .functionCall _ args => collectExprsVars args
  | .isIn expr list => collectExprVars expr ∪ collectExprsVars list
  | .exists inner | .notExists inner => variablesInComponents inner
  | .notIn _ _ | .aggregate _ => ∅

def collectExprsVars : List (Expression N) → Finset String
  | [] => ∅
  | expr :: exprs => collectExprVars expr ∪ collectExprsVars exprs

def collectQueryVars : Query N → Finset String
  | .select _ _ whereClause _ _ _ _ _ _ | .ask _ whereClause | .construct _ _ whereClause
  | .describe _ _ whereClause => variablesInComponents whereClause

end

mutual

/-- Variables that a component binds in every solution that survives it. -/
def mustBindVars : QueryComponent N → Finset String
  | .bgp patterns => patterns.foldr (fun tp vars => tp.variables ∪ vars) ∅
  | .pathPattern subject _ object => subject.variables ∪ object.variables
  | .union left right => mustBindSequence left ∩ mustBindSequence right
  | .graph (.var v) inner => insert v (mustBindSequence inner)
  | .graph _ inner => mustBindSequence inner
  | .group inner => mustBindSequence inner
  | .values names rows =>
    ((names.zipIdx.filter fun (_, i) => rows.all fun row => row[i]?.join.isSome).map
      Prod.fst).toFinset
  | .bind _ _ | .optional _ | .minus _ | .filter _ | .service _ _ _ | .subquery _ => ∅

def mustBindSequence : List (QueryComponent N) → Finset String
  | [] => ∅
  | comp :: comps => mustBindVars comp ∪ mustBindSequence comps

end

end Variables

section Costs

mutual

/-- A coarse proxy of the output size; the top element is the source's `usize::MAX`. -/
def estimateCardinality (ds : Datastore N) : QueryComponent N → WithTop Nat
  | .bgp patterns => (patterns.map fun tp => (knownCardinality ds tp : WithTop Nat)).foldr min ⊤
  | .union left right => estimateSequence ds left + estimateSequence ds right
  | .values _ rows => rows.length
  | .graph _ inner => estimateSequence ds inner
  | .pathPattern _ _ _ | .subquery _ | .optional _ | .filter _ | .bind _ _ | .minus _
  | .service _ _ _ | .group _ => ⊤

def estimateSequence (ds : Datastore N) : List (QueryComponent N) → WithTop Nat
  | [] => ⊤
  | comp :: comps => min (estimateCardinality ds comp) (estimateSequence ds comps)

end

/-- How many variables of the component are bound already. -/
def connectedness (bound : Finset String) (comp : QueryComponent N) : Nat :=
  (collectComponentVars comp ∩ bound).card

end Costs

section Barriers

/-- Reordering pays off for a group with a `UNION`, `OPTIONAL` or `MINUS` only. -/
def shouldReorder (components : List (QueryComponent N)) : Bool :=
  2 ≤ components.length && components.any fun
    | .union _ _ | .optional _ | .minus _ => true
    | _ => false

def isHardBarrier : QueryComponent N → Bool
  | .filter _ | .bind _ _ | .service _ _ _ => true
  | _ => false

def isSoftBarrier : QueryComponent N → Bool
  | .optional _ | .minus _ => true
  | _ => false

def isBarrier (comp : QueryComponent N) : Bool := isHardBarrier comp || isSoftBarrier comp

/-- The variables of a barrier that are not bound for certain when it is reached. -/
def barrierInternalOnlyVars (comp : QueryComponent N) (guaranteedBefore : Finset String) :
    Finset String :=
  collectComponentVars comp \ guaranteedBefore

end Barriers

section Order

variable {α : Type} (comp : α → QueryComponent N)

def isUnion : QueryComponent N → Bool
  | .union _ _ => true
  | _ => false

/-- The variables that are bound once the components have been scheduled. -/
def addComponentVars (bound : Finset String) (run : List α) : Finset String :=
  run.foldl (fun bound c => bound ∪ collectComponentVars (comp c)) bound

/-- The position of the best component: connected to more bound variables, then smaller; of
several best ones the first. -/
def pickBest (ds : Datastore N) (bound : Finset String) (remaining : List α) : Nat :=
  argBest (fun best k => decide (best.1 < k.1 ∨ (best.1 = k.1 ∧ k.2 < best.2)))
    (remaining.map fun c => (connectedness bound (comp c), estimateCardinality ds (comp c)))

/-- The order of a run of conjuncts: as it stands, or greedy when it has a `UNION`. -/
def flushRun (ds : Datastore N) (bound : Finset String) (run : List α) : List α :=
  if 2 ≤ run.length && run.any fun c => isUnion (comp c) then
    greedy (pickBest comp ds) (fun bound c => bound ∪ collectComponentVars (comp c)) run.length
      bound run
  else run

/-- Each component with the variables that are bound for certain before it. -/
def guaranteedBefore : Finset String → List α → List (α × Finset String)
  | _, [] => []
  | guaranteed, c :: cs =>
    (c, guaranteed) :: guaranteedBefore (guaranteed ∪ mustBindVars (comp c)) cs

/-- The scan of `orderComponents`; the fuel is the number of components. -/
def orderFrom (ds : Datastore N) : Nat → Finset String → List α → List (α × Finset String) → List α
  | 0, bound, pending, _ => flushRun comp ds bound pending
  | _, bound, pending, [] => flushRun comp ds bound pending
  | fuel + 1, bound, pending, (c, guaranteed) :: rest =>
    if isHardBarrier (comp c) then
      let bound := addComponentVars comp bound pending
      flushRun comp ds bound pending ++ c ::
        orderFrom ds fuel (addComponentVars comp bound [c]) [] rest
    else if isSoftBarrier (comp c) then
      let internalOnly := barrierInternalOnlyVars (comp c) guaranteed
      -- the conjuncts right after the barrier that do not touch its own variables go before it
      let ahead := (rest.takeWhile fun c => !isBarrier (comp c.1)).map Prod.fst
      let independent (c : α) : Bool :=
        decide (Disjoint (collectComponentVars (comp c)) internalOnly)
      let hoisted := ahead.filter independent
      let leftover := ahead.filter fun c => !independent c
      let boundRun := addComponentVars comp bound pending
      let boundHoisted := addComponentVars comp boundRun hoisted
      flushRun comp ds bound pending ++ flushRun comp ds boundRun hoisted ++ c ::
        orderFrom ds fuel (addComponentVars comp boundHoisted [c]) leftover
          (rest.dropWhile fun c => !isBarrier (comp c.1))
    else orderFrom ds fuel bound (pending ++ [c]) rest

def orderComponents (components : List α) (alreadyBound guaranteedBound : Finset String)
    (ds : Datastore N) : List α :=
  orderFrom comp ds components.length alreadyBound []
    (guaranteedBefore comp guaranteedBound components)

theorem flushRun_perm (ds : Datastore N) (bound : Finset String) (run : List α) :
    (flushRun comp ds bound run).Perm run := by
  rw [flushRun]
  split_ifs
  · exact greedy_perm _ _ _ _ _
  · exact .refl run

theorem map_fst_guaranteedBefore (guaranteed : Finset String) (components : List α) :
    (guaranteedBefore comp guaranteed components).map Prod.fst = components := by
  induction components generalizing guaranteed with
  | nil => rfl
  | cons c cs ih => rw [guaranteedBefore, List.map_cons, ih]

theorem orderFrom_perm (ds : Datastore N) {fuel : Nat} {bound : Finset String} {pending : List α}
    {rest : List (α × Finset String)} (hfuel : rest.length ≤ fuel) :
    (orderFrom comp ds fuel bound pending rest).Perm (pending ++ rest.map Prod.fst) := by
  induction fuel generalizing bound pending rest with
  | zero =>
    obtain rfl := List.eq_nil_of_length_eq_zero (Nat.le_zero.mp hfuel)
    rw [orderFrom, List.map_nil, List.append_nil]
    exact flushRun_perm comp ds bound pending
  | succ fuel ih =>
    cases rest with
    | nil =>
      have horder : orderFrom comp ds (fuel + 1) bound pending [] =
          flushRun comp ds bound pending :=
        rfl
      rw [horder, List.map_nil, List.append_nil]
      exact flushRun_perm comp ds bound pending
    | cons entry rest =>
      have hlen : rest.length ≤ fuel := Nat.le_of_succ_le_succ hfuel
      rw [orderFrom, List.map_cons]
      split_ifs
      · exact (flushRun_perm comp ds _ pending).append ((ih hlen).cons entry.1)
      · let isConjunct (c : α × Finset String) : Bool := !isBarrier (comp c.1)
        let ahead := (rest.takeWhile isConjunct).map Prod.fst
        let later := (rest.dropWhile isConjunct).map Prod.fst
        let independent (c : α) : Bool := decide (Disjoint (collectComponentVars (comp c))
          (barrierInternalOnlyVars (comp entry.1) entry.2))
        have hrest : rest.map Prod.fst = ahead ++ later := by
          rw [← List.map_append, List.takeWhile_append_dropWhile]
        have hahead : (ahead.filter independent ++ ahead.filter fun c => !independent c).Perm
            ahead := List.filter_append_perm independent ahead
        have hlater := @ih (addComponentVars comp (addComponentVars comp
          (addComponentVars comp bound pending) (ahead.filter independent)) [entry.1])
          (ahead.filter fun c => !independent c) (rest.dropWhile isConjunct)
          (((rest.dropWhile_suffix isConjunct).length_le).trans hlen)
        rw [hrest, List.append_assoc]
        apply (flushRun_perm comp ds bound pending).append
        apply ((flushRun_perm comp ds _ (ahead.filter independent)).append
          (hlater.cons entry.1)).trans
        apply List.perm_middle.trans
        apply List.Perm.cons
        rw [← List.append_assoc]
        exact hahead.append_right later
      · have hperm := @ih bound (pending ++ [entry.1]) rest hlen
        rw [List.append_assoc] at hperm
        exact hperm

theorem orderComponents_perm (components : List α) (alreadyBound guaranteedBound : Finset String)
    (ds : Datastore N) :
    (orderComponents comp components alreadyBound guaranteedBound ds).Perm components := by
  have hlen : (guaranteedBefore comp guaranteedBound components).length = components.length := by
    rw [← List.length_map Prod.fst, map_fst_guaranteedBefore]
  have hperm := @orderFrom_perm _ _ comp ds _ alreadyBound [] _ hlen.le
  rw [map_fst_guaranteedBefore] at hperm
  exact hperm

end Order

end RdfDatalog.Sparql
