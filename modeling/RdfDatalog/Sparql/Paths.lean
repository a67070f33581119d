import RdfDatalog.Math.GraphSearch
import RdfDatalog.Sparql.Bgp

namespace RdfDatalog.Sparql

open StackSearch

variable {N : NativeTypes}

variable (ds : Datastore N)

def resolveTermToGel (sub : PartialSub N) : Term N → Option (GraphElement N)
  | .var v => (sub.lookup v).bind (·.resolve ds)
  | .constant gel => some gel
  | .tripleTerm _ _ _ => none

def graphNodes (graph : Option GraphElementId) : List (GraphElement N) :=
  ((ds.namedGraphs.quadsMatching graph none none none).flatMap fun q =>
    [q.subject, q.obj].filterMap ds.resources.getGraphElement).dedup

/-- The graphs that own a quad, the default graph included. -/
def distinctGraphIds : List GraphElementId :=
  ((ds.namedGraphs.quadsMatching none none none none).map (·.tripleId)).dedup

def zeroHopAllNodes (ag : ActiveGraph) (subjVar objVar : String)
    (sub : PartialSub N) : List (PartialSub N) :=
  let forGraph (base : PartialSub N) (gid : GraphElementId) :=
    (graphNodes ds (some gid)).map fun gel =>
      (base.insert subjVar (.computed gel)).insert objVar (.computed gel)
  match ag with
  | .fixed id => forGraph sub id
  | .var gvar =>
    match (sub.lookup gvar).bind (·.toId ds) with
    | some id => forGraph sub id
    | none => (distinctGraphIds ds).flatMap fun id => forGraph (sub.insert gvar (.interned id)) id

def zeroHopSolutions (ag : ActiveGraph) (subjectTerm objectTerm : Term N)
    (sub : PartialSub N) : List (PartialSub N) :=
  match resolveTermToGel ds sub subjectTerm, resolveTermToGel ds sub objectTerm with
  | some s, some o => if s = o then [sub] else []
  | some s, none =>
    match objectTerm with
    | .var v => [sub.insert v (.computed s)]
    | _ => []
  | none, some o =>
    match subjectTerm with
    | .var v => [sub.insert v (.computed o)]
    | _ => []
  | none, none =>
    match subjectTerm, objectTerm with
    | .var sv, .var ov => zeroHopAllNodes ds ag sv ov sub
    | _, _ => []

/-- The evaluation of a path between two terms: how it extends a solution. The state is the
counter of the bridge variables. -/
abbrev PathEval (N : NativeTypes) :=
  ActiveGraph → Term N → Term N → PartialSub N → StateM Nat (List (PartialSub N))

def bridgeName (n : Nat) : String := "__path_bridge_" ++ toString n

def freshBridgeVar : StateM Nat String := fun n => (bridgeName n, n + 1)

def tcNext : String := "__tc_next"

def tcPrev : String := "__tc_prev"

/-- Evaluate each row and collect the results. -/
def forRows (eval : PartialSub N → StateM Nat (List (PartialSub N))) :
    List (PartialSub N) → StateM Nat (List (PartialSub N))
  | [] => pure []
  | sub :: rest => do
    let extended ← eval sub
    let others ← forRows eval rest
    pure (extended ++ others)

/-- The steps of a sequence, with a fresh bridge variable between any two; returns the names of
the bridge variables too. -/
def evalSteps (ag : ActiveGraph) (objectTerm : Term N) : List (PathEval N) → Term N →
    List (PartialSub N) → StateM Nat (List (PartialSub N) × List String)
  | [], _, rows => pure (rows, [])
  | [step], subject, rows => do
    let rows ← forRows (step ag subject objectTerm) rows
    pure (rows, [])
  | step :: next :: steps, subject, rows => do
    let name ← freshBridgeVar
    let rows ← forRows (step ag subject (.var name)) rows
    let (rows, names) ← evalSteps ag objectTerm (next :: steps) (.var name) rows
    pure (rows, name :: names)

def removeAll (names : List String) (sub : PartialSub N) : PartialSub N :=
  names.foldl (fun sub name => sub.erase name) sub

def evalSequence (steps : List (PathEval N)) : PathEval N := fun ag subjectTerm objectTerm sub => do
  let (rows, names) ← evalSteps ag objectTerm steps subjectTerm [sub]
  pure (rows.map (removeAll names))

/-- More steps than a search over the store can take: it finds every element at most once, and
elements of the store, its start and a value of the row only. -/
def searchFuel : Nat := ds.resources.resourceCount + 4

/-- All elements that are reached from `start` by one or more hops; `target` is the variable
that a hop binds. -/
def reachableFrom (hop : GraphElement N → StateM Nat (List (PartialSub N)))
    (target : String) (includeZero : Bool) (start : GraphElement N) :
    StateM Nat (List (GraphElement N)) := do
  let step (current : GraphElement N) : StateM Nat (List (GraphElement N)) := do
    let rows ← hop current
    pure (rows.filterMap fun row => (row.lookup target).bind (·.resolve ds))
  let visited ← search step (searchFuel ds) ⟨[start], []⟩
  pure (if includeZero && !visited.contains start then visited ++ [start] else visited)

/-- The graphs to scan when no end is bound: the row to extend, and the active graph. -/
def graphScopes (ag : ActiveGraph) (sub : PartialSub N) :
    List (PartialSub N × ActiveGraph × GraphElementId) :=
  match ag with
  | .fixed id => [(sub, ag, id)]
  | .var v =>
    match (sub.lookup v).bind (·.toId ds) with
    | some id => [(sub, ag, id)]
    | none => (distinctGraphIds ds).map fun id => (sub.insert v (.interned id), .fixed id, id)

/-- Add a row unless an equal one is there. -/
def pushNew (rows : List (PartialSub N)) (row : PartialSub N) : List (PartialSub N) :=
  if rows.any fun r => partialSubsEqual ds r row then rows else rows ++ [row]

theorem mem_foldl_pushNew {ds : Datastore N} {rows acc : List (PartialSub N)} {r : PartialSub N}
    (hr : r ∈ rows.foldl (pushNew ds) acc) : r ∈ acc ∨ r ∈ rows := by
  induction rows generalizing acc with
  | nil => exact .inl hr
  | cons row rows ih =>
    rcases ih hr with hr | hr
    · unfold pushNew at hr
      split_ifs at hr
      · exact .inl hr
      · rcases List.mem_append.mp hr with hr | hr
        · exact .inl hr
        · exact .inr (List.mem_singleton.mp hr ▸ List.mem_cons_self)
    · exact .inr (List.mem_cons_of_mem _ hr)

/-- The pairs that start at each of the given nodes. -/
def forNodes (reach : GraphElement N → StateM Nat (List (GraphElement N))) :
    List (GraphElement N) → StateM Nat (List (GraphElement N × GraphElement N))
  | [] => pure []
  | s :: nodes => do
    let reached ← reach s
    let others ← forNodes reach nodes
    pure (reached.map (Prod.mk s) ++ others)

/-- Both ends unbound: a search from every node of each graph. -/
def closureAllNodes (ds : Datastore N) (eval : PathEval N) (includeZero : Bool)
    (subjVar objVar : String) :
    List (PartialSub N × ActiveGraph × GraphElementId) → StateM Nat (List (PartialSub N))
  | [] => pure []
  | (base, ag, gid) :: scopes => do
    let hop (current : GraphElement N) := eval ag (.constant current) (.var tcNext) base
    let pairs ← forNodes (reachableFrom ds hop tcNext includeZero) (graphNodes ds (some gid))
    let others ← closureAllNodes ds eval includeZero subjVar objVar scopes
    pure (pairs.map (fun (s, o) =>
      (base.insert subjVar (.computed s)).insert objVar (.computed o)) ++ others)

/-- One or more hops of a path, or any number of them. -/
def transitiveClosure (eval : PathEval N) (includeZero : Bool) : PathEval N :=
  fun ag subjectTerm objectTerm sub =>
    let forward (current : GraphElement N) := eval ag (.constant current) (.var tcNext) sub
    -- the inverse path from `current` is the path to it
    let backward (current : GraphElement N) := eval ag (.var tcPrev) (.constant current) sub
    match resolveTermToGel ds sub subjectTerm, resolveTermToGel ds sub objectTerm with
    | some s, some o => do
      let reachable ← reachableFrom ds forward tcNext includeZero s
      pure (if reachable.contains o then [sub] else [])
    | some s, none => do
      let reachable ← reachableFrom ds forward tcNext includeZero s
      match objectTerm with
      | .var objVar => pure (reachable.map fun gel => sub.insert objVar (.computed gel))
      | _ => pure []
    | none, some o => do
      let reachable ← reachableFrom ds backward tcPrev includeZero o
      match subjectTerm with
      | .var subjVar => pure (reachable.map fun gel => sub.insert subjVar (.computed gel))
      | _ => pure []
    | none, none =>
      match subjectTerm, objectTerm with
      | .var subjVar, .var objVar => do
        let rows ← closureAllNodes ds eval includeZero subjVar objVar (graphScopes ds ag sub)
        pure (rows.foldl (pushNew ds) [])
      | _, _ => pure []

/-- `inner{k}`: the path of no steps, or a sequence of `k` of them. -/
def evalExactRepeat (inner : PathEval N) (k : Nat) : PathEval N :=
  if k = 0 then fun ag s o sub => pure (zeroHopSolutions ds ag s o sub)
  else evalSequence (List.replicate k inner)

def evalAlternatives : List (PathEval N) → PathEval N
  | [] => fun _ _ _ _ => pure []
  | eval :: evals => fun ag s o sub => do
    let first ← eval ag s o sub
    let others ← evalAlternatives evals ag s o sub
    pure (first ++ others)

/-- A closed range is the union of the exact counts; `inner{min,}` is `inner{min}/inner*`. -/
def evalRepeatPath (inner : PathEval N) (min : Nat) : Option Nat → PathEval N
  | some max =>
    evalAlternatives ((List.range' min (max + 1 - min)).map (evalExactRepeat ds inner))
  | none => evalSequence (List.replicate min inner ++ [transitiveClosure ds inner true])

def evalNegatedSet (excluded : List (GraphElement N)) (ag : ActiveGraph)
    (subjectTerm objectTerm : Term N) (sub : PartialSub N) : List (PartialSub N) :=
  let s := resolveMatchTerm ds sub subjectTerm
  let o := resolveMatchTerm ds sub objectTerm
  if s = .never ∨ o = .never then []
  else
    let excludedIds := excluded.filterMap ds.resources.resourceMap.lookup
    (ds.namedGraphs.quadsMatching (ag.id ds sub) s.intoQueryArg none o.intoQueryArg).filterMap
      fun quad =>
        if quad.predicate ∈ excludedIds then none
        else (bindTerm ds quad.subject sub subjectTerm).bind fun sub =>
          bindTerm ds quad.obj sub objectTerm

mutual

/-- Extend a solution by a property path. -/
def evalPathPattern (qs : QueryStore N) : PropertyPath N → PathEval N
  | .iri gel => fun ag s o sub => pure (evalTriplePattern qs ag ⟨s, .constant gel, o⟩ sub none)
  | .sequence steps => evalSequence (evalPathPatterns qs steps)
  | .alternative left right => evalAlternatives [evalPathPattern qs left, evalPathPattern qs right]
  | .inverse inner => fun ag s o sub => evalPathPattern qs inner ag o s sub
  | .zeroOrOne inner => fun ag s o sub => do
    let oneHop ← evalPathPattern qs inner ag s o sub
    pure (oneHop.foldl (pushNew qs.toDatastore) (zeroHopSolutions qs.toDatastore ag s o sub))
  | .oneOrMore inner => transitiveClosure qs.toDatastore (evalPathPattern qs inner) false
  | .zeroOrMore inner => transitiveClosure qs.toDatastore (evalPathPattern qs inner) true
  | .repeat inner min max => evalRepeatPath qs.toDatastore (evalPathPattern qs inner) min max
  | .negatedSet excluded => fun ag s o sub =>
    pure (evalNegatedSet qs.toDatastore excluded ag s o sub)

def evalPathPatterns (qs : QueryStore N) : List (PropertyPath N) → List (PathEval N)
  | [] => []
  | path :: paths => evalPathPattern qs path :: evalPathPatterns qs paths

end

theorem evalPathPatterns_eq_map (qs : QueryStore N) (steps : List (PropertyPath N)) :
    evalPathPatterns qs steps = steps.map (evalPathPattern qs) := by
  induction steps with
  | nil => rfl
  | cons path steps ih => rw [evalPathPatterns, ih, List.map_cons]

end RdfDatalog.Sparql
