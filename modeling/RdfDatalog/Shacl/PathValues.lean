import RdfDatalog.Shacl.Shapes
import RdfDatalog.Math.GraphSearch

namespace RdfDatalog.Shacl

variable {N : NativeTypes} (data : Datastore N)

abbrev Pair := GraphElementId × GraphElementId

section Evaluation

def allNodes : List GraphElementId :=
  ((data.namedGraphs.quadList.filter fun q => q.tripleId = defaultGraphElementId).flatMap
    fun q => [q.subject, q.obj]).dedup

def successors (base : List Pair) (x : GraphElementId) : List GraphElementId :=
  (base.filter fun p => p.1 = x).map Prod.snd

/-- The loop of the closure; `none` where it has not ended yet. -/
def closureFrom (base : List Pair) :
    Nat → StackSearch.Search GraphElementId → Option (List GraphElementId)
  | 0, _ => none
  | fuel + 1, s =>
    match s.stack with
    | [] => some s.visited
    | cur :: rest =>
      closureFrom base fuel ((successors base cur).foldl StackSearch.discover ⟨rest, s.visited⟩)

def transitiveClosure (fuel : Nat) (base : List Pair) (includeZero : Bool) :
    Option (List Pair) :=
  ((base.map Prod.fst).dedup.mapM fun start =>
    (closureFrom base fuel ⟨[start], []⟩).map fun found => found.map fun n => (start, n)).map
      fun found => (found.flatten ++ if includeZero then (allNodes data).map fun n => (n, n)
        else []).dedup

def joinPairs (current next : List Pair) : List Pair :=
  (current.flatMap fun p => (successors next p.2).map fun o => (p.1, o)).dedup

/-- The pairs that steps lead along one after the other. -/
def sequencePairs : List (List Pair) → List Pair
  | [] => []
  | first :: steps => steps.foldl joinPairs first

mutual

def pairs (fuel : Nat) : ShPath → Option (List Pair)
  | .predicate iri =>
    match lookupIri data iri with
    | none => some []
    | some predId => some ((data.getTriplesWithPredicate predId).map fun t => (t.subject, t.obj))
  | .inverse inner => (pairs fuel inner).map (List.map Prod.swap)
  | .sequence steps => (pairsOfList fuel steps).map sequencePairs
  | .alternative branches => (pairsOfList fuel branches).map fun found => found.flatten.dedup
  | .zeroOrOne inner =>
    (pairs fuel inner).map fun found => (found ++ (allNodes data).map fun n => (n, n)).dedup
  | .oneOrMore inner => (pairs fuel inner).bind fun base => transitiveClosure data fuel base false
  | .zeroOrMore inner => (pairs fuel inner).bind fun base => transitiveClosure data fuel base true

def pairsOfList (fuel : Nat) : List ShPath → Option (List (List Pair))
  | [] => some []
  | path :: paths =>
    (pairs fuel path).bind fun found => (pairsOfList fuel paths).map fun rest => found :: rest

end

/-- The values that a path leads to; the cache of the source holds the same pairs. -/
def valuesFrom (fuel : Nat) (node : GraphElementId) : ShPath → Option (List GraphElementId)
  | .predicate iri => some (getObjects data node iri)
  | path => (pairs data fuel path).map fun found => successors found node

/-- The values to test: those of the path, or the node itself. -/
def valuesFor (fuel : Nat) (node : GraphElementId) : Option ShPath → Option (List GraphElementId)
  | some path => valuesFrom data fuel node path
  | none => some [node]

end Evaluation

section Ending

variable {data}

variable {base : List Pair} {scope : Finset GraphElementId} {fuel : Nat}
  {s : StackSearch.Search GraphElementId}

theorem closureFrom_isSome (hscope : ∀ p ∈ base, p.2 ∈ scope)
    (hfuel : StackSearch.work scope s < fuel) : (closureFrom base fuel s).isSome := by
  induction fuel generalizing s with
  | zero => omega
  | succ fuel ih =>
    rw [closureFrom]
    cases hstack : s.stack with
    | nil => rfl
    | cons cur rest =>
      apply ih
      have hfound : ∀ y ∈ successors base cur, y ∈ scope := by
        intro y hy
        obtain ⟨p, hp, rfl⟩ := List.mem_map.mp hy
        exact hscope p (List.mem_of_mem_filter hp)
      rw [StackSearch.work_foldl_discover _ hfound]
      simp only [StackSearch.work, hstack, List.length_cons] at hfuel ⊢
      omega

theorem mem_of_closureFrom (hscope : ∀ p ∈ base, p.2 ∈ scope) (hs : ∀ y ∈ s.visited, y ∈ scope)
    {found : List GraphElementId} (h : closureFrom base fuel s = some found) :
    ∀ y ∈ found, y ∈ scope := by
  induction fuel generalizing s with
  | zero => cases h
  | succ fuel ih =>
    rw [closureFrom] at h
    cases hstack : s.stack with
    | nil =>
      rw [hstack] at h
      cases h
      exact hs
    | cons cur rest =>
      rw [hstack] at h
      refine ih (fun y hy => ?_) h
      rcases ((StackSearch.foldl_discover _ _).1 y).mp hy with hy | hy
      · exact hs y hy
      · obtain ⟨p, hp, rfl⟩ := List.mem_map.mp hy
        exact hscope p (List.mem_of_mem_filter hp)

/-- The pairs are of nodes of the default graph. -/
def Within (data : Datastore N) (found : List Pair) : Prop :=
  ∀ p ∈ found, p.1 ∈ allNodes data ∧ p.2 ∈ allNodes data

theorem within_diagonal : Within data ((allNodes data).map fun n => (n, n)) := by
  intro p hp
  obtain ⟨n, hn, rfl⟩ := List.mem_map.mp hp
  exact ⟨hn, hn⟩

theorem Within.append {found found' : List Pair} (h : Within data found)
    (h' : Within data found') : Within data (found ++ found').dedup := by
  intro p hp
  rcases List.mem_append.mp (List.mem_dedup.mp hp) with hp | hp
  · exact h p hp
  · exact h' p hp

theorem within_predicate {predId : GraphElementId} :
    Within data ((data.getTriplesWithPredicate predId).map fun t => (t.subject, t.obj)) := by
  intro p hp
  obtain ⟨q, hq, rfl⟩ := List.mem_map.mp hp
  obtain ⟨hmem, _, hgraph⟩ :=
    (data.namedGraphs.wellFormed.exactLookups.withIdPredicate _ predId).mem q |>.mp hq
  have hfilter : q ∈ data.namedGraphs.quadList.filter
      fun q => q.tripleId = defaultGraphElementId :=
    List.mem_filter.mpr ⟨hmem, by simpa using hgraph⟩
  constructor
  · exact List.mem_dedup.mpr (List.mem_flatMap.mpr ⟨q, hfilter, by simp⟩)
  · exact List.mem_dedup.mpr (List.mem_flatMap.mpr ⟨q, hfilter, by simp⟩)

theorem Within.swap {found : List Pair} (h : Within data found) :
    Within data (found.map Prod.swap) := by
  intro p hp
  obtain ⟨p', hp', rfl⟩ := List.mem_map.mp hp
  exact (h p' hp').symm

theorem Within.join {current next : List Pair} (h : Within data current)
    (h' : Within data next) : Within data (joinPairs current next) := by
  intro p hp
  obtain ⟨c, hc, hp⟩ := List.mem_flatMap.mp (List.mem_dedup.mp hp)
  obtain ⟨o, ho, rfl⟩ := List.mem_map.mp hp
  obtain ⟨n, hn, rfl⟩ := List.mem_map.mp ho
  exact ⟨(h c hc).1, (h' n (List.mem_of_mem_filter hn)).2⟩

theorem within_sequence {founds : List (List Pair)} (h : ∀ found ∈ founds, Within data found) :
    Within data (sequencePairs founds) := by
  have hfold (steps : List (List Pair)) (first : List Pair) (hfirst : Within data first)
      (hsteps : ∀ found ∈ steps, Within data found) :
      Within data (steps.foldl joinPairs first) := by
    induction steps generalizing first with
    | nil => exact hfirst
    | cons step steps ih =>
      rw [List.forall_mem_cons] at hsteps
      exact ih _ (hfirst.join hsteps.1) hsteps.2
  cases founds with
  | nil => exact nofun
  | cons first steps =>
    rw [List.forall_mem_cons] at h
    exact hfold steps first h.1 h.2

/-- Fuel for the loops over the paths of a graph. -/
def valuesBound (data : Datastore N) : Nat := (allNodes data).toFinset.card + 2

theorem transitiveClosure_isSome (h : Within data base) (hfuel : valuesBound data ≤ fuel)
    (includeZero : Bool) :
    ∃ found, transitiveClosure data fuel base includeZero = some found ∧ Within data found := by
  have hscope : ∀ p ∈ base, p.2 ∈ (allNodes data).toFinset :=
    fun p hp => List.mem_toFinset.mpr (h p hp).2
  have hstart (start : GraphElementId) : (closureFrom base fuel ⟨[start], []⟩).isSome := by
    apply closureFrom_isSome hscope
    rw [valuesBound] at hfuel
    simp only [StackSearch.work, List.length_singleton, List.toFinset_nil, Finset.sdiff_empty]
    omega
  have hall (starts : List GraphElementId) (hstarts : ∀ x ∈ starts, x ∈ allNodes data) :
      ∃ founds, (starts.mapM fun start => (closureFrom base fuel ⟨[start], []⟩).map fun found =>
        found.map fun n => (start, n)) = some founds ∧ Within data founds.flatten := by
    induction starts with
    | nil => exact ⟨[], rfl, fun _ hp => by cases hp⟩
    | cons start starts ih =>
      rw [List.forall_mem_cons] at hstarts
      obtain ⟨founds, hfounds, hwithin⟩ := ih hstarts.2
      obtain ⟨found, hfound⟩ := Option.isSome_iff_exists.mp (hstart start)
      refine ⟨(found.map fun n => (start, n)) :: founds, ?_, ?_⟩
      · rw [List.mapM_cons, hfounds, hfound]
        rfl
      · intro p hp
        rw [List.flatten_cons, List.mem_append] at hp
        rcases hp with hp | hp
        · obtain ⟨n, hn, rfl⟩ := List.mem_map.mp hp
          have hmem := mem_of_closureFrom hscope (fun _ hy => by cases hy) hfound n hn
          exact ⟨hstarts.1, List.mem_toFinset.mp hmem⟩
        · exact hwithin p hp
  have hstarts : ∀ x ∈ (base.map Prod.fst).dedup, x ∈ allNodes data := by
    intro x hx
    obtain ⟨p, hp, rfl⟩ := List.mem_map.mp (List.mem_dedup.mp hx)
    exact (h p hp).1
  obtain ⟨founds, hfounds, hwithin⟩ := hall _ hstarts
  refine ⟨_, by rw [transitiveClosure, hfounds, Option.map_some], hwithin.append ?_⟩
  cases includeZero with
  | true => exact within_diagonal
  | false => exact fun _ hp => by cases hp

mutual

theorem pairs_isSome {fuel : Nat} (hfuel : valuesBound data ≤ fuel) :
    ∀ path, ∃ found, pairs data fuel path = some found ∧ Within data found
  | .predicate iri => by
    rw [pairs]
    cases lookupIri data iri with
    | none => exact ⟨[], rfl, nofun⟩
    | some predId => exact ⟨_, rfl, within_predicate⟩
  | .inverse inner => by
    obtain ⟨found, hfound, hwithin⟩ := pairs_isSome hfuel inner
    exact ⟨_, by rw [pairs, hfound, Option.map_some], hwithin.swap⟩
  | .sequence steps => by
    obtain ⟨founds, hfounds, hwithin⟩ := pairsOfList_isSome hfuel steps
    exact ⟨_, by rw [pairs, hfounds, Option.map_some], within_sequence hwithin⟩
  | .alternative branches => by
    obtain ⟨founds, hfounds, hwithin⟩ := pairsOfList_isSome hfuel branches
    refine ⟨_, by rw [pairs, hfounds, Option.map_some], fun p hp => ?_⟩
    obtain ⟨found, hfound, hp⟩ := List.mem_flatten.mp (List.mem_dedup.mp hp)
    exact hwithin found hfound p hp
  | .zeroOrOne inner => by
    obtain ⟨found, hfound, hwithin⟩ := pairs_isSome hfuel inner
    exact ⟨_, by rw [pairs, hfound, Option.map_some], hwithin.append within_diagonal⟩
  | .oneOrMore inner => by
    obtain ⟨base, hbase, hwithin⟩ := pairs_isSome hfuel inner
    rw [pairs, hbase]
    exact transitiveClosure_isSome hwithin hfuel false
  | .zeroOrMore inner => by
    obtain ⟨base, hbase, hwithin⟩ := pairs_isSome hfuel inner
    rw [pairs, hbase]
    exact transitiveClosure_isSome hwithin hfuel true

theorem pairsOfList_isSome {fuel : Nat} (hfuel : valuesBound data ≤ fuel) :
    ∀ paths, ∃ founds, pairsOfList data fuel paths = some founds ∧
      ∀ found ∈ founds, Within data found
  | [] => ⟨[], rfl, nofun⟩
  | path :: paths => by
    obtain ⟨found, hfound, hwithin⟩ := pairs_isSome hfuel path
    obtain ⟨founds, hfounds, hall⟩ := pairsOfList_isSome hfuel paths
    refine ⟨found :: founds, ?_, List.forall_mem_cons.mpr ⟨hwithin, hall⟩⟩
    rw [pairsOfList, hfound, hfounds]
    rfl

end

theorem valuesFor_isSome (hfuel : valuesBound data ≤ fuel) (node : GraphElementId)
    (path : Option ShPath) : (valuesFor data fuel node path).isSome := by
  cases path with
  | none => rfl
  | some path =>
    rw [valuesFor]
    obtain ⟨found, hfound, _⟩ := pairs_isSome hfuel path
    cases path with
    | predicate iri => rfl
    | _ =>
      rw [valuesFrom, hfound]
      · rfl
      · exact nofun

end Ending

end RdfDatalog.Shacl
