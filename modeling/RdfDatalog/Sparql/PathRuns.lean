import RdfDatalog.Sparql.PathDenotation

namespace RdfDatalog.Sparql

open LoopRelation Relation

variable {N : NativeTypes} {g : GraphElementId}

/-- The elements the two ends stand for already. -/
def givenEnds (m : Mapping String (GraphElement N)) (S O : Term N) : Set (GraphElement N) :=
  {e | endValue m S = some e ∨ endValue m O = some e}

/-- The relation of a path over the nodes of a graph and the given ends, restricted to the ends:
how it extends a solution. -/
def pathSolutions (ds : Datastore N) (g : GraphElementId) (path : PropertyPath N) (S O : Term N)
    (m : Mapping String (GraphElement N)) : Set (Mapping String (GraphElement N)) :=
  extensions m S O
    (pathRel (graphTriples ds g) (nodes (graphTriples ds g) ∪ givenEnds m S O) path)

/-- A path whose solutions are counted once. -/
def PropertyPath.isCountedOnce : PropertyPath N → Bool
  | .zeroOrMore _ | .oneOrMore _ | .zeroOrOne _ => true
  | _ => false

/-- The rows of a path are what it denotes: those the relation gives, with nothing else bound. -/
structure Denotes (ds : Datastore N) (g : GraphElementId) (path : PropertyPath N) (S O : Term N)
    (sub : PartialSub N) (rows : List (PartialSub N)) : Prop where
  answers : Answers ds rows (pathSolutions ds g path S O (meaning ds sub))
  once : path.isCountedOnce = true → (rows.map (meaning ds)).Nodup

/-- A path that can be walked in no steps finds its given ends: the evaluation starts from one, or
they are nodes of the graph. -/
def EndsCovered (ds : Datastore N) (g : GraphElementId) (path : PropertyPath N) (S O : Term N)
    (m : Mapping String (GraphElement N)) : Prop :=
  nullable path = true → pathLoops path (Mode.of m S O) = true ∨
    ∀ e ∈ givenEnds m S O, ((bindEnd m S e).bind fun m => bindEnd m O e).isSome = true →
      e ∈ nodes (graphTriples ds g)

variable {m : Mapping String (GraphElement N)}

theorem mem_givenEnds_of_loops {path : PropertyPath N} {m' : Mapping String (GraphElement N)}
    {S O : Term N} (hS : S.isPlain = true) (hO : O.isPlain = true)
    (h : pathLoops path (Mode.of m S O) = true) {e : GraphElement N}
    (hm : (bindEnd m S e).bind (fun m => bindEnd m O e) = some m') : e ∈ givenEnds m S O := by
  have hclosed : ¬ (Mode.of m S O).isOpen = true := fun hopen => by
    rw [pathLoops_isOpen path hopen] at h
    cases h
  have hbound {T : Term N} {m₁ m₂ : Mapping String (GraphElement N)} (hT : T.isPlain = true)
      (hport : port m₁ T = .bound) (hbind : bindEnd m₁ T e = some m₂) : endValue m₁ T = some e := by
    obtain ⟨t, ht⟩ := Option.isSome_iff_exists.mp ((port_bound_iff hT).mp hport)
    rw [bindEnd_of_endValue ht] at hbind
    split_ifs at hbind with heq
    rw [ht, heq]
  by_cases hs : port m S = .bound
  · obtain ⟨m₁, hm₁, -⟩ := Option.bind_eq_some_iff.mp hm
    exact .inl (hbound hS hs hm₁)
  · have ho : port m O = .bound := by
      by_contra ho
      apply hclosed
      simp [Mode.isOpen, Mode.of, hs, ho]
    rw [bindEnd_comm] at hm
    obtain ⟨m₁, hm₁, -⟩ := Option.bind_eq_some_iff.mp hm
    exact .inr (hbound hO ho hm₁)

theorem mem_pathSolutions_iff {ds : Datastore N} (path : PropertyPath N) {S O : Term N}
    (hS : S.isPlain = true) (hO : O.isPlain = true) :
    (∀ m', m' ∈ extensions m S O (withLoops (pathRel (graphTriples ds g)
        (nodes (graphTriples ds g)) path) fun _ => pathLoops path (Mode.of m S O) = true) ↔
      m' ∈ pathSolutions ds g path S O m) ↔ EndsCovered ds g path S O m := by
  have hnodes := onNodes_pathRel (graphTriples ds g) path
  rw [pathSolutions, pathRel_withLoops Set.subset_union_left]
  constructor
  · intro h hnull
    rw [or_iff_not_imp_left]
    intro hloops e he hbind
    obtain ⟨m', hm'⟩ := Option.isSome_iff_exists.mp hbind
    obtain ⟨a, b, hab, hm⟩ := (h m').mpr ⟨e, e, .inr ⟨rfl, .inr he, hnull⟩, hm'⟩
    have hrel := hab.resolve_right fun hloop => hloops hloop.2
    -- the given end is the one that the edge has there
    obtain ⟨m₁, hm₁, hm₂⟩ := Option.bind_eq_some_iff.mp hm
    rcases he with he | he
    · rw [bindEnd_of_endValue he] at hm₁
      split_ifs at hm₁ with hea
      exact hea ▸ hnodes.left a b hrel
    · rw [bindEnd_comm] at hm
      obtain ⟨m₁, hm₁, -⟩ := Option.bind_eq_some_iff.mp hm
      rw [bindEnd_of_endValue he] at hm₁
      split_ifs at hm₁ with heb
      exact heb ▸ hnodes.right a b hrel
  · intro hcovered m'
    constructor
    · rintro ⟨a, b, hab | ⟨rfl, hloop⟩, hm⟩
      · exact ⟨a, b, .inl hab, hm⟩
      · have hgiven := mem_givenEnds_of_loops hS hO hloop hm
        exact ⟨a, a, .inr ⟨rfl, .inr hgiven, nullable_of_pathLoops path hloop⟩, hm⟩
    · rintro ⟨a, b, hab | ⟨rfl, ha, hnull⟩, hm⟩
      · exact ⟨a, b, .inl hab, hm⟩
      · rcases hcovered hnull with hloop | hends
        · exact ⟨a, a, .inr ⟨rfl, hloop⟩, hm⟩
        · have hnode : a ∈ nodes (graphTriples ds g) := by
            rcases ha with ha | ha
            · exact ha
            · exact hends a ha (Option.isSome_iff_exists.mpr ⟨m', hm⟩)
          exact ⟨a, a, .inl (hnodes.loop a hnode hnull), hm⟩

section Answers

variable {qs : QueryStore N} {path : PropertyPath N} {sub : PartialSub N} {S O : Term N} {c : Nat}

theorem evalPathPattern_once (hds : qs.toDatastore.Interned) (hvalid : Valid qs.toDatastore sub)
    (hS : S.isPlain = true) (hO : O.isPlain = true)
    (hfresh : Fresh c (meaning qs.toDatastore sub) S O)
    (hsound : pathSound path (Mode.of (meaning qs.toDatastore sub) S O) = true)
    (honce : path.isCountedOnce = true) :
    Distinct qs.toDatastore c (evalPathPattern qs path (.fixed g) S O sub) := by
  cases path with
  | zeroOrMore inner | oneOrMore inner =>
    exact (transitiveClosure_computes hds (evalPathPattern_evaluates qs hds inner)
      (onNodes_loops _ inner) hvalid hS hO hfresh hsound).2
  | zeroOrOne inner =>
    exact (zeroOrOne_computes hds (evalPathPattern_evaluates qs hds inner) hvalid hS hO hfresh
      hsound).2
  | iri | sequence | alternative | inverse | «repeat» | negatedSet => cases honce

/-- When no search goes wrong, the rows of a path are what it denotes exactly if it finds its
given ends. -/
theorem evalPathPattern_denotes_iff (hds : qs.toDatastore.Interned)
    (hvalid : Valid qs.toDatastore sub) (hS : S.isPlain = true) (hO : O.isPlain = true)
    (hfresh : Fresh c (meaning qs.toDatastore sub) S O)
    (hsound : pathSound path (Mode.of (meaning qs.toDatastore sub) S O) = true) :
    Denotes qs.toDatastore g path S O sub (evalPathPattern qs path (.fixed g) S O sub c).1 ↔
      EndsCovered qs.toDatastore g path S O (meaning qs.toDatastore sub) := by
  have hrows := (evalPathPattern_evaluates (g := g) qs hds path hvalid hS hO hfresh hsound c
    le_rfl).1
  rw [← mem_pathSolutions_iff path hS hO]
  constructor
  · intro h m
    rw [← hrows.exact, h.answers.exact]
  · intro h
    exact ⟨hrows.congr h, fun honce =>
      evalPathPattern_once hds hvalid hS hO hfresh hsound honce c le_rfl⟩

end Answers

section OneEdge

/-- Three elements and one triple over them in the default graph. -/
def oneEdge (a p b : GraphElement NativeTypes.text) : QueryStore NativeTypes.text :=
  let (resources, s) := GraphElementManager.new.addResource a
  let (resources, p) := resources.addResource p
  let (resources, o) := resources.addResource b
  { namedGraphs := QuadStore.new.addQuad ⟨defaultGraphElementId, s, p, o⟩
    resources := resources
    reifiedTriples := QuadStore.new }

def edgeStore : QueryStore NativeTypes.text := oneEdge (.iri "a") (.iri "p") (.iri "b")

theorem mem_edgeStore {q : Quad} (h : q ∈ edgeStore.namedGraphs) :
    q = ⟨defaultGraphElementId, 1, 2, 3⟩ := by
  have hmem : q ∈ QuadStore.new.addQuad ⟨defaultGraphElementId, 1, 2, 3⟩ := h
  rcases (QuadStore.mem_addQuad _ _ _).mp hmem with hq | hq
  · cases hq
  · exact hq

theorem edgeStore_interned : edgeStore.toDatastore.Interned := by
  intro q hq
  have hquad : (edgeStore.resources.getResourceQuad ⟨defaultGraphElementId, 1, 2, 3⟩).isSome =
      true := by decide
  rw [mem_edgeStore hq]
  exact hquad

theorem fresh_empty {S O : Term NativeTypes.text} (hS : ∀ i, S ≠ .var (bridgeName i))
    (hO : ∀ i, O ≠ .var (bridgeName i)) : Fresh 0 (meaning edgeStore.toDatastore ∅) S O :=
  ⟨fun _ _ => rfl, fun i _ => hS i, fun i _ => hO i⟩

theorem var_ne_bridgeName {v : String} (hv : v.toList.take 3 ≠ ['_', '_', 'p']) (i : Nat) :
    (Term.var v : Term NativeTypes.text) ≠ .var (bridgeName i) := by
  intro h
  apply hv
  rw [Term.var.inj h, bridgeName_take]

/-- `<a> p* ?y` on one edge. -/
theorem evalPathPattern_denotes_star :
    Denotes edgeStore.toDatastore defaultGraphElementId (.zeroOrMore (.iri (.iri "p")))
      (.constant (.iri "a")) (.var "y") ∅ (evalPathPattern edgeStore (.zeroOrMore (.iri (.iri "p")))
        (.fixed defaultGraphElementId) (.constant (.iri "a")) (.var "y") ∅ 0).1 := by
  apply (evalPathPattern_denotes_iff edgeStore_interned (valid_empty _) rfl rfl
    (fresh_empty (fun i h => by cases h) (var_ne_bridgeName (by decide))) (by decide)).mpr
  exact fun _ => .inl (by decide)

/-- On one edge `?x p+ ?x` finds the object of the edge, which has no path to itself. -/
theorem evalPathPattern_loop_not_denoted :
    edgeStore.toDatastore.Interned ∧ Valid edgeStore.toDatastore ∅ ∧
      Fresh 0 (meaning edgeStore.toDatastore ∅) (.var "x") (.var "x") ∧
      ¬ Denotes edgeStore.toDatastore defaultGraphElementId (.oneOrMore (.iri (.iri "p")))
        (.var "x") (.var "x") ∅ (evalPathPattern edgeStore (.oneOrMore (.iri (.iri "p")))
          (.fixed defaultGraphElementId) (.var "x") (.var "x") ∅ 0).1 := by
  have hx := var_ne_bridgeName (v := "x") (by decide)
  refine ⟨edgeStore_interned, valid_empty _, fresh_empty hx hx, fun h => ?_⟩
  have hrow : ((evalPathPattern edgeStore (.oneOrMore (.iri (.iri "p")))
      (.fixed defaultGraphElementId) (.var "x") (.var "x") ∅ 0).1.any fun r =>
        (r.lookup "x").bind (·.resolve edgeStore.toDatastore) = some (.iri "b")) = true := by
    decide
  obtain ⟨r, hr, hb⟩ := List.any_eq_true.mp hrow
  have hb : meaning edgeStore.toDatastore r "x" = some (.iri "b") := of_decide_eq_true hb
  obtain ⟨a, b, hpath, hab, hm⟩ := (mem_extensions_of_free rfl rfl).mp
    ((h.answers.exact _).mp ⟨r, hr, rfl⟩)
  obtain rfl := hab rfl
  rw [← hm, Mapping.set_same] at hb
  -- a path from the object of the edge would start with another edge
  obtain ⟨y, ⟨q, hq, -, hsubject, -⟩, -⟩ := TransGen.head'_iff.mp hpath
  rw [mem_edgeStore hq, Option.some.inj hb] at hsubject
  have hne : edgeStore.resources.getGraphElement 1 ≠ some (.iri "b") := by decide
  exact hne hsubject

end OneEdge

end RdfDatalog.Sparql

namespace RdfDatalog.Sparql

open StackSearch

variable {N : NativeTypes}

section Runs

/-- The elements that the rows of a hop give the search variable. -/
def foundIn (ds : Datastore N) (target : String) (rows : List (PartialSub N)) :
    List (GraphElement N) :=
  rows.filterMap fun row => (row.lookup target).bind (·.resolve ds)

/-- What a search found, with its start if no hop is asked for. -/
def withStart (includeZero : Bool) (start : GraphElement N) (visited : List (GraphElement N)) :
    List (GraphElement N) :=
  if includeZero && !visited.contains start then visited ++ [start] else visited

/-- The rows of a closure that has one known end, for the other end. -/
def rowsFor (sub : PartialSub N) (reached : List (GraphElement N)) : Term N → List (PartialSub N)
  | .var v => reached.map fun gel => sub.insert v (.computed gel)
  | _ => []

mutual

/-- A finished evaluation of a path: the rows, and the counter of the bridge variables before and
after. No bound on the steps is assumed, and `inner{k}` and `inner{min,}` enter the evaluation of a
longer path. -/
inductive PathRuns (qs : QueryStore N) : PropertyPath N → ActiveGraph → Term N → Term N →
    PartialSub N → Nat → List (PartialSub N) → Nat → Prop
  | iri {gel ag s o sub c} :
    PathRuns qs (.iri gel) ag s o sub c (evalTriplePattern qs ag ⟨s, .constant gel, o⟩ sub none) c
  | emptySequence {ag s o sub c} : PathRuns qs (.sequence []) ag s o sub c [sub] c
  | sequence {step steps ag s o sub c rows names c'}
    (hsteps : StepsRun qs (step :: steps) ag o s [sub] c rows names c') :
    PathRuns qs (.sequence (step :: steps)) ag s o sub c (rows.map (removeAll names)) c'
  | alternative {left right ag s o sub c rows c' rows' c''}
    (hleft : PathRuns qs left ag s o sub c rows c')
    (hright : PathRuns qs right ag s o sub c' rows' c'') :
    PathRuns qs (.alternative left right) ag s o sub c (rows ++ rows') c''
  | inverse {inner ag s o sub c rows c'} (hinner : PathRuns qs inner ag o s sub c rows c') :
    PathRuns qs (.inverse inner) ag s o sub c rows c'
  | zeroOrOne {inner ag s o sub c rows c'} (hinner : PathRuns qs inner ag s o sub c rows c') :
    PathRuns qs (.zeroOrOne inner) ag s o sub c
      (rows.foldl (pushNew qs.toDatastore) (zeroHopSolutions qs.toDatastore ag s o sub)) c'
  | oneOrMore {inner ag s o sub c rows c'}
    (hclosure : ClosureRuns qs inner false ag s o sub c rows c') :
    PathRuns qs (.oneOrMore inner) ag s o sub c rows c'
  | zeroOrMore {inner ag s o sub c rows c'}
    (hclosure : ClosureRuns qs inner true ag s o sub c rows c') :
    PathRuns qs (.zeroOrMore inner) ag s o sub c rows c'
  | repeatRange {inner min max ag s o sub c rows c'}
    (hrange : RangeRuns qs inner ag s o sub (List.range' min (max + 1 - min)) c rows c') :
    PathRuns qs (.repeat inner min (some max)) ag s o sub c rows c'
  | repeatOpen {inner min ag s o sub c rows c'}
    (hsequence : PathRuns qs (.sequence (List.replicate min inner ++ [.zeroOrMore inner]))
      ag s o sub c rows c') :
    PathRuns qs (.repeat inner min none) ag s o sub c rows c'
  | negatedSet {excluded ag s o sub c} :
    PathRuns qs (.negatedSet excluded) ag s o sub c
      (evalNegatedSet qs.toDatastore excluded ag s o sub) c

/-- A path for one row after another. -/
inductive RowsRun (qs : QueryStore N) : PropertyPath N → ActiveGraph → Term N → Term N →
    List (PartialSub N) → Nat → List (PartialSub N) → Nat → Prop
  | nil {path ag s o c} : RowsRun qs path ag s o [] c [] c
  | cons {path ag s o sub rest c rows c' rows' c''} (hhead : PathRuns qs path ag s o sub c rows c')
    (htail : RowsRun qs path ag s o rest c' rows' c'') :
    RowsRun qs path ag s o (sub :: rest) c (rows ++ rows') c''

/-- The steps of a sequence, with the names of the bridge variables. -/
inductive StepsRun (qs : QueryStore N) : List (PropertyPath N) → ActiveGraph → Term N → Term N →
    List (PartialSub N) → Nat → List (PartialSub N) → List String → Nat → Prop
  | last {step ag o s rows c rows' c'} (hrows : RowsRun qs step ag s o rows c rows' c') :
    StepsRun qs [step] ag o s rows c rows' [] c'
  | next {step next steps ag o s rows c rows' c' rows'' names c''}
    (hrows : RowsRun qs step ag s (.var (bridgeName c)) rows (c + 1) rows' c')
    (hsteps : StepsRun qs (next :: steps) ag o (.var (bridgeName c)) rows' c' rows'' names c'') :
    StepsRun qs (step :: next :: steps) ag o s rows c rows'' (bridgeName c :: names) c''

/-- `inner{k}` for one count after another. -/
inductive RangeRuns (qs : QueryStore N) : PropertyPath N → ActiveGraph → Term N → Term N →
    PartialSub N → List Nat → Nat → List (PartialSub N) → Nat → Prop
  | nil {inner ag s o sub c} : RangeRuns qs inner ag s o sub [] c [] c
  | zero {inner ag s o sub ks c rows c'} (htail : RangeRuns qs inner ag s o sub ks c rows c') :
    RangeRuns qs inner ag s o sub (0 :: ks) c
      (zeroHopSolutions qs.toDatastore ag s o sub ++ rows) c'
  | succ {inner ag s o sub k ks c rows c' rows' c''}
    (hhead : PathRuns qs (.sequence (List.replicate (k + 1) inner)) ag s o sub c rows c')
    (htail : RangeRuns qs inner ag s o sub ks c' rows' c'') :
    RangeRuns qs inner ag s o sub ((k + 1) :: ks) c (rows ++ rows') c''

/-- The loop of a search by hops of a path, each from the top of the stack to a free variable; an
element goes on the stack when it is first found. -/
inductive SearchRuns (qs : QueryStore N) : PropertyPath N → ActiveGraph → String → PartialSub N →
    Search (GraphElement N) → Nat → List (GraphElement N) → Nat → Prop
  | done {path ag target sub visited c} :
    SearchRuns qs path ag target sub ⟨[], visited⟩ c visited c
  | follow {path ag target sub x rest visited c rows c' out c''}
    (hhop : PathRuns qs path ag (.constant x) (.var target) sub c rows c')
    (hloop : SearchRuns qs path ag target sub
      ((foundIn qs.toDatastore target rows).foldl discover ⟨rest, visited⟩) c' out c'') :
    SearchRuns qs path ag target sub ⟨x :: rest, visited⟩ c out c''

/-- The searches from all of some nodes. -/
inductive NodesRun (qs : QueryStore N) : PropertyPath N → Bool → ActiveGraph → PartialSub N →
    List (GraphElement N) → Nat → List (GraphElement N × GraphElement N) → Nat → Prop
  | nil {path includeZero ag base c} : NodesRun qs path includeZero ag base [] c [] c
  | cons {path includeZero ag base start rest c visited c' pairs c''}
    (hhead : SearchRuns qs path ag tcNext base ⟨[start], []⟩ c visited c')
    (htail : NodesRun qs path includeZero ag base rest c' pairs c'') :
    NodesRun qs path includeZero ag base (start :: rest) c
      ((withStart includeZero start visited).map (Prod.mk start) ++ pairs) c''

/-- Both ends of a closure unbound, in one graph after another. -/
inductive ScopesRun (qs : QueryStore N) : PropertyPath N → Bool → String → String →
    List (PartialSub N × ActiveGraph × GraphElementId) → Nat → List (PartialSub N) → Nat → Prop
  | nil {path includeZero v w c} : ScopesRun qs path includeZero v w [] c [] c
  | cons {path includeZero v w base ag gid scopes c pairs c' rows c''}
    (hhead : NodesRun qs path includeZero ag base (graphNodes qs.toDatastore (some gid)) c pairs c')
    (htail : ScopesRun qs path includeZero v w scopes c' rows c'') :
    ScopesRun qs path includeZero v w ((base, ag, gid) :: scopes) c
      (pairs.map (fun (a, b) => (base.insert v (.computed a)).insert w (.computed b)) ++ rows) c''

/-- `path+`, or `path*`. -/
inductive ClosureRuns (qs : QueryStore N) : PropertyPath N → Bool → ActiveGraph → Term N → Term N →
    PartialSub N → Nat → List (PartialSub N) → Nat → Prop
  | between {path includeZero ag s o sub c a b visited c'}
    (hs : resolveTermToGel qs.toDatastore sub s = some a)
    (ho : resolveTermToGel qs.toDatastore sub o = some b)
    (hsearch : SearchRuns qs path ag tcNext sub ⟨[a], []⟩ c visited c') :
    ClosureRuns qs path includeZero ag s o sub c
      (if (withStart includeZero a visited).contains b then [sub] else []) c'
  | forward {path includeZero ag s o sub c a visited c'}
    (hs : resolveTermToGel qs.toDatastore sub s = some a)
    (ho : resolveTermToGel qs.toDatastore sub o = none)
    (hsearch : SearchRuns qs path ag tcNext sub ⟨[a], []⟩ c visited c') :
    ClosureRuns qs path includeZero ag s o sub c
      (rowsFor sub (withStart includeZero a visited) o) c'
  | backward {path includeZero ag s o sub c b visited c'}
    (hs : resolveTermToGel qs.toDatastore sub s = none)
    (ho : resolveTermToGel qs.toDatastore sub o = some b)
    (hsearch : SearchRuns qs (.inverse path) ag tcPrev sub ⟨[b], []⟩ c visited c') :
    ClosureRuns qs path includeZero ag s o sub c
      (rowsFor sub (withStart includeZero b visited) s) c'
  | free {path includeZero ag v w sub c rows c'}
    (hs : resolveTermToGel qs.toDatastore sub (.var v) = none)
    (ho : resolveTermToGel qs.toDatastore sub (.var w) = none)
    (hscopes : ScopesRun qs path includeZero v w (graphScopes qs.toDatastore ag sub) c rows c') :
    ClosureRuns qs path includeZero ag (.var v) (.var w) sub c
      (rows.foldl (pushNew qs.toDatastore) []) c'
  | unsupported {path includeZero ag s o sub c}
    (hs : resolveTermToGel qs.toDatastore sub s = none)
    (ho : resolveTermToGel qs.toDatastore sub o = none)
    (hends : ∀ v w, ¬ (s = .var v ∧ o = .var w)) : ClosureRuns qs path includeZero ag s o sub c [] c

end

end Runs

section Known

/-- All values of a row are among the given elements. -/
def Known (ds : Datastore N) (K : Finset (GraphElement N)) (sub : PartialSub N) : Prop :=
  ∀ v x, (sub.lookup v).bind (·.resolve ds) = some x → x ∈ K

def Term.KnownIn (K : Finset (GraphElement N)) : Term N → Prop
  | .constant gel => gel ∈ K
  | _ => True

theorem knownIn_var (K : Finset (GraphElement N)) (v : String) : (Term.var v).KnownIn K := trivial

/-- The elements of the store are among the given ones. -/
def HoldsStore (ds : Datastore N) (K : Finset (GraphElement N)) : Prop :=
  ∀ x ∈ ds.resources.resourceList, x ∈ K

variable {ds : Datastore N} {K : Finset (GraphElement N)} {sub : PartialSub N}

variable {x : GraphElement N} {id : GraphElementId} {ag : ActiveGraph}

variable {t : Term N} {rows : List (PartialSub N)}

variable (h : Known ds K sub)

include h in
theorem Known.resolve (ht : t.KnownIn K)
    (hx : resolveTermToGel ds sub t = some x) : x ∈ K := by
  cases t with
  | var v => exact h v x hx
  | constant gel => exact Option.some.inj hx ▸ ht
  | tripleTerm => cases hx

theorem known_empty : Known ds K ∅ := by
  intro v x hx
  rw [Finmap.lookup_empty] at hx
  cases hx

include h

theorem Known.insert (v : String) {val : PartialSubValue N}
    (hval : ∀ x, val.resolve ds = some x → x ∈ K) : Known ds K (sub.insert v val) := by
  intro w x hx
  by_cases hw : w = v
  · subst hw
    rw [Finmap.lookup_insert] at hx
    exact hval x hx
  · rw [Finmap.lookup_insert_of_ne _ hw] at hx
    exact h w x hx

theorem Known.computed (v : String) {gel : GraphElement N} (hgel : gel ∈ K) :
    Known ds K (sub.insert v (.computed gel)) :=
  h.insert v fun _ hx => Option.some.inj hx ▸ hgel

theorem Known.interned (hK : HoldsStore ds K) (v : String)
    (id : GraphElementId) : Known ds K (sub.insert v (.interned id)) :=
  h.insert v fun x hx => hK x (List.mem_of_getElem? hx)

theorem Known.erase (v : String) : Known ds K (sub.erase v) := by
  intro w x hx
  by_cases hw : w = v
  · subst hw
    rw [Finmap.lookup_erase] at hx
    cases hx
  · rw [Finmap.lookup_erase_ne hw] at hx
    exact h w x hx

theorem Known.removeAll (names : List String) :
    Known ds K (removeAll names sub) := by
  induction names generalizing sub with
  | nil => exact h
  | cons name names ih => exact ih (h.erase name)

theorem Known.union {sub' : PartialSub N} (h' : Known ds K sub') :
    Known ds K (sub ∪ sub') := by
  intro v x hx
  by_cases hv : v ∈ sub
  · rw [Finmap.lookup_union_left hv] at hx
    exact h v x hx
  · rw [Finmap.lookup_union_right hv] at hx
    exact h' v x hx

omit h

variable {r : PartialSub N} (hK : HoldsStore ds K)

include hK

include h

theorem Known.bindVariable {v : String}
    (hr : bindVariable ds sub v (.interned id) = some r) : Known ds K r := by
  unfold Sparql.bindVariable at hr
  split at hr
  · split_ifs at hr
    exact Option.some.inj hr ▸ h.interned hK v id
  · exact Option.some.inj hr ▸ h.interned hK v id

theorem Known.bindTerm (hr : bindTerm ds id sub t = some r) :
    Known ds K r := by
  cases t with
  | var v => exact h.bindVariable hK hr
  | constant | tripleTerm => exact Option.some.inj hr ▸ h

theorem Known.bindGraph (hr : bindGraph ds id sub ag = some r) :
    Known ds K r := by
  cases ag with
  | var v => exact h.bindVariable hK hr
  | fixed => exact Option.some.inj hr ▸ h

theorem Known.evalTriplePatternCore {tp : TriplePattern N}
    {forced : Option GraphElementId} (hr : r ∈ evalTriplePatternCore ds ag tp forced sub none) :
    Known ds K r := by
  unfold Sparql.evalTriplePatternCore at hr
  simp only [List.mem_ite_nil_left, collectSolutions_none] at hr
  obtain ⟨quad, -, hquad⟩ := List.mem_filterMap.mp hr.2.2
  obtain ⟨r₁, h₁, hquad⟩ := Option.bind_eq_some_iff.mp hquad
  obtain ⟨r₂, h₂, hquad⟩ := Option.bind_eq_some_iff.mp hquad
  obtain ⟨r₃, h₃, hquad⟩ := Option.bind_eq_some_iff.mp hquad
  exact (((h.bindTerm hK h₁).bindTerm hK h₂).bindTerm hK h₃).bindGraph hK hquad

theorem Known.bindFree {slot : Slot} (hr : bindFree ds id sub slot = some r) :
    Known ds K r := by
  cases slot with
  | free v => exact h.bindVariable hK hr
  | known | unmatchable => exact Option.some.inj hr ▸ h

omit h

omit hK in
theorem Known.evalTriplePattern {qs : QueryStore N} (hK : HoldsStore qs.toDatastore K)
    (h : Known qs.toDatastore K sub) {ag : ActiveGraph} {tp : TriplePattern N}
    (hr : r ∈ evalTriplePattern qs ag tp sub none) : Known qs.toDatastore K r := by
  unfold Sparql.evalTriplePattern at hr
  split at hr
  · obtain ⟨⟨termId, bindings⟩, hcandidate, hr⟩ := List.mem_flatMap.mp hr
    have hbindings : Known qs.toDatastore K bindings := by
      unfold tripleTermCandidates at hcandidate
      dsimp only at hcandidate
      split_ifs at hcandidate
      · cases hcandidate
      · obtain ⟨quad, -, hquad⟩ := List.mem_filterMap.mp hcandidate
        obtain ⟨b, hb, heq⟩ := Option.map_eq_some_iff.mp hquad
        obtain ⟨-, rfl⟩ := Prod.mk.inj heq
        obtain ⟨b₁, h₁, hb⟩ := Option.bind_eq_some_iff.mp hb
        obtain ⟨b₂, h₂, hb⟩ := Option.bind_eq_some_iff.mp hb
        exact ((known_empty.bindFree hK h₁).bindFree hK h₂).bindFree hK hb
    dsimp only at hr
    unfold mergeSolutions at hr
    split_ifs at hr
    · exact (hbindings.union h).evalTriplePatternCore hK hr
    · cases hr
  · exact h.evalTriplePatternCore hK hr

include h in
theorem Known.evalNegatedSet {excluded : List (GraphElement N)} {s o : Term N}
    (hr : r ∈ evalNegatedSet ds excluded ag s o sub) :
    Known ds K r := by
  unfold Sparql.evalNegatedSet at hr
  dsimp only at hr
  split at hr
  · cases hr
  · obtain ⟨quad, -, hquad⟩ := List.mem_filterMap.mp hr
    split at hquad
    · cases hquad
    · obtain ⟨r₁, h₁, hquad⟩ := Option.bind_eq_some_iff.mp hquad
      exact (h.bindTerm hK h₁).bindTerm hK hquad

theorem mem_of_mem_graphNodes {graph : Option GraphElementId} (hx : x ∈ graphNodes ds graph) :
    x ∈ K := by
  obtain ⟨q, -, hx⟩ := List.mem_flatMap.mp (List.mem_dedup.mp hx)
  obtain ⟨id, -, hid⟩ := List.mem_filterMap.mp hx
  exact hK x (List.mem_of_getElem? hid)

include h

theorem Known.zeroHopAllNodes {v w : String}
    (hr : r ∈ zeroHopAllNodes ds ag v w sub) : Known ds K r := by
  have hgraph {base : PartialSub N} (hbase : Known ds K base) {gid : GraphElementId}
      (hr : r ∈ (graphNodes ds (some gid)).map fun gel =>
        (base.insert v (.computed gel)).insert w (.computed gel)) : Known ds K r := by
    obtain ⟨gel, hgel, rfl⟩ := List.mem_map.mp hr
    have hmem := mem_of_mem_graphNodes hK hgel
    exact (hbase.computed v hmem).computed w hmem
  unfold Sparql.zeroHopAllNodes at hr
  dsimp only at hr
  split at hr
  · exact hgraph h hr
  · split at hr
    · exact hgraph h hr
    · obtain ⟨id, -, hr⟩ := List.mem_flatMap.mp hr
      exact hgraph (h.interned hK _ id) hr

theorem Known.zeroHopSolutions {s o : Term N} (hs : s.KnownIn K)
    (ho : o.KnownIn K) (hr : r ∈ zeroHopSolutions ds ag s o sub) :
    Known ds K r := by
  unfold Sparql.zeroHopSolutions at hr
  split at hr
  · split_ifs at hr
    · exact List.mem_singleton.mp hr ▸ h
    · cases hr
  · rename_i a hsome _
    split at hr
    · exact List.mem_singleton.mp hr ▸ h.computed _ (h.resolve hs hsome)
    · cases hr
  · rename_i a _ hsome
    split at hr
    · exact List.mem_singleton.mp hr ▸ h.computed _ (h.resolve ho hsome)
    · cases hr
  · split at hr
    · exact h.zeroHopAllNodes hK hr
    · cases hr

theorem known_graphScopes {scope : PartialSub N × ActiveGraph × GraphElementId}
    (hscope : scope ∈ graphScopes ds ag sub) :
    Known ds K scope.1 := by
  unfold graphScopes at hscope
  split at hscope
  · exact List.mem_singleton.mp hscope ▸ h
  · split at hscope
    · exact List.mem_singleton.mp hscope ▸ h
    · obtain ⟨id, -, rfl⟩ := List.mem_map.mp hscope
      exact h.interned hK _ id

omit h

omit hK

include h in
theorem known_rowsFor {reached : List (GraphElement N)}
    (hreached : ∀ x ∈ reached, x ∈ K) (hr : r ∈ rowsFor sub reached t) :
    Known ds K r := by
  cases t with
  | var v =>
    obtain ⟨gel, hgel, rfl⟩ := List.mem_map.mp hr
    exact h.computed v (hreached gel hgel)
  | constant | tripleTerm => cases hr

theorem mem_of_mem_withStart {includeZero : Bool} {start : GraphElement N}
    {visited : List (GraphElement N)} (hstart : start ∈ K) (hvisited : ∀ x ∈ visited, x ∈ K) :
    ∀ x ∈ withStart includeZero start visited, x ∈ K := by
  intro x hx
  unfold withStart at hx
  split_ifs at hx
  · rcases List.mem_append.mp hx with hx | hx
    · exact hvisited x hx
    · exact List.mem_singleton.mp hx ▸ hstart
  · exact hvisited x hx

theorem mem_foundIn (h : ∀ r ∈ rows, Known ds K r) {target : String}
    (hx : x ∈ foundIn ds target rows) : x ∈ K := by
  obtain ⟨row, hrow, hx⟩ := List.mem_filterMap.mp hx
  exact h row hrow target x hx

end Known

section OneResult

variable {α β γ : Type} {R : α → Nat → Prop} {P : α → Prop}

/-- There is one result, with one count after it, and the result satisfies `P`. -/
def OneResult (R : α → Nat → Prop) (P : α → Prop) : Prop :=
  ∃ a c, R a c ∧ P a ∧ ∀ a' c', R a' c' → a = a' ∧ c = c'

theorem OneResult.map {R' : β → Nat → Prop} {P' : β → Prop} (h : OneResult R P) {f : α → β}
    (hrun : ∀ a c, R a c → R' (f a) c) (hinv : ∀ b c, R' b c → ∃ a, R a c ∧ b = f a)
    (hP : ∀ a c, R a c → P a → P' (f a)) : OneResult R' P' := by
  obtain ⟨a, c, ha, hPa, hunique⟩ := h
  refine ⟨f a, c, hrun a c ha, hP a c ha hPa, fun b d hb => ?_⟩
  obtain ⟨a', ha', rfl⟩ := hinv b d hb
  obtain ⟨rfl, rfl⟩ := hunique a' d ha'
  exact ⟨rfl, rfl⟩

theorem OneResult.bind {S : α → Nat → β → Nat → Prop} {Q : β → Prop} {T : γ → Nat → Prop}
    {W : γ → Prop} (h : OneResult R P) (hnext : ∀ a c, R a c → P a → OneResult (S a c) Q)
    {f : α → β → γ} (hrun : ∀ a c b d, R a c → S a c b d → T (f a b) d)
    (hinv : ∀ x d, T x d → ∃ a c b, R a c ∧ S a c b d ∧ x = f a b)
    (hW : ∀ a b, P a → Q b → W (f a b)) : OneResult T W := by
  obtain ⟨a, c, ha, hPa, hunique⟩ := h
  obtain ⟨b, d, hb, hQb, hunique'⟩ := hnext a c ha hPa
  refine ⟨f a b, d, hrun a c b d ha hb, hW a b hPa hQb, fun x e hx => ?_⟩
  obtain ⟨a', c', b', ha', hb', rfl⟩ := hinv x e hx
  obtain ⟨rfl, rfl⟩ := hunique a' c' ha'
  obtain ⟨rfl, rfl⟩ := hunique' b' e hb'
  exact ⟨rfl, rfl⟩

end OneResult

section Total

variable {qs : QueryStore N} {path : PropertyPath N} {ag : ActiveGraph} {s o : Term N}
  {sub : PartialSub N} {K : Finset (GraphElement N)}

/-- The evaluation of a path finishes, with one result, and gives no elements but those of the
store, of the row and of the ends. -/
structure Total (qs : QueryStore N) (path : PropertyPath N) : Prop where
  runs : ∀ ag s o sub c, ∃ rows c', PathRuns qs path ag s o sub c rows c'
  unique : ∀ {ag s o sub c rows c' rows' c''}, PathRuns qs path ag s o sub c rows c' →
    PathRuns qs path ag s o sub c rows' c'' → rows = rows' ∧ c' = c''
  known : ∀ {K ag s o sub c rows c'}, HoldsStore qs.toDatastore K → Known qs.toDatastore K sub →
    s.KnownIn K → o.KnownIn K → PathRuns qs path ag s o sub c rows c' →
      ∀ r ∈ rows, Known qs.toDatastore K r

/-- The elements that a search can find: those of the store and of the row, and its start. -/
def searchScope (ds : Datastore N) (sub : PartialSub N) (start : GraphElement N) :
    Finset (GraphElement N) :=
  insert start (ds.resources.resourceList.toFinset ∪
    sub.keys.biUnion fun v => ((sub.lookup v).bind (·.resolve ds)).toFinset)

theorem holdsStore_searchScope (ds : Datastore N) (sub : PartialSub N) (start : GraphElement N) :
    HoldsStore ds (searchScope ds sub start) := by
  intro x hx
  apply Finset.mem_insert_of_mem
  exact Finset.mem_union_left _ (List.mem_toFinset.mpr hx)

theorem known_searchScope (ds : Datastore N) (sub : PartialSub N) (start : GraphElement N) :
    Known ds (searchScope ds sub start) sub := by
  intro v x hx
  have hv : v ∈ sub.keys := by
    obtain ⟨val, hval, -⟩ := Option.bind_eq_some_iff.mp hx
    exact Finmap.mem_keys.mpr (Finmap.mem_of_lookup_eq_some hval)
  apply Finset.mem_insert_of_mem
  apply Finset.mem_union_right
  exact Finset.mem_biUnion.mpr ⟨v, hv, Option.mem_toFinset.mpr hx⟩

/-- The elements that an end stands for by itself. -/
def Term.elements : Term N → Finset (GraphElement N)
  | .constant gel => {gel}
  | _ => ∅

theorem Term.knownIn_of_elements {t : Term N} (h : t.elements ⊆ K) : t.KnownIn K := by
  cases t with
  | constant gel => exact h (Finset.mem_singleton_self gel)
  | var | tripleTerm => trivial

/-- Some elements are enough for an evaluation. -/
theorem exists_scope (ds : Datastore N) (sub : PartialSub N) (s o : Term N) : ∃ K,
    HoldsStore ds K ∧ Known ds K sub ∧ s.KnownIn K ∧ o.KnownIn K := by
  let L := searchScope ds sub (.iri "")
  have hL : L ⊆ L ∪ (s.elements ∪ o.elements) := Finset.subset_union_left
  have hends : s.elements ∪ o.elements ⊆ L ∪ (s.elements ∪ o.elements) := Finset.subset_union_right
  exact ⟨_, fun x hx => hL (holdsStore_searchScope ds sub _ x hx),
    fun v x hx => hL (known_searchScope ds sub _ v x hx),
    Term.knownIn_of_elements (Finset.union_subset_left hends),
    Term.knownIn_of_elements (Finset.union_subset_right hends)⟩

theorem Total.of_one (h : ∀ K ag s o sub c, HoldsStore qs.toDatastore K →
    Known qs.toDatastore K sub → s.KnownIn K → o.KnownIn K →
      OneResult (PathRuns qs path ag s o sub c) fun rows => ∀ r ∈ rows, Known qs.toDatastore K r) :
    Total qs path where
  runs ag s o sub c := by
    obtain ⟨K, hK, hsub, hs, ho⟩ := exists_scope qs.toDatastore sub s o
    obtain ⟨rows, c', hrun, -⟩ := h K ag s o sub c hK hsub hs ho
    exact ⟨rows, c', hrun⟩
  unique {ag s o sub c rows c' rows' c''} h₁ h₂ := by
    obtain ⟨K, hK, hsub, hs, ho⟩ := exists_scope qs.toDatastore sub s o
    obtain ⟨_, _, -, -, hunique⟩ := h K ag s o sub c hK hsub hs ho
    obtain ⟨rfl, rfl⟩ := hunique rows c' h₁
    exact hunique rows' c'' h₂
  known {K ag s o sub c rows c'} hK hsub hs ho hrun := by
    obtain ⟨_, _, -, hknown, hunique⟩ := h K ag s o sub c hK hsub hs ho
    obtain ⟨rfl, -⟩ := hunique rows c' hrun
    exact hknown

section Constructors

variable {rows : List (PartialSub N)} {steps : List (PropertyPath N)}

variable (h : Total qs path)

variable (hK : HoldsStore qs.toDatastore K)

include hK in
include h in
theorem Total.one (hs : s.KnownIn K)
    (ho : o.KnownIn K) (hsub : Known qs.toDatastore K sub) (ag : ActiveGraph) (c : Nat) :
    OneResult (PathRuns qs path ag s o sub c) fun rows => ∀ r ∈ rows, Known qs.toDatastore K r := by
  obtain ⟨rows, c', hrun⟩ := h.runs ag s o sub c
  exact ⟨rows, c', hrun, h.known hK hsub hs ho hrun, fun _ _ hrun' => h.unique hrun hrun'⟩

theorem total_iri (gel : GraphElement N) : Total qs (.iri gel) :=
  .of_one fun _ _ _ _ _ _ hK hsub _ _ => ⟨_, _, .iri, fun _ hr => hsub.evalTriplePattern hK hr,
    fun _ _ h => by cases h; exact ⟨rfl, rfl⟩⟩

theorem total_negatedSet (excluded : List (GraphElement N)) : Total qs (.negatedSet excluded) :=
  .of_one fun _ _ _ _ _ _ hK hsub _ _ => ⟨_, _, .negatedSet, fun _ hr => hsub.evalNegatedSet hK hr,
    fun _ _ h => by cases h; exact ⟨rfl, rfl⟩⟩

include h in
theorem Total.inverse : Total qs (.inverse path) := by
  refine .of_one fun K ag s o sub c hK hsub hs ho => ?_
  refine (h.one hK ho hs hsub ag c).map (fun _ _ => .inverse) (fun _ _ hrun => ?_) fun _ _ _ h => h
  cases hrun with
  | inverse hinner => exact ⟨_, hinner, rfl⟩

theorem Total.alternative {left right : PropertyPath N} (hl : Total qs left)
    (hr : Total qs right) : Total qs (.alternative left right) := by
  refine .of_one fun K ag s o sub c hK hsub hs ho => ?_
  refine (hl.one hK hs ho hsub ag c).bind (fun _ c' _ _ => hr.one hK hs ho hsub ag c')
    (fun _ _ _ _ => .alternative) (fun _ _ hrun => ?_) fun _ _ h h' =>
      List.forall_mem_append.mpr ⟨h, h'⟩
  cases hrun with
  | alternative hleft hright => exact ⟨_, _, _, hleft, hright, rfl⟩

include h

theorem Total.zeroOrOne : Total qs (.zeroOrOne path) := by
  refine .of_one fun K ag s o sub c hK hsub hs ho => ?_
  refine (h.one hK hs ho hsub ag c).map (fun _ _ => .zeroOrOne) (fun _ _ hrun => ?_)
    fun _ _ _ hknown r hr => ?_
  · cases hrun with
    | zeroOrOne hinner => exact ⟨_, hinner, rfl⟩
  · exact (mem_foldl_pushNew hr).elim (hsub.zeroHopSolutions hK hs ho) (hknown r)

include hK in
theorem Total.rows_one (hs : s.KnownIn K)
    (ho : o.KnownIn K) (hrows : ∀ r ∈ rows, Known qs.toDatastore K r) (ag : ActiveGraph) (c : Nat) :
    OneResult (RowsRun qs path ag s o rows c) fun out => ∀ r ∈ out, Known qs.toDatastore K r := by
  induction rows generalizing c with
  | nil => exact ⟨_, _, .nil, List.forall_mem_nil _, fun _ _ h => by cases h; exact ⟨rfl, rfl⟩⟩
  | cons sub rest ih =>
    obtain ⟨hsub, hrest⟩ := List.forall_mem_cons.mp hrows
    refine (h.one hK hs ho hsub ag c).bind (fun _ c' _ _ => ih hrest c') (fun _ _ _ _ => .cons)
      (fun _ _ hrun => ?_) fun _ _ h h' => List.forall_mem_append.mpr ⟨h, h'⟩
    cases hrun with
    | cons hhead htail => exact ⟨_, _, _, hhead, htail, rfl⟩

omit h

/-- The rows of the steps, with the names of the bridges. -/
theorem steps_one {step : PropertyPath N} (h : ∀ p ∈ step :: steps, Total qs p)
    (hK : HoldsStore qs.toDatastore K) (hs : s.KnownIn K) (ho : o.KnownIn K)
    (hrows : ∀ r ∈ rows, Known qs.toDatastore K r) (ag : ActiveGraph) (c : Nat) :
    OneResult (fun (result : List (PartialSub N) × List String) =>
      StepsRun qs (step :: steps) ag o s rows c result.1 result.2)
      fun result => ∀ r ∈ result.1, Known qs.toDatastore K r := by
  obtain ⟨hstep, hsteps⟩ := List.forall_mem_cons.mp h
  induction steps generalizing step s rows c with
  | nil =>
    refine (hstep.rows_one hK hs ho hrows ag c).map (f := fun out => (out, []))
      (fun _ _ => .last) (fun result _ hrun => ?_) fun _ _ _ h => h
    obtain ⟨out, names⟩ := result
    cases hrun with
    | last hrows => exact ⟨_, hrows, rfl⟩
  | cons next steps ih =>
    obtain ⟨hnext, hrest⟩ := List.forall_mem_cons.mp hsteps
    have hvar := knownIn_var K (bridgeName c)
    refine (hstep.rows_one hK hs hvar hrows ag (c + 1)).bind
      (fun _ c' _ hout => ih hsteps hvar hout c' hnext hrest)
      (f := fun _ result => (result.1, bridgeName c :: result.2)) (fun _ _ _ _ => .next)
      (fun result _ hrun => ?_) fun _ _ _ h => h
    obtain ⟨out, names⟩ := result
    cases hrun with
    | next hrows hsteps => exact ⟨_, _, (_, _), hrows, hsteps, rfl⟩

theorem total_sequence (h : ∀ p ∈ steps, Total qs p) : Total qs (.sequence steps) := by
  refine .of_one fun K ag s o sub c hK hsub hs ho => ?_
  cases steps with
  | nil =>
    exact ⟨_, _, .emptySequence, List.forall_mem_singleton.mpr hsub,
      fun _ _ h => by cases h; exact ⟨rfl, rfl⟩⟩
  | cons step steps =>
    refine (steps_one h hK hs ho (List.forall_mem_singleton.mpr hsub) ag c).map
      (fun _ _ => .sequence) (fun _ _ hrun => ?_) fun result _ _ hknown r hr => ?_
    · cases hrun with
      | sequence hsteps => exact ⟨(_, _), hsteps, rfl⟩
    · obtain ⟨row, hrow, rfl⟩ := List.mem_map.mp hr
      exact (hknown row hrow).removeAll _

include hK in
include h in
theorem Total.search
    (hsub : Known qs.toDatastore K sub) (ag : ActiveGraph) (target : String) {n : Nat}
    {st : Search (GraphElement N)} (hwork : work K st < n) (hstack : ∀ x ∈ st.stack, x ∈ K)
    (hvisited : ∀ x ∈ st.visited, x ∈ K) (hnodup : st.visited.Nodup) (c : Nat) :
    OneResult (SearchRuns qs path ag target sub st c) fun out => out.Nodup ∧ ∀ x ∈ out, x ∈ K := by
  induction n generalizing st c with
  | zero => omega
  | succ n ih =>
    obtain ⟨stack, visited⟩ := st
    cases stack with
    | nil =>
      exact ⟨visited, c, .done, ⟨hnodup, hvisited⟩, fun _ _ h => by cases h; exact ⟨rfl, rfl⟩⟩
    | cons x rest =>
      obtain ⟨hx, hrest⟩ := List.forall_mem_cons.mp hstack
      have hterm : (Term.constant x).KnownIn K := hx
      refine (h.one hK hterm (knownIn_var K target) hsub ag c).bind
        (S := fun rows c' => SearchRuns qs path ag target sub
          ((foundIn qs.toDatastore target rows).foldl discover ⟨rest, visited⟩) c')
        (f := fun _ out => out) (fun rows c' _ hrows => ?_) (fun _ _ _ _ => .follow)
        (fun _ _ hrun => ?_) fun _ _ _ h => h
      · have hfound : ∀ y ∈ foundIn qs.toDatastore target rows, y ∈ K := fun y hy =>
          mem_foundIn hrows hy
        obtain ⟨hmem, -, hpushed, -, hkeep⟩ :=
          foldl_discover (foundIn qs.toDatastore target rows) ⟨rest, visited⟩
        have hless :
            work K ((foundIn qs.toDatastore target rows).foldl discover ⟨rest, visited⟩) < n := by
          rw [work_foldl_discover _ hfound]
          have hlt : (rest.length + 1) + (K \ visited.toFinset).card < n + 1 := hwork
          change rest.length + (K \ visited.toFinset).card < n
          omega
        exact ih hless (fun y hy => (hpushed y hy).elim (hrest y) (hfound y))
          (fun y hy => ((hmem y).mp hy).elim (hvisited y) (hfound y)) (hkeep hnodup) c'
      · cases hrun with
        | follow hhop hloop => exact ⟨_, _, _, hhop, hloop, rfl⟩

variable {start : GraphElement N} {includeZero : Bool}

include h

include hK

theorem Total.search_from
    (hsub : Known qs.toDatastore K sub) (hstart : start ∈ K) (ag : ActiveGraph) (target : String)
    (c : Nat) : OneResult (SearchRuns qs path ag target sub ⟨[start], []⟩ c)
      fun out => out.Nodup ∧ ∀ x ∈ out, x ∈ K :=
  h.search hK hsub ag target (Nat.lt_succ_self _) (List.forall_mem_singleton.mpr hstart)
    (List.forall_mem_nil _) List.nodup_nil c

theorem Total.nodes_one
    {base : PartialSub N} (hbase : Known qs.toDatastore K base) {nodes : List (GraphElement N)}
    (hnodes : ∀ x ∈ nodes, x ∈ K) (ag : ActiveGraph) (c : Nat) :
    OneResult (NodesRun qs path includeZero ag base nodes c)
      fun pairs => ∀ pair ∈ pairs, pair.1 ∈ K ∧ pair.2 ∈ K := by
  induction nodes generalizing c with
  | nil => exact ⟨_, _, .nil, List.forall_mem_nil _, fun _ _ h => by cases h; exact ⟨rfl, rfl⟩⟩
  | cons start rest ih =>
    obtain ⟨hstart, hrest⟩ := List.forall_mem_cons.mp hnodes
    refine (h.search_from hK hbase hstart ag tcNext c).bind (fun _ c' _ _ => ih hrest c')
      (fun _ _ _ _ => .cons) (fun _ _ hrun => ?_)
      fun visited _ hvisited htail => List.forall_mem_append.mpr ⟨?_, htail⟩
    · cases hrun with
      | cons hhead htail => exact ⟨_, _, _, hhead, htail, rfl⟩
    · intro pair hpair
      obtain ⟨y, hy, rfl⟩ := List.mem_map.mp hpair
      exact ⟨hstart, mem_of_mem_withStart hstart hvisited.2 y hy⟩

theorem Total.scopes_one {v w : String}
    {scopes : List (PartialSub N × ActiveGraph × GraphElementId)}
    (hscopes : ∀ scope ∈ scopes, Known qs.toDatastore K scope.1) (c : Nat) :
    OneResult (ScopesRun qs path includeZero v w scopes c)
      fun rows => ∀ r ∈ rows, Known qs.toDatastore K r := by
  induction scopes generalizing c with
  | nil => exact ⟨_, _, .nil, List.forall_mem_nil _, fun _ _ h => by cases h; exact ⟨rfl, rfl⟩⟩
  | cons scope scopes ih =>
    obtain ⟨base, ag, gid⟩ := scope
    obtain ⟨hbase, hrest⟩ := List.forall_mem_cons.mp hscopes
    refine (h.nodes_one hK hbase (fun x hx => mem_of_mem_graphNodes hK hx) ag c).bind
      (fun _ c' _ _ => ih hrest c') (fun _ _ _ _ => .cons) (fun _ _ hrun => ?_)
      fun pairs _ hpairs htail => List.forall_mem_append.mpr ⟨?_, htail⟩
    · cases hrun with
      | cons hhead htail => exact ⟨_, _, _, hhead, htail, rfl⟩
    · intro r hr
      obtain ⟨⟨a, b⟩, hpair, rfl⟩ := List.mem_map.mp hr
      obtain ⟨ha, hb⟩ := hpairs (a, b) hpair
      exact (hbase.computed v ha).computed w hb

theorem Total.closure_one
    (hs : s.KnownIn K) (ho : o.KnownIn K) (hsub : Known qs.toDatastore K sub) (includeZero : Bool)
    (ag : ActiveGraph) (c : Nat) : OneResult (ClosureRuns qs path includeZero ag s o sub c)
      fun rows => ∀ r ∈ rows, Known qs.toDatastore K r := by
  cases hresS : resolveTermToGel qs.toDatastore sub s with
  | some a =>
    have hstart := hsub.resolve hs hresS
    have hsearch := h.search_from hK hsub hstart ag tcNext c
    cases hresO : resolveTermToGel qs.toDatastore sub o with
    | some b =>
      refine hsearch.map (fun _ _ => .between hresS hresO) (fun _ _ hrun => ?_)
        fun visited _ _ _ r hr => ?_
      · cases hrun with
        | between hs' ho' hsearch' =>
          obtain rfl := Option.some.inj (hresS.symm.trans hs')
          obtain rfl := Option.some.inj (hresO.symm.trans ho')
          exact ⟨_, hsearch', rfl⟩
        | forward _ ho' | free _ ho' | unsupported _ ho' => cases hresO.symm.trans ho'
        | backward hs' => cases hresS.symm.trans hs'
      · split_ifs at hr
        · exact List.mem_singleton.mp hr ▸ hsub
        · cases hr
    | none =>
      refine hsearch.map (fun _ _ => .forward hresS hresO) (fun _ _ hrun => ?_)
        fun visited _ _ hvisited r hr =>
          known_rowsFor hsub (mem_of_mem_withStart hstart hvisited.2) hr
      cases hrun with
      | forward hs' _ hsearch' =>
        obtain rfl := Option.some.inj (hresS.symm.trans hs')
        exact ⟨_, hsearch', rfl⟩
      | between _ ho' => cases hresO.symm.trans ho'
      | backward hs' | free hs' | unsupported hs' => cases hresS.symm.trans hs'
  | none =>
    cases hresO : resolveTermToGel qs.toDatastore sub o with
    | some b =>
      have hstart := hsub.resolve ho hresO
      refine (h.inverse.search_from hK hsub hstart ag tcPrev c).map
        (fun _ _ => .backward hresS hresO) (fun _ _ hrun => ?_)
        fun visited _ _ hvisited r hr =>
          known_rowsFor hsub (mem_of_mem_withStart hstart hvisited.2) hr
      cases hrun with
      | backward _ ho' hsearch' =>
        obtain rfl := Option.some.inj (hresO.symm.trans ho')
        exact ⟨_, hsearch', rfl⟩
      | between hs' | forward hs' => cases hresS.symm.trans hs'
      | free _ ho' | unsupported _ ho' => cases hresO.symm.trans ho'
    | none =>
      by_cases hends : ∃ v w, s = .var v ∧ o = .var w
      · obtain ⟨v, w, rfl, rfl⟩ := hends
        refine (h.scopes_one hK (fun scope hscope => known_graphScopes hsub hK hscope) c).map
          (fun _ _ => .free hresS hresO) (fun _ _ hrun => ?_) fun rows _ _ hrows r hr => ?_
        · cases hrun with
          | free _ _ hscopes => exact ⟨_, hscopes, rfl⟩
          | between hs' | forward hs' => cases hresS.symm.trans hs'
          | backward _ ho' => cases hresO.symm.trans ho'
          | unsupported _ _ hends => exact absurd ⟨rfl, rfl⟩ (hends _ _)
        · exact (mem_foldl_pushNew hr).elim nofun (hrows r)
      · refine ⟨_, _, .unsupported hresS hresO fun v w hvw => hends ⟨v, w, hvw⟩,
          List.forall_mem_nil _, fun _ _ hrun => ?_⟩
        cases hrun with
        | unsupported => exact ⟨rfl, rfl⟩
        | between hs' | forward hs' => cases hresS.symm.trans hs'
        | backward _ ho' => cases hresO.symm.trans ho'
        | free => exact absurd ⟨_, _, rfl, rfl⟩ hends

omit hK

theorem Total.oneOrMore : Total qs (.oneOrMore path) := by
  refine .of_one fun K ag s o sub c hK hsub hs ho => ?_
  refine (h.closure_one hK hs ho hsub false ag c).map (fun _ _ => .oneOrMore) (fun _ _ hrun => ?_)
    fun _ _ _ h => h
  cases hrun with
  | oneOrMore hclosure => exact ⟨_, hclosure, rfl⟩

theorem Total.zeroOrMore : Total qs (.zeroOrMore path) := by
  refine .of_one fun K ag s o sub c hK hsub hs ho => ?_
  refine (h.closure_one hK hs ho hsub true ag c).map (fun _ _ => .zeroOrMore) (fun _ _ hrun => ?_)
    fun _ _ _ h => h
  cases hrun with
  | zeroOrMore hclosure => exact ⟨_, hclosure, rfl⟩

theorem Total.replicate (k : Nat) :
    Total qs (.sequence (List.replicate k path)) :=
  total_sequence fun _ hp => (List.mem_replicate.mp hp).2 ▸ h

include hK in
theorem Total.range_one (hs : s.KnownIn K)
    (ho : o.KnownIn K) (hsub : Known qs.toDatastore K sub) (ag : ActiveGraph) (ks : List Nat)
    (c : Nat) : OneResult (RangeRuns qs path ag s o sub ks c)
      fun rows => ∀ r ∈ rows, Known qs.toDatastore K r := by
  induction ks generalizing c with
  | nil => exact ⟨_, _, .nil, List.forall_mem_nil _, fun _ _ h => by cases h; exact ⟨rfl, rfl⟩⟩
  | cons k ks ih =>
    cases k with
    | zero =>
      refine (ih c).map (fun _ _ => .zero) (fun _ _ hrun => ?_) fun _ _ _ htail =>
        List.forall_mem_append.mpr ⟨fun r hr => hsub.zeroHopSolutions hK hs ho hr, htail⟩
      cases hrun with
      | zero htail => exact ⟨_, htail, rfl⟩
    | succ k =>
      refine ((h.replicate (k + 1)).one hK hs ho hsub ag c).bind (fun _ c' _ _ => ih c')
        (fun _ _ _ _ => .succ) (fun _ _ hrun => ?_) fun _ _ h h' =>
          List.forall_mem_append.mpr ⟨h, h'⟩
      cases hrun with
      | succ hhead htail => exact ⟨_, _, _, hhead, htail, rfl⟩

theorem Total.repeat (min : Nat) (max : Option Nat) :
    Total qs (.repeat path min max) := by
  refine .of_one fun K ag s o sub c hK hsub hs ho => ?_
  cases max with
  | some max =>
    refine (h.range_one hK hs ho hsub ag (List.range' min (max + 1 - min)) c).map
      (fun _ _ => .repeatRange) (fun _ _ hrun => ?_) fun _ _ _ h => h
    cases hrun with
    | repeatRange hrange => exact ⟨_, hrange, rfl⟩
  | none =>
    -- the longer path is a sequence of paths that are total
    have hsequence : Total qs (.sequence (List.replicate min path ++ [.zeroOrMore path])) := by
      refine total_sequence fun p hp => ?_
      rcases List.mem_append.mp hp with hp | hp
      · exact (List.mem_replicate.mp hp).2 ▸ h
      · exact List.mem_singleton.mp hp ▸ h.zeroOrMore
    refine (hsequence.one hK hs ho hsub ag c).map (fun _ _ => .repeatOpen) (fun _ _ hrun => ?_)
      fun _ _ _ h => h
    cases hrun with
    | repeatOpen hrun => exact ⟨_, hrun, rfl⟩

omit h

end Constructors

theorem total_path (qs : QueryStore N) (path : PropertyPath N) : Total qs path := by
  induction path with
  | iri gel => exact total_iri gel
  | sequence steps ih => exact total_sequence ih
  | alternative left right ihl ihr => exact ihl.alternative ihr
  | inverse inner ih => exact ih.inverse
  | zeroOrMore inner ih => exact ih.zeroOrMore
  | oneOrMore inner ih => exact ih.oneOrMore
  | zeroOrOne inner ih => exact ih.zeroOrOne
  | repeat_ inner min max ih => exact ih.repeat min max
  | negatedSet excluded => exact total_negatedSet excluded

/-- The evaluation of a path finishes with one result. So does every closure search in it, which
finds an element, and puts it on the stack, at most once, and only elements of the store, of the
row and its start. -/
theorem pathPattern_finishes (qs : QueryStore N) (path : PropertyPath N) (ag : ActiveGraph)
    (sub : PartialSub N) (c : Nat) :
    (∀ s o, ∃! result : List (PartialSub N) × Nat,
      PathRuns qs path ag s o sub c result.1 result.2) ∧
    ∀ target start, (∃! result : List (GraphElement N) × Nat,
        SearchRuns qs path ag target sub ⟨[start], []⟩ c result.1 result.2) ∧
      ∀ visited c', SearchRuns qs path ag target sub ⟨[start], []⟩ c visited c' →
        visited.Nodup ∧ ∀ x ∈ visited, x ∈ qs.resources.resourceList ∨ x = start ∨
          ∃ v, (sub.lookup v).bind (·.resolve qs.toDatastore) = some x := by
  have htotal := total_path qs path
  refine ⟨fun s o => ?_, fun target start => ?_⟩
  · obtain ⟨rows, c', hrun⟩ := htotal.runs ag s o sub c
    refine ⟨(rows, c'), hrun, fun result hresult => ?_⟩
    obtain ⟨hrows, hc⟩ := htotal.unique hresult hrun
    exact Prod.ext hrows hc
  · obtain ⟨out, c', hrun, ⟨hnodup, hscope⟩, hunique⟩ :=
      htotal.search_from (holdsStore_searchScope _ sub start) (known_searchScope _ sub start)
        (Finset.mem_insert_self _ _) ag target c
    refine ⟨⟨(out, c'), hrun, fun result hresult => ?_⟩, fun visited d hvisited => ?_⟩
    · obtain ⟨hout, hc⟩ := hunique _ _ hresult
      exact Prod.ext hout.symm hc.symm
    · obtain ⟨rfl, rfl⟩ := hunique visited d hvisited
      refine ⟨hnodup, fun x hx => ?_⟩
      rcases Finset.mem_insert.mp (hscope x hx) with hstart | hx
      · exact .inr (.inl hstart)
      · rcases Finset.mem_union.mp hx with hx | hx
        · exact .inl (List.mem_toFinset.mp hx)
        · obtain ⟨v, -, hv⟩ := Finset.mem_biUnion.mp hx
          exact .inr (.inr ⟨v, Option.mem_toFinset.mp hv⟩)

end Total

section Samples

def pathNode (name : String) : GraphElement NativeTypes.text := .nodeOrEdge (.iri name)

def emptyQueryStore : QueryStore NativeTypes.text := ⟨Datastore.new, QuadStore.new⟩

/-- A search by `p?` finds its start, which is then pushed a second time; a search by a sequence of
no steps finds what the row gives the search variable. -/
theorem not_pushedOnce :
    (¬ ∀ (qs : QueryStore NativeTypes.text) (path : PropertyPath NativeTypes.text)
      (ag : ActiveGraph) (target : String) (sub : PartialSub NativeTypes.text)
      (start : GraphElement NativeTypes.text) (c : Nat)
      (visited : List (GraphElement NativeTypes.text)) (c' : Nat),
      SearchRuns qs path ag target sub ⟨[start], []⟩ c visited c' → (start :: visited).Nodup) ∧
    ¬ ∀ (qs : QueryStore NativeTypes.text) (path : PropertyPath NativeTypes.text)
      (ag : ActiveGraph) (target : String) (sub : PartialSub NativeTypes.text)
      (start : GraphElement NativeTypes.text) (c : Nat)
      (visited : List (GraphElement NativeTypes.text)) (c' : Nat),
      SearchRuns qs path ag target sub ⟨[start], []⟩ c visited c' →
        ∀ x ∈ visited, x ∈ qs.resources.resourceList ∨ x = start := by
  constructor
  · intro h
    have hhop (c : Nat) : PathRuns emptyQueryStore (.zeroOrOne (.iri (pathNode "p")))
        (.fixed defaultGraphElementId) (.constant (pathNode "a")) (.var tcNext) ∅ c
        [(∅ : PartialSub NativeTypes.text).insert tcNext (.computed (pathNode "a"))] c :=
      .zeroOrOne .iri
    have hnodup := h emptyQueryStore _ _ tcNext ∅ (pathNode "a") 0 [pathNode "a"] 0
      (.follow (hhop 0) (.follow (hhop 0) .done))
    simp at hnodup
  · intro h
    have hmem := h emptyQueryStore (.sequence []) (.fixed defaultGraphElementId) tcNext
      ((∅ : PartialSub NativeTypes.text).insert tcNext (.computed (pathNode "b"))) (pathNode "a") 0
      [pathNode "b"] 0 (.follow .emptySequence (.follow .emptySequence .done)) (pathNode "b")
      List.mem_cons_self
    revert hmem
    decide

end Samples

end RdfDatalog.Sparql
