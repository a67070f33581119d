import RdfDatalog.Shacl.PathValues
import RdfDatalog.Sparql.PathModes

namespace RdfDatalog.Shacl

open Relation LoopRelation Sparql GraphElementManager

variable {N : NativeTypes}

mutual

/-- The path that the text of `path` as a SPARQL path spells; an empty sequence or choice has no
such text. -/
def toSparqlPath : ShPath → Option (PropertyPath N)
  | .predicate iri => some (.iri (.iri iri))
  | .inverse inner => (toSparqlPath inner).map .inverse
  | .sequence steps => (toSparqlPaths steps).bind fun
    | [] => none
    | steps => some (.sequence steps)
  | .alternative branches => (toSparqlPaths branches).bind fun
    | [] => none
    | first :: rest => some (rest.foldl .alternative first)
  | .zeroOrMore inner => (toSparqlPath inner).map .zeroOrMore
  | .oneOrMore inner => (toSparqlPath inner).map .oneOrMore
  | .zeroOrOne inner => (toSparqlPath inner).map .zeroOrOne

def toSparqlPaths : List ShPath → Option (List (PropertyPath N))
  | [] => some []
  | path :: paths => (toSparqlPath path).bind fun p => (toSparqlPaths paths).map fun ps => p :: ps

end

variable {data : Datastore N} {found found' base : List Pair} {fuel : Nat}

section Pairs

theorem within_pairs (hfuel : valuesBound data ≤ fuel) {path : ShPath}
    (h : pairs data fuel path = some found) : Within data found := by
  obtain ⟨found', h', hwithin⟩ := pairs_isSome hfuel path
  cases h.symm.trans h'
  exact hwithin

variable {x y : GraphElementId}

theorem mem_successors : y ∈ successors base x ↔ (x, y) ∈ base := by
  simp [successors]

theorem mem_joinPairs :
    (x, y) ∈ joinPairs found found' ↔ ∃ z, (x, z) ∈ found ∧ (z, y) ∈ found' := by
  simp [joinPairs, mem_successors, and_comm]

theorem mem_closureFrom {start y : GraphElementId} {s : StackSearch.Search GraphElementId}
    {visited : List GraphElementId}
    (hs : StackSearch.Searching (fun x y => (x, y) ∈ base) start s)
    (h : closureFrom base fuel s = some visited) :
    y ∈ visited ↔ TransGen (fun x y => (x, y) ∈ base) start y := by
  induction fuel generalizing s with
  | zero => cases h
  | succ fuel ih =>
    obtain ⟨stack, seen⟩ := s
    rw [closureFrom] at h
    cases stack with
    | nil =>
      cases h
      exact hs.finished y
    | cons cur rest => exact ih (hs.follow fun y => mem_successors) h

theorem mem_transitiveClosure {includeZero : Bool}
    (h : transitiveClosure data fuel base includeZero = some found) : (x, y) ∈ found ↔
      TransGen (fun x y => (x, y) ∈ base) x y ∨ includeZero = true ∧ x = y ∧ x ∈ allNodes data := by
  rw [transitiveClosure, Option.map_eq_some_iff] at h
  obtain ⟨founds, hfounds, rfl⟩ := h
  have hmem : (x, y) ∈ founds.flatten ↔
      x ∈ (base.map Prod.fst).dedup ∧ TransGen (fun x y => (x, y) ∈ base) x y := by
    rw [FallibleFold.mapM_eq_some_iff] at hfounds
    generalize (base.map Prod.fst).dedup = starts at hfounds ⊢
    induction hfounds with
    | nil => simp
    | @cons start found starts founds hfound _ ih =>
      obtain ⟨visited, hvisited, rfl⟩ := Option.map_eq_some_iff.mp hfound
      have hclosure := mem_closureFrom (y := y) StackSearch.searching_start hvisited
      rw [List.flatten_cons, List.mem_append, ih, List.mem_cons, or_and_right]
      refine or_congr_left ?_
      simp only [List.mem_map, Prod.mk.injEq]
      constructor
      · rintro ⟨z, hz, rfl, rfl⟩
        exact ⟨rfl, hclosure.mp hz⟩
      · rintro ⟨rfl, hxy⟩
        exact ⟨y, hclosure.mpr hxy, rfl, rfl⟩
  have hstart : TransGen (fun x y => (x, y) ∈ base) x y → x ∈ (base.map Prod.fst).dedup := by
    intro hxy
    obtain ⟨z, hz, -⟩ := TransGen.head'_iff.mp hxy
    exact List.mem_dedup.mpr (List.mem_map_of_mem hz)
  rw [List.mem_dedup, List.mem_append, hmem, and_iff_right_of_imp hstart]
  cases includeZero <;> simp [eq_comm, and_comm]

/-- The values of a predicate, which are read off an index, are those of its pairs. -/
theorem exists_valuesFrom {path : ShPath} (h : pairs data fuel path = some found)
    (node : GraphElementId) :
    ∃ values, valuesFrom data fuel node path = some values ∧ ∀ v, v ∈ values ↔
      (node, v) ∈ found := by
  cases path with
  | predicate iri =>
    refine ⟨_, rfl, fun v => ?_⟩
    rw [pairs] at h
    rw [getObjects]
    cases hiri : lookupIri data iri with
    | none =>
      rw [hiri] at h
      cases h
      simp
    | some predId =>
      rw [hiri] at h
      cases h
      have hlookups := data.namedGraphs.wellFormed.exactLookups
      simp only [List.mem_map, Prod.mk.injEq]
      refine exists_congr fun q => ?_
      rw [Datastore.getTriplesWithSubjectPredicate, Datastore.getTriplesWithPredicate,
        (hlookups.withIdSubjectPredicate _ node predId).mem q,
        (hlookups.withIdPredicate _ predId).mem q]
      tauto
  | _ => exact ⟨_, by rw [valuesFrom, h]; rfl; simp, fun v => mem_successors⟩

end Pairs

/-- The triples of the default graph. -/
abbrev triples (data : Datastore N) : Triples N := graphTriples data defaultGraphElementId

/-- The terms whose ids are a pair of `found`. -/
def Connects (data : Datastore N) (found : List Pair) (a b : GraphElement N) : Prop :=
  ∃ x y, (x, y) ∈ found ∧ data.resources.getGraphElement x = some a ∧
    data.resources.getGraphElement y = some b

section Terms

theorem connects_swap (a b : GraphElement N) :
    Connects data (found.map Prod.swap) a b ↔ Connects data found b a := by
  simp only [Connects, List.mem_map, Prod.exists, Prod.swap_prod_mk, Prod.mk.injEq]
  constructor
  · rintro ⟨_, _, ⟨x, y, hxy, rfl, rfl⟩, ha, hb⟩
    exact ⟨x, y, hxy, hb, ha⟩
  · rintro ⟨x, y, hxy, hb, ha⟩
    exact ⟨y, x, ⟨x, y, hxy, rfl, rfl⟩, ha, hb⟩

theorem connects_append (a b : GraphElement N) : Connects data (found ++ found').dedup a b ↔
    Connects data found a b ∨ Connects data found' a b := by
  simp only [Connects, List.mem_dedup, List.mem_append, or_and_right, exists_or]

theorem connects_flatten (founds : List (List Pair)) (a b : GraphElement N) :
    Connects data founds.flatten.dedup a b ↔ ∃ R ∈ founds.map (Connects data), R a b := by
  constructor
  · intro ⟨x, y, hxy, h⟩
    obtain ⟨found, hfound, hxy⟩ := List.mem_flatten.mp (List.mem_dedup.mp hxy)
    exact ⟨_, List.mem_map_of_mem hfound, x, y, hxy, h⟩
  · intro ⟨R, hR, hab⟩
    obtain ⟨found, hfound, rfl⟩ := List.mem_map.mp hR
    obtain ⟨x, y, hxy, h⟩ := hab
    exact ⟨x, y, List.mem_dedup.mpr (List.mem_flatten.mpr ⟨found, hfound, hxy⟩), h⟩

theorem connects_predicate (iri : IriReference) {predId : GraphElementId}
    (hiri : lookupIri data iri = some predId) (a b : GraphElement N) :
    Connects data ((data.getTriplesWithPredicate predId).map fun t => (t.subject, t.obj)) a b ↔
      triples data a (.iri iri) b := by
  have hmem (q : Quad) := (data.namedGraphs.wellFormed.exactLookups.withIdPredicate
    defaultGraphElementId predId).mem q
  have hpred : data.resources.getGraphElement predId = some (.iri iri) :=
    (data.resources.exact _ _).mp hiri
  constructor
  · intro ⟨x, y, hxy, ha, hb⟩
    obtain ⟨q, hq, heq⟩ := List.mem_map.mp hxy
    cases heq
    obtain ⟨hq, hp, hg⟩ := (hmem q).mp hq
    exact ⟨q, hq, hg, ha, hp ▸ hpred, hb⟩
  · intro ⟨q, hq, hg, ha, hp, hb⟩
    refine ⟨q.subject, q.obj, List.mem_map_of_mem ((hmem q).mpr ⟨hq, ?_, hg⟩), ha, hb⟩
    exact getGraphElement_inj hp hpred

variable (hdata : data.Interned)
include hdata

theorem exists_element {x : GraphElementId} (hx : x ∈ allNodes data) :
    ∃ a, data.resources.getGraphElement x = some a ∧
      a ∈ nodes (triples data) := by
  obtain ⟨q, hq, hx⟩ := List.mem_flatMap.mp (List.mem_dedup.mp hx)
  obtain ⟨hmem, hgraph⟩ := List.mem_filter.mp hq
  obtain ⟨s, p, o, hs, hp, ho⟩ := exists_elements hdata hmem
  have htriple : triples data s p o :=
    ⟨q, hmem, of_decide_eq_true hgraph, hs, hp, ho⟩
  rcases List.mem_pair.mp hx with rfl | rfl
  · exact ⟨s, hs, p, o, .inl htriple⟩
  · exact ⟨o, ho, p, s, .inr htriple⟩

omit hdata in
theorem exists_node {a : GraphElement N}
    (ha : a ∈ nodes (triples data)) :
    ∃ x ∈ allNodes data, data.resources.getGraphElement x = some a := by
  have hnode {q : Quad} (hmem : q ∈ data.namedGraphs) (hgraph : q.tripleId = defaultGraphElementId)
      {x : GraphElementId} (hx : x ∈ [q.subject, q.obj]) : x ∈ allNodes data :=
    List.mem_dedup.mpr
      (List.mem_flatMap.mpr ⟨q, List.mem_filter.mpr ⟨hmem, by simpa using hgraph⟩, hx⟩)
  obtain ⟨p, b, ⟨q, hmem, hgraph, ha, -⟩ | ⟨q, hmem, hgraph, -, -, ha⟩⟩ := ha
  · exact ⟨q.subject, hnode hmem hgraph (by simp), ha⟩
  · exact ⟨q.obj, hnode hmem hgraph (by simp), ha⟩

theorem connects_diagonal (a b : GraphElement N) :
    Connects data ((allNodes data).map fun n => (n, n)) a b ↔
      idOn (nodes (triples data)) a b := by
  constructor
  · intro ⟨x, y, hxy, ha, hb⟩
    obtain ⟨n, hn, heq⟩ := List.mem_map.mp hxy
    cases heq
    obtain ⟨c, hc, hnode⟩ := exists_element hdata hn
    cases ha.symm.trans hc
    exact ⟨Option.some.inj (ha.symm.trans hb), hnode⟩
  · intro ⟨hab, ha⟩
    obtain ⟨n, hn, hna⟩ := exists_node ha
    exact ⟨n, n, List.mem_map_of_mem hn, hna, hab ▸ hna⟩

theorem connects_right (h : Within data found) (a b : GraphElement N)
    (hab : Connects data found a b) : b ∈ nodes (triples data) := by
  obtain ⟨x, y, hxy, -, hb⟩ := hab
  obtain ⟨c, hc, hnode⟩ := exists_element hdata (h _ hxy).2
  cases hb.symm.trans hc
  exact hnode

theorem connects_join (h : Within data found) (a b : GraphElement N) :
    Connects data (joinPairs found found') a b ↔
      Comp (Connects data found) (Connects data found') a b := by
  constructor
  · intro ⟨x, y, hxy, ha, hb⟩
    obtain ⟨z, hxz, hzy⟩ := mem_joinPairs.mp hxy
    obtain ⟨c, hc, -⟩ := exists_element hdata (h _ hxz).2
    exact ⟨c, ⟨x, z, hxz, ha, hc⟩, ⟨z, y, hzy, hc, hb⟩⟩
  · intro ⟨c, ⟨x, z, hxz, ha, hc⟩, ⟨z', y, hzy, hc', hb⟩⟩
    cases getGraphElement_inj hc hc'
    exact ⟨x, y, mem_joinPairs.mpr ⟨z, hxz, hzy⟩, ha, hb⟩

theorem connects_sequence {founds : List (List Pair)} (hne : founds ≠ [])
    (h : ∀ found ∈ founds, Within data found) (a b : GraphElement N) :
    Connects data (sequencePairs founds) a b ↔
      chain (nodes (triples data)) (founds.map (Connects data)) a b := by
  obtain ⟨first, steps, rfl⟩ := List.exists_cons_of_ne_nil hne
  rw [List.forall_mem_cons] at h
  rw [sequencePairs]
  clear hne
  induction steps generalizing first with
  | nil => exact (chain_singleton (connects_right hdata h.1) a b).symm
  | cons step steps ih =>
    rw [List.forall_mem_cons] at h
    rw [List.foldl_cons, ih _ ⟨h.1.join h.2.1, h.2.2⟩]
    have hjoin : Connects data (joinPairs first step) =
        Comp (Connects data first) (Connects data step) :=
      funext₂ fun a b => propext (connects_join hdata h.1 a b)
    simp only [List.map_cons, chain, hjoin, Relation.comp_assoc]

theorem transGen_connects (hbase : Within data base) (a b : GraphElement N) :
    TransGen (Connects data base) a b ↔ ∃ x y, TransGen (fun x y => (x, y) ∈ base) x y ∧
      data.resources.getGraphElement x = some a ∧ data.resources.getGraphElement y = some b := by
  constructor
  · intro hab
    induction hab with
    | single hab =>
      obtain ⟨x, y, hxy, hx, hy⟩ := hab
      exact ⟨x, y, .single hxy, hx, hy⟩
    | tail _ hbc ih =>
      obtain ⟨x, y, hxy, hx, hy⟩ := ih
      obtain ⟨y', z, hyz, hy', hz⟩ := hbc
      cases getGraphElement_inj hy hy'
      exact ⟨x, z, hxy.tail hyz, hx, hz⟩
  · intro ⟨x, y, hxy, hx, hy⟩
    induction hxy generalizing b with
    | single hxy => exact .single ⟨x, _, hxy, hx, hy⟩
    | @tail y z _ hyz ih =>
      obtain ⟨c, hc, -⟩ := exists_element hdata (hbase _ hyz).1
      exact (ih c hc).tail ⟨y, z, hyz, hc, hy⟩

theorem connects_transitiveClosure (hbase : Within data base) {includeZero : Bool}
    (h : transitiveClosure data fuel base includeZero = some found) (a b : GraphElement N) :
    Connects data found a b ↔ includeZero = true ∧ idOn (nodes (triples data)) a b ∨
      TransGen (Connects data base) a b := by
  rw [transGen_connects hdata hbase, ← connects_diagonal hdata]
  simp only [Connects, mem_transitiveClosure h, List.mem_map, Prod.mk.injEq]
  constructor
  · rintro ⟨x, y, hxy | ⟨hzero, rfl, hx⟩, ha, hb⟩
    · exact .inr ⟨x, y, hxy, ha, hb⟩
    · exact .inl ⟨hzero, x, x, ⟨x, hx, rfl, rfl⟩, ha, hb⟩
  · rintro (⟨hzero, _, _, ⟨x, hx, rfl, rfl⟩, ha, hb⟩ | ⟨x, y, hxy, ha, hb⟩)
    · exact ⟨x, x, .inr ⟨hzero, rfl, hx⟩, ha, hb⟩
    · exact ⟨x, y, .inl hxy, ha, hb⟩

omit hdata in
theorem pathRel_alternatives (E : Triples N) (U : Set (GraphElement N)) (first : PropertyPath N)
    (rest : List (PropertyPath N)) (a b : GraphElement N) :
    pathRel E U (rest.foldl .alternative first) a b ↔
      ∃ R ∈ (first :: rest).map (pathRel E U), R a b := by
  induction rest generalizing first with
  | nil => simp
  | cons p rest ih =>
    rw [List.foldl_cons, ih]
    simp [pathRel, or_assoc]

omit hdata

mutual

theorem pairs_denotes (hdata : data.Interned) (hfuel : valuesBound data ≤ fuel) :
    ∀ (path : ShPath) {p : PropertyPath N} {found : List Pair}, toSparqlPath path = some p →
      pairs data fuel path = some found →
      Connects data found = pathRel (triples data) (nodes (triples data)) p
  | .predicate iri, p, found, hp, hfound => by
    cases hp
    rw [pairs] at hfound
    funext a b
    rw [pathRel]
    cases hiri : lookupIri data iri with
    | none =>
      rw [hiri] at hfound
      cases hfound
      refine propext (iff_of_false nofun ?_)
      intro ⟨q, _, _, _, hpred, _⟩
      cases hiri.symm.trans ((data.resources.exact _ _).mpr hpred)
    | some predId =>
      rw [hiri] at hfound
      cases hfound
      exact propext (connects_predicate iri hiri a b)
  | .inverse inner, p, found, hp, hfound => by
    obtain ⟨p', hp', rfl⟩ := Option.map_eq_some_iff.mp hp
    rw [pairs, Option.map_eq_some_iff] at hfound
    obtain ⟨found', hfound', rfl⟩ := hfound
    funext a b
    rw [pathRel, ← pairs_denotes hdata hfuel inner hp' hfound']
    exact propext (connects_swap a b)
  | .sequence steps, p, found, hp, hfound => by
    obtain ⟨ps, hps, hp⟩ := Option.bind_eq_some_iff.mp hp
    rw [pairs, Option.map_eq_some_iff] at hfound
    obtain ⟨founds, hfounds, rfl⟩ := hfound
    have hmap := pairsOfList_denotes hdata hfuel steps hps hfounds
    obtain ⟨founds', hfounds', hwithin⟩ := pairsOfList_isSome hfuel steps
    cases hfounds.symm.trans hfounds'
    cases ps with
    | nil => cases hp
    | cons p ps =>
      cases hp
      have hne : founds ≠ [] := by
        intro hnil
        simp [hnil] at hmap
      funext a b
      rw [pathRel, pathRels_eq_map, ← hmap]
      exact propext (connects_sequence hdata hne hwithin a b)
  | .alternative branches, p, found, hp, hfound => by
    obtain ⟨ps, hps, hp⟩ := Option.bind_eq_some_iff.mp hp
    rw [pairs, Option.map_eq_some_iff] at hfound
    obtain ⟨founds, hfounds, rfl⟩ := hfound
    cases ps with
    | nil => cases hp
    | cons first rest =>
      cases hp
      funext a b
      refine propext ((connects_flatten founds a b).trans ?_)
      rw [pairsOfList_denotes hdata hfuel branches hps hfounds, pathRel_alternatives]
  | .zeroOrOne inner, p, found, hp, hfound => by
    obtain ⟨p', hp', rfl⟩ := Option.map_eq_some_iff.mp hp
    rw [pairs, Option.map_eq_some_iff] at hfound
    obtain ⟨found', hfound', rfl⟩ := hfound
    funext a b
    rw [pathRel, ← pairs_denotes hdata hfuel inner hp' hfound']
    refine propext ((connects_append a b).trans ?_)
    rw [connects_diagonal hdata, or_comm]
  | .oneOrMore inner, p, found, hp, hfound
  | .zeroOrMore inner, p, found, hp, hfound => by
    obtain ⟨p', hp', rfl⟩ := Option.map_eq_some_iff.mp hp
    rw [pairs, Option.bind_eq_some_iff] at hfound
    obtain ⟨base, hbase, hfound⟩ := hfound
    funext a b
    rw [pathRel, ← pairs_denotes hdata hfuel inner hp' hbase]
    exact propext ((connects_transitiveClosure hdata (within_pairs hfuel hbase) hfound a b).trans
      (by simp))

theorem pairsOfList_denotes (hdata : data.Interned) (hfuel : valuesBound data ≤ fuel) :
    ∀ (paths : List ShPath) {ps : List (PropertyPath N)} {founds : List (List Pair)},
      toSparqlPaths paths = some ps → pairsOfList data fuel paths = some founds →
      founds.map (Connects data) = ps.map (pathRel (triples data) (nodes (triples data)))
  | [], ps, founds, hps, hfounds => by
    cases hps
    cases hfounds
    rfl
  | path :: paths, ps, founds, hps, hfounds => by
    obtain ⟨p, hp, hps⟩ := Option.bind_eq_some_iff.mp hps
    obtain ⟨ps', hps', rfl⟩ := Option.map_eq_some_iff.mp hps
    obtain ⟨found, hfound, hfounds⟩ := Option.bind_eq_some_iff.mp hfounds
    obtain ⟨founds', hfounds', rfl⟩ := Option.map_eq_some_iff.mp hfounds
    rw [List.map_cons, List.map_cons, pairs_denotes hdata hfuel path hp hfound,
      pairsOfList_denotes hdata hfuel paths hps' hfounds']

end

include hdata

/-- The values of a path are the terms that it leads to from the node as a SPARQL path. -/
theorem valuesFrom_denotes (hfuel : valuesBound data ≤ fuel) {path : ShPath} {p : PropertyPath N}
    (hp : toSparqlPath path = some p) {node : GraphElementId} {a : GraphElement N}
    (ha : data.resources.getGraphElement node = some a) :
    ∃ values, valuesFrom data fuel node path = some values ∧ ∀ b,
      (∃ v ∈ values, data.resources.getGraphElement v = some b) ↔
        pathRel (triples data) (nodes (triples data)) p a b := by
  obtain ⟨found, hfound, -⟩ := pairs_isSome hfuel path
  obtain ⟨values, hvalues, hmem⟩ := exists_valuesFrom hfound node
  refine ⟨values, hvalues, fun b => ?_⟩
  rw [← pairs_denotes hdata hfuel path hp hfound]
  simp only [hmem]
  constructor
  · intro ⟨v, hv, hb⟩
    exact ⟨node, v, hv, ha, hb⟩
  · intro ⟨x, v, hv, hx, hb⟩
    cases getGraphElement_inj hx ha
    exact ⟨v, hv, hb⟩

end Terms

def loopStore : Datastore NativeTypes.text := Datastore.new.addQuad ⟨0, 0, 0, 0⟩

theorem valuesFrom_denotes_loop : ∃ values,
    valuesFrom loopStore 4 0 (.oneOrMore (.predicate defaultGraphIri)) = some values ∧
      ∀ b, (∃ v ∈ values, loopStore.resources.getGraphElement v = some b) ↔
        pathRel (triples loopStore) (nodes (triples loopStore))
          (.oneOrMore (.iri (.iri defaultGraphIri))) (.iri defaultGraphIri) b := by
  have hdata : loopStore.Interned := by
    intro q hq
    rcases (QuadStore.mem_addQuad ..).mp hq with hq | rfl
    · cases QuadStore.not_mem_new q hq
    · rfl
  exact valuesFrom_denotes hdata (by decide) rfl rfl

end RdfDatalog.Shacl
