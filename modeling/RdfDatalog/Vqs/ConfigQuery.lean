import Mathlib.Data.List.Induction
import RdfDatalog.Math.BucketIndex
import RdfDatalog.Math.FallibleFold

namespace RdfDatalog.Vqs

abbrev NavNodeId := Nat

abbrev NavEdgeId := Nat

inductive NavNodeKind where
  | isClass
  | datatype

structure NavNode where
  id : NavNodeId
  iri : String
  kind : NavNodeKind

structure NavEdge where
  id : NavEdgeId
  iri : String
  src : NavNodeId
  tgt : NavNodeId
  inverse : Option NavEdgeId

structure NavGraph where
  nodes : List NavNode
  edges : List NavEdge
  nodeByIri : String → Option NavNodeId
  outEdges : NavNodeId → List NavEdgeId
  inEdges : NavNodeId → List NavEdgeId

namespace NavGraph

def new : NavGraph := ⟨[], [], fun _ => none, fun _ => [], fun _ => []⟩

variable (nav : NavGraph)

def edge (id : NavEdgeId) : Option NavEdge := nav.edges[id]?

def addNode (iri : String) (kind : NavNodeKind) : NavGraph × NavNodeId :=
  match nav.nodeByIri iri with
  | some id => (nav, id)
  | none =>
    let id := nav.nodes.length
    ({ nav with
        nodes := nav.nodes ++ [⟨id, iri, kind⟩]
        nodeByIri := Function.update nav.nodeByIri iri (some id) }, id)

def addClass (iri : String) : NavGraph × NavNodeId := nav.addNode iri .isClass

def addDatatype (iri : String) : NavGraph × NavNodeId := nav.addNode iri .datatype

/-- An edge with the next id, listed at both its ends. -/
def pushEdge (iri : String) (src tgt : NavNodeId) (inverse : Option NavEdgeId) : NavGraph :=
  let id := nav.edges.length
  { nav with
    edges := nav.edges ++ [⟨id, iri, src, tgt, inverse⟩]
    outEdges := Function.update nav.outEdges src (nav.outEdges src ++ [id])
    inEdges := Function.update nav.inEdges tgt (nav.inEdges tgt ++ [id]) }

def addObjectProperty (iri : String) (src tgt : NavNodeId) (inverseIri : String) :
    NavGraph × NavEdgeId × NavEdgeId :=
  let fwd := nav.edges.length
  ((nav.pushEdge iri src tgt (some (fwd + 1))).pushEdge inverseIri tgt src (some fwd), fwd, fwd + 1)

def addDataProperty (iri : String) (src tgt : NavNodeId) : NavGraph × NavEdgeId :=
  (nav.pushEdge iri src tgt none, nav.edges.length)

end NavGraph

inductive BuilderCall where
  | addClass (iri : String)
  | addDatatype (iri : String)
  | addObjectProperty (iri : String) (src tgt : NavNodeId) (inverseIri : String)
  | addDataProperty (iri : String) (src tgt : NavNodeId)

def BuilderCall.run (nav : NavGraph) : BuilderCall → NavGraph
  | addClass iri => (nav.addClass iri).1
  | addDatatype iri => (nav.addDatatype iri).1
  | addObjectProperty iri src tgt inverseIri => (nav.addObjectProperty iri src tgt inverseIri).1
  | addDataProperty iri src tgt => (nav.addDataProperty iri src tgt).1

namespace NavGraph

open BucketIndex

/-- The ids are positions, and the maps find exactly what is in the lists. -/
structure Indexed (nav : NavGraph) : Prop where
  byIri : ∀ iri id, nav.nodeByIri iri = some id ↔ ∃ node, nav.nodes[id]? = some node ∧
    node.iri = iri
  ids : ∀ id e, nav.edge id = some e → e.id = id
  outEdges : ∀ n, nav.outEdges n = nav.edges.findIdxs (·.src = n)
  inEdges : ∀ n, nav.inEdges n = nav.edges.findIdxs (·.tgt = n)

/-- The inverse of an edge is another edge, which goes back and has the first as its inverse. -/
def Paired (nav : NavGraph) : Prop :=
  ∀ id e id', nav.edge id = some e → e.inverse = some id' → id' ≠ id ∧ ∃ e',
    nav.edge id' = some e' ∧ e'.inverse = some id ∧ e'.src = e.tgt ∧ e'.tgt = e.src

variable {nav : NavGraph}

theorem Indexed.mem_outEdges (h : nav.Indexed) {id : NavEdgeId} {n : NavNodeId} :
    id ∈ nav.outEdges n ↔ ∃ e, nav.edge id = some e ∧ e.src = n := by
  rw [h.outEdges, List.mem_findIdxs_iff_exists_getElem_pos]
  simp [edge, List.getElem?_eq_some_iff]

theorem Indexed.addNode (h : nav.Indexed) (iri : String) (kind : NavNodeKind) :
    (nav.addNode iri kind).1.Indexed := by
  unfold NavGraph.addNode
  split
  · exact h
  next hnew =>
    refine ⟨fun iri' id => ?_, h.ids, h.outEdges, h.inEdges⟩
    simp only [getElem?_concat_eq_some]
    by_cases hiri : iri' = iri
    · subst hiri
      rw [Function.update_self, Option.some.injEq]
      constructor
      · rintro rfl
        exact ⟨_, .inr ⟨rfl, rfl⟩, rfl⟩
      · rintro ⟨node, hold | ⟨hid, -⟩, hnode⟩
        · exact absurd ((h.byIri iri' id).mpr ⟨node, hold, hnode⟩) (by simp [hnew])
        · exact hid.symm
    · rw [Function.update_of_ne hiri, h.byIri]
      refine exists_congr fun node => and_congr_left fun hnode => (or_iff_left ?_).symm
      rintro ⟨-, rfl⟩
      exact hiri hnode.symm

theorem Indexed.pushEdge (h : nav.Indexed) (iri : String) (src tgt : NavNodeId)
    (inverse : Option NavEdgeId) : (nav.pushEdge iri src tgt inverse).Indexed where
  byIri := h.byIri
  ids id e he := by
    rcases (getElem?_concat_eq_some _ _ _ _).mp he with he | ⟨rfl, rfl⟩
    · exact h.ids id e he
    · rfl
  outEdges n := by
    unfold NavGraph.pushEdge
    dsimp only
    rw [List.findIdxs_append, ← h.outEdges, Function.update_apply]
    by_cases hn : n = src
    · simp [hn]
    · simp [hn, Ne.symm hn]
  inEdges n := by
    unfold NavGraph.pushEdge
    dsimp only
    rw [List.findIdxs_append, ← h.inEdges, Function.update_apply]
    by_cases hn : n = tgt
    · simp [hn]
    · simp [hn, Ne.symm hn]

theorem edge_pushEdge {iri : String} {src tgt : NavNodeId} {inverse : Option NavEdgeId}
    {id : NavEdgeId} {e : NavEdge} : (nav.pushEdge iri src tgt inverse).edge id = some e ↔
      nav.edge id = some e ∨ id = nav.edges.length ∧ e = ⟨id, iri, src, tgt, inverse⟩ := by
  rw [edge, NavGraph.pushEdge, getElem?_concat_eq_some]
  exact or_congr_right (and_congr_right fun hid => by rw [hid])

/-- The calls in order. -/
def built (calls : List BuilderCall) : NavGraph := calls.foldl BuilderCall.run new

theorem indexed_built (calls : List BuilderCall) : (built calls).Indexed := by
  refine List.foldlRecOn calls BuilderCall.run ?_ fun nav h call _ => ?_
  · exact ⟨fun _ _ => by simp [new], fun _ _ h => (by cases h), fun _ => rfl, fun _ => rfl⟩
  cases call with
  | addClass | addDatatype => exact h.addNode _ _
  | addObjectProperty => exact (h.pushEdge _ _ _ _).pushEdge _ _ _ _
  | addDataProperty => exact h.pushEdge _ _ _ _

theorem paired_built (calls : List BuilderCall) : (built calls).Paired := by
  refine List.foldlRecOn calls BuilderCall.run nofun fun nav h call _ => ?_
  have hnode (iri : String) (kind : NavNodeKind) : (nav.addNode iri kind).1.Paired := by
    unfold addNode
    split
    · exact h
    · exact h
  cases call with
  | addClass | addDatatype => exact hnode _ _
  | addDataProperty iri src tgt =>
    intro id e id' he hid'
    rcases edge_pushEdge.mp he with he | ⟨-, rfl⟩
    · obtain ⟨hne, e', he', hback⟩ := h id e id' he hid'
      exact ⟨hne, e', edge_pushEdge.mpr (.inl he'), hback⟩
    · cases hid'
  | addObjectProperty iri src tgt inverseIri =>
    intro id e id' he hid'
    rcases edge_pushEdge.mp he with he | ⟨rfl, rfl⟩
    · rcases edge_pushEdge.mp he with he | ⟨rfl, rfl⟩
      · obtain ⟨hne, e', he', hback⟩ := h id e id' he hid'
        exact ⟨hne, e', edge_pushEdge.mpr (.inl (edge_pushEdge.mpr (.inl he'))), hback⟩
      · cases hid'
        exact ⟨by simp, _, edge_pushEdge.mpr (.inr ⟨by simp [pushEdge], rfl⟩), rfl, rfl, rfl⟩
    · cases hid'
      refine ⟨by simp [pushEdge], _, edge_pushEdge.mpr (.inl (edge_pushEdge.mpr (.inr ⟨rfl, rfl⟩))),
        ?_, rfl, rfl⟩
      simp [pushEdge]

/-- However a graph is built, its maps find exactly its nodes and edges, and the inverses of its
edges come in pairs. -/
theorem built_indexed_paired (calls : List BuilderCall) :
    (built calls).Indexed ∧ (built calls).Paired :=
  ⟨indexed_built calls, paired_built calls⟩

end NavGraph

structure CqNode where
  navNode : NavNodeId
  parentEdge : Option NavEdgeId
  parent : Option Nat
  children : List Nat

structure ConfigQuery where
  nodes : List CqNode

namespace ConfigQuery

open BucketIndex FallibleFold

def rootOnly (rootClass : NavNodeId) : ConfigQuery := ⟨[⟨rootClass, none, none, []⟩]⟩

/-- No result is an index out of bounds. -/
def extend (config : ConfigQuery) (parentIdx : Nat) (edge : NavEdgeId) (nav : NavGraph) :
    Option (ConfigQuery × Nat) :=
  (nav.edge edge).bind fun e =>
    let childIdx := config.nodes.length
    let nodes := config.nodes ++ [⟨e.tgt, some edge, some parentIdx, []⟩]
    if parentIdx < nodes.length then
      some (⟨nodes.modify parentIdx fun node =>
        { node with children := node.children ++ [childIdx] }⟩, childIdx)
    else none

/-- Where the query may grow by one of some edges. -/
def expansions (config : ConfigQuery) (nav : NavGraph) (edges : List NavEdgeId) :
    List (Nat × NavEdgeId) :=
  config.nodes.zipIdx.flatMap fun (node, parentIdx) =>
    ((nav.outEdges node.navNode).filter (· ∈ edges)).map (Prod.mk parentIdx)

variable {W : Type}

/-- By the edges of the log, whatever their weights. -/
def successors (config : ConfigQuery) (nav : NavGraph) (log : List (W × List NavEdgeId)) :
    Option (List ConfigQuery) :=
  (expansions config nav (log.flatMap Prod.snd)).mapM fun choice =>
    (config.extend choice.1 choice.2 nav).map Prod.fst

/-- What a search may come to from the root alone. -/
inductive Visited (nav : NavGraph) (log : List (W × List NavEdgeId)) (rootClass : NavNodeId) :
    ConfigQuery → Prop
  | root : Visited nav log rootClass (rootOnly rootClass)
  | next {config configs config'} (h : Visited nav log rootClass config)
    (hrun : successors config nav log = some configs) (hmem : config' ∈ configs) :
    Visited nav log rootClass config'

/-- A node without its children. -/
abbrev Stem := NavNodeId × Option NavEdgeId × Option Nat

/-- Every node has the children whose parent it is. -/
def linked (stems : List Stem) : ConfigQuery :=
  ⟨stems.mapIdx fun idx stem =>
    ⟨stem.1, stem.2.1, stem.2.2, stems.findIdxs (·.2.2 = some idx)⟩⟩

variable (nav : NavGraph) (edges : List NavEdgeId)

/-- The node hangs on an earlier one by an edge of the graph. -/
def HangsOn (earlier : List Stem) (stem : Stem) : Prop :=
  ∃ p parent eid e, earlier[p]? = some parent ∧ eid ∈ edges ∧ nav.edge eid = some e ∧
    e.src = parent.1 ∧ stem = (e.tgt, some eid, some p)

/-- A root, and then nodes that hang on earlier ones. -/
structure Spans (rootClass : NavNodeId) (stems : List Stem) : Prop where
  root : stems[0]? = some (rootClass, none, none)
  hangs : ∀ idx stem, stems[idx + 1]? = some stem → HangsOn nav edges (stems.take (idx + 1)) stem

variable {nav edges} {rootClass : NavNodeId} {stems : List Stem} {stem : Stem} {p : Nat}

theorem HangsOn.parent_lt (h : HangsOn nav edges stems stem) (hp : stem.2.2 = some p) :
    p < stems.length := by
  obtain ⟨q, _, _, _, hq, -, -, -, rfl⟩ := h
  cases hp
  exact (List.getElem?_eq_some_iff.mp hq).1

theorem Spans.parent_lt (h : Spans nav edges rootClass stems) (hmem : stem ∈ stems)
    (hp : stem.2.2 = some p) : p < stems.length := by
  obtain ⟨idx, hidx⟩ := List.mem_iff_getElem?.mp hmem
  cases idx with
  | zero =>
    cases h.root.symm.trans hidx
    cases hp
  | succ idx =>
    exact Nat.lt_of_lt_of_le ((h.hangs idx stem hidx).parent_lt hp) (List.length_take_le' _ _)

theorem spans_concat (hne : stems ≠ []) : Spans nav edges rootClass (stems ++ [stem]) ↔
    Spans nav edges rootClass stems ∧ HangsOn nav edges stems stem := by
  have hpos := List.length_pos_iff.mpr hne
  have htake {idx : Nat} {s : Stem} (hs : stems[idx + 1]? = some s) :
      (stems ++ [stem]).take (idx + 1) = stems.take (idx + 1) :=
    List.take_append_of_le_length (Nat.le_of_lt (List.getElem?_eq_some_iff.mp hs).1)
  constructor
  · intro h
    refine ⟨⟨(List.getElem?_append_left hpos).symm.trans h.root, fun idx s hs => ?_⟩, ?_⟩
    · rw [← htake hs]
      exact h.hangs idx s ((getElem?_concat_eq_some _ _ _ _).mpr (.inl hs))
    · have hlast := h.hangs (stems.length - 1) stem
      rw [Nat.sub_add_cancel hpos, List.take_left] at hlast
      exact hlast List.getElem?_concat_length
  · intro ⟨h, hstem⟩
    refine ⟨(getElem?_concat_eq_some _ _ _ _).mpr (.inl h.root), fun idx s hs => ?_⟩
    rcases (getElem?_concat_eq_some _ _ _ _).mp hs with hold | ⟨hidx, rfl⟩
    · rw [htake hold]
      exact h.hangs idx s hold
    · rw [hidx, List.take_left]
      exact hstem

theorem extend_linked {eid : NavEdgeId} {e : NavEdge} (h : Spans nav edges rootClass stems)
    (hp : p < stems.length) (he : nav.edge eid = some e) : (linked stems).extend p eid nav =
      some (linked (stems ++ [(e.tgt, some eid, some p)]), stems.length) := by
  have hnone : stems.findIdxs (·.2.2 = some stems.length) = [] := by
    rw [List.findIdxs_eq_nil_iff]
    exact fun stem hmem => decide_eq_false fun heq => Nat.lt_irrefl _ (h.parent_lt hmem heq)
  rw [extend, he, Option.bind_some]
  dsimp only
  rw [if_pos (by simp [linked]; omega)]
  simp only [linked, List.length_mapIdx, Option.some.injEq, Prod.mk.injEq, and_true,
    ConfigQuery.mk.injEq]
  refine List.ext_getElem? fun idx => ?_
  rw [List.getElem?_modify, List.mapIdx_concat]
  rcases lt_trichotomy idx stems.length with hlt | rfl | hgt
  · rw [List.getElem?_append_left (by simpa), List.getElem?_append_left (by simpa)]
    by_cases hidx : p = idx
    · simp [hlt, hidx]
    · simp [hlt, hidx]
  · simp [Nat.ne_of_lt hp, hnone]
  · rw [List.getElem?_eq_none (by simp; omega), List.getElem?_eq_none (by simp; omega)]
    rfl

section Search

variable {config : ConfigQuery} {log : List (W × List NavEdgeId)} (hnav : nav.Indexed)
include hnav

theorem mem_expansions {choice : Nat × NavEdgeId} :
    choice ∈ expansions (linked stems) nav edges ↔ choice.2 ∈ edges ∧ ∃ parent e,
      stems[choice.1]? = some parent ∧ nav.edge choice.2 = some e ∧ e.src = parent.1 := by
  simp only [expansions, linked, List.mem_flatMap, List.mem_zipIdx_iff_getElem?,
    List.getElem?_mapIdx, Option.map_eq_some_iff, List.mem_map, List.mem_filter, hnav.mem_outEdges,
    decide_eq_true_eq]
  constructor
  · rintro ⟨_, ⟨parent, hp, hnode⟩, eid, ⟨⟨e, he, hsrc⟩, heid⟩, hchoice⟩
    rw [← hnode] at hsrc
    rw [← hchoice]
    exact ⟨heid, parent, e, hp, he, hsrc⟩
  · rintro ⟨heid, parent, e, hp, he, hsrc⟩
    exact ⟨(⟨_, _, _, stems.findIdxs (·.2.2 = some choice.1)⟩, choice.1), ⟨parent, hp, rfl⟩,
      choice.2, ⟨⟨e, he, hsrc⟩, heid⟩, rfl⟩

theorem mem_successors (h : Spans nav (log.flatMap Prod.snd) rootClass stems) :
    ∃ configs, successors (linked stems) nav log = some configs ∧ ∀ config, config ∈ configs ↔
      ∃ stem, HangsOn nav (log.flatMap Prod.snd) stems stem ∧
        config = linked (stems ++ [stem]) := by
  have hextend {p : Nat} {parent : Stem} {eid : NavEdgeId} {e : NavEdge}
      (hp : stems[p]? = some parent) (he : nav.edge eid = some e) :=
    extend_linked h (List.getElem?_eq_some_iff.mp hp).1 he
  have hsome : (successors (linked stems) nav log).isSome := by
    refine mapM_isSome fun choice hchoice => ?_
    obtain ⟨-, parent, e, hp, he, -⟩ := (mem_expansions hnav).mp hchoice
    rw [hextend hp he]
    rfl
  obtain ⟨configs, hconfigs⟩ := Option.isSome_iff_exists.mp hsome
  refine ⟨configs, hconfigs, fun config => ?_⟩
  rw [mem_of_forall₂ (mapM_eq_some_iff.mp hconfigs)]
  constructor
  · intro ⟨(p, eid), hchoice, hresult⟩
    obtain ⟨heid, parent, e, hp, he, hsrc⟩ := (mem_expansions hnav).mp hchoice
    rw [hextend hp he] at hresult
    exact ⟨_, ⟨p, parent, eid, e, hp, heid, he, hsrc, rfl⟩, (Option.some.inj hresult).symm⟩
  · intro ⟨stem, ⟨p, parent, eid, e, hp, heid, he, hsrc, hstem⟩, hconfig⟩
    refine ⟨(p, eid), (mem_expansions hnav).mpr ⟨heid, parent, e, hp, he, hsrc⟩, ?_⟩
    rw [hextend hp he, hconfig, hstem]
    rfl

theorem Visited.spans (h : Visited nav log rootClass config) :
    ∃ stems, Spans nav (log.flatMap Prod.snd) rootClass stems ∧ config = linked stems := by
  induction h with
  | root => exact ⟨[(rootClass, none, none)], ⟨rfl, fun _ _ h => by cases h⟩, rfl⟩
  | next _ hrun hmem ih =>
    obtain ⟨stems, hspans, rfl⟩ := ih
    obtain ⟨configs, hconfigs, hall⟩ := mem_successors hnav hspans
    cases hconfigs.symm.trans hrun
    obtain ⟨stem, hstem, rfl⟩ := (hall _).mp hmem
    have hne : stems ≠ [] := by
      intro hnil
      rw [hnil] at hspans
      cases hspans.root
    exact ⟨_, (spans_concat hne).mpr ⟨hspans, hstem⟩, rfl⟩

theorem visited_linked (h : Spans nav (log.flatMap Prod.snd) rootClass stems) :
    Visited nav log rootClass (linked stems) := by
  induction stems using List.reverseRecOn with
  | nil => cases h.root
  | append_singleton stems stem ih =>
    by_cases hne : stems = []
    · subst hne
      cases h.root
      exact .root
    · obtain ⟨hspans, hstem⟩ := (spans_concat hne).mp h
      obtain ⟨configs, hconfigs, hall⟩ := mem_successors hnav hspans
      exact (ih hspans).next hconfigs ((hall _).mpr ⟨stem, hstem, rfl⟩)

end Search

/-- In a graph however built, the queries that a search may come to are the trees over the graph by
edges of the log, and it can go on from each. -/
theorem visited_iff_spans (calls : List BuilderCall) (log : List (W × List NavEdgeId))
    (rootClass : NavNodeId) (config : ConfigQuery) :
    (Visited (.built calls) log rootClass config ↔
      ∃ stems, Spans (.built calls) (log.flatMap Prod.snd) rootClass stems ∧
        config = linked stems) ∧
    (Visited (.built calls) log rootClass config →
      (successors config (.built calls) log).isSome) := by
  have hnav := NavGraph.indexed_built calls
  refine ⟨⟨Visited.spans hnav, fun h => ?_⟩, fun h => ?_⟩
  · obtain ⟨stems, hspans, rfl⟩ := h
    exact visited_linked hnav hspans
  · obtain ⟨stems, hspans, rfl⟩ := h.spans hnav
    obtain ⟨configs, hconfigs, -⟩ := mem_successors hnav hspans
    exact Option.isSome_iff_exists.mpr ⟨configs, hconfigs⟩

end ConfigQuery
end RdfDatalog.Vqs
