import RdfDatalog.Store.GraphElement
import RdfDatalog.Store.QuadStore

namespace RdfDatalog

variable {N : NativeTypes}

/-- Interning store from graph elements to compact ids; id 0 is the default graph. -/
structure GraphElementManager (N : NativeTypes) where
  resourceMap : AList (fun _ : GraphElement N => GraphElementId)
  resourceList : List (GraphElement N)
  resourceCount : Nat
  anonResourceCount : Nat
  anonResourceMap : AList (fun _ : String => GraphElementId)
  count : resourceCount = resourceList.length
  exact : ∀ e i, resourceMap.lookup e = some i ↔ resourceList[i]? = some e
  defaultGraph : resourceList[defaultGraphElementId]? = some (.iri defaultGraphIri)

namespace GraphElementManager

def new : GraphElementManager N where
  resourceMap := AList.singleton (.iri defaultGraphIri) defaultGraphElementId
  resourceList := [.iri defaultGraphIri]
  resourceCount := 1
  anonResourceCount := 0
  anonResourceMap := ∅
  count := rfl
  exact e i := by
    by_cases he : e = .iri defaultGraphIri
    · subst he
      have hlookup : (AList.singleton (GraphElement.iri defaultGraphIri) defaultGraphElementId :
          AList (fun _ : GraphElement N => GraphElementId)).lookup (.iri defaultGraphIri) =
            some defaultGraphElementId := List.dlookup_cons_eq _ _ _
      rw [hlookup]
      cases i <;> simp [defaultGraphElementId]
    · have hne : ¬ GraphElement.iri defaultGraphIri = e := fun h => he h.symm
      have hlookup : (AList.singleton (GraphElement.iri defaultGraphIri) defaultGraphElementId :
          AList (fun _ : GraphElement N => GraphElementId)).lookup e = none :=
        List.dlookup_cons_ne _ _ he
      rw [hlookup]
      cases i <;> simp [hne]
  defaultGraph := rfl

/-- `none` where the source panics: the id is out of range. -/
def getGraphElement (m : GraphElementManager N) (id : GraphElementId) : Option (GraphElement N) :=
  m.resourceList[id]?

def getNamedResource (m : GraphElementManager N) (id : GraphElementId) : Option IriReference :=
  match m.getGraphElement id with
  | some (.nodeOrEdge (.iri i)) => some i
  | _ => none

variable {m : GraphElementManager N} {e : GraphElement N}

theorem getElem?_concat_fresh (he : m.resourceMap.lookup e = none) (f : GraphElement N)
    (i : GraphElementId) :
    (m.resourceMap.insert e m.resourceCount).lookup f = some i ↔
      (m.resourceList ++ [e])[i]? = some f := by
  have hfresh : ∀ j : Nat, m.resourceList[j]? ≠ some e := by
    intro j hj
    rw [(m.exact e j).mpr hj] at he
    cases he
  rw [BucketIndex.getElem?_concat_eq_some]
  by_cases hf : f = e
  · subst hf
    simp only [AList.lookup_insert, m.count, Option.some.injEq, hfresh i, false_or, and_true]
    exact eq_comm
  · simp only [AList.lookup_insert_ne hf, m.exact, hf, and_false, or_false]

/-- Intern `e`: its id when present, a fresh one otherwise. -/
def addResource (m : GraphElementManager N) (e : GraphElement N) :
    GraphElementManager N × GraphElementId :=
  match he : m.resourceMap.lookup e with
  | some id => (m, id)
  | none =>
    ({ m with
        resourceMap := m.resourceMap.insert e m.resourceCount
        resourceList := m.resourceList ++ [e]
        resourceCount := m.resourceCount + 1
        count := by simp [m.count]
        exact := getElem?_concat_fresh he
        defaultGraph := by
          obtain ⟨hlt, -⟩ := List.getElem?_eq_some_iff.mp m.defaultGraph
          rw [List.getElem?_append_left hlt]
          exact m.defaultGraph },
      m.resourceCount)

/-- Only appends to the interned elements. -/
def Extends (m m' : GraphElementManager N) : Prop := m.resourceList <+: m'.resourceList

@[refl] theorem Extends.refl (m : GraphElementManager N) : m.Extends m := List.prefix_rfl

theorem Extends.trans {m' m'' : GraphElementManager N} (h : m.Extends m') (h' : m'.Extends m'') :
    m.Extends m'' :=
  List.IsPrefix.trans h h'

theorem Extends.getGraphElement {m' : GraphElementManager N} (h : m.Extends m') {i : GraphElementId}
    (he : m.getGraphElement i = some e) :
    m'.getGraphElement i = some e := by
  obtain ⟨tail, ht⟩ := h
  obtain ⟨hlt, -⟩ := List.getElem?_eq_some_iff.mp he
  rw [GraphElementManager.getGraphElement, ← ht, List.getElem?_append_left hlt]
  exact he

theorem addResource_extends (m : GraphElementManager N) (e : GraphElement N) :
    m.Extends (m.addResource e).1 := by
  unfold addResource
  split
  · rfl
  · exact List.prefix_append _ _

theorem addResource_get (m : GraphElementManager N) (e : GraphElement N) :
    (m.addResource e).1.getGraphElement (m.addResource e).2 = some e := by
  unfold addResource
  split
  · next id he => exact (m.exact e id).mp he
  · simp [getGraphElement, m.count]

theorem getGraphElement_inj {i j : GraphElementId} (hi : m.getGraphElement i = some e)
    (hj : m.getGraphElement j = some e) : i = j := by
  have hi' := (m.exact e i).mpr hi
  have hj' := (m.exact e j).mpr hj
  exact Option.some.inj (hi'.symm.trans hj')

def createUnnamedAnonResource (m : GraphElementManager N) :
    GraphElementManager N × GraphElementId :=
  let m := { m with anonResourceCount := m.anonResourceCount + 1 }
  m.addResource (.nodeOrEdge (.anonymousBlankNode m.anonResourceCount))

def getOrCreateNamedAnonResource (m : GraphElementManager N) (name : String) :
    GraphElementManager N × GraphElementId :=
  match m.anonResourceMap.lookup name with
  | some id => (m, id)
  | none =>
    let (m, id) := m.createUnnamedAnonResource
    ({ m with anonResourceMap := m.anonResourceMap.insert name id }, id)

end GraphElementManager

structure QuadResource (N : NativeTypes) where
  graph : GraphElement N
  subject : GraphElement N
  predicate : GraphElement N
  obj : GraphElement N
  deriving DecidableEq

namespace GraphElementManager

def getResourceQuad (m : GraphElementManager N) (q : Quad) : Option (QuadResource N) :=
  match m.getGraphElement q.tripleId, m.getGraphElement q.subject,
      m.getGraphElement q.predicate, m.getGraphElement q.obj with
  | some g, some s, some p, some o => some ⟨g, s, p, o⟩
  | _, _, _, _ => none

variable {m m' : GraphElementManager N} {q : Quad} {r : QuadResource N} {quads : List Quad}

theorem getResourceQuad_eq_some :
    m.getResourceQuad q = some r ↔
      m.getGraphElement q.tripleId = some r.graph ∧
      m.getGraphElement q.subject = some r.subject ∧
      m.getGraphElement q.predicate = some r.predicate ∧
      m.getGraphElement q.obj = some r.obj := by
  unfold getResourceQuad
  constructor
  · intro h
    split at h
    · next g s p o hg hs hp ho =>
      obtain rfl := Option.some.inj h
      exact ⟨hg, hs, hp, ho⟩
    · cases h
  · intro ⟨hg, hs, hp, ho⟩
    rw [hg, hs, hp, ho]

theorem getResourceQuad_inj {q' : Quad} (h : m.getResourceQuad q = some r)
    (h' : m.getResourceQuad q' = some r) : q = q' := by
  obtain ⟨hg, hs, hp, ho⟩ := getResourceQuad_eq_some.mp h
  obtain ⟨hg', hs', hp', ho'⟩ := getResourceQuad_eq_some.mp h'
  exact Quad.ext (getGraphElement_inj hg hg') (getGraphElement_inj hs hs')
    (getGraphElement_inj hp hp') (getGraphElement_inj ho ho')

theorem Extends.getResourceQuad (h : m.Extends m') (hr : m.getResourceQuad q = some r) :
    m'.getResourceQuad q = some r := by
  obtain ⟨hg, hs, hp, ho⟩ := getResourceQuad_eq_some.mp hr
  exact getResourceQuad_eq_some.mpr
    ⟨h.getGraphElement hg, h.getGraphElement hs, h.getGraphElement hp, h.getGraphElement ho⟩

def Interned (m : GraphElementManager N) (q : Quad) : Prop := (m.getResourceQuad q).isSome

theorem Interned.extends (hq : m.Interned q) (h : m.Extends m') : m'.Interned q := by
  obtain ⟨r, hr⟩ := Option.isSome_iff_exists.mp hq
  exact Option.isSome_iff_exists.mpr ⟨r, h.getResourceQuad hr⟩

def resolve (m : GraphElementManager N) (quads : List Quad) : Finset (QuadResource N) :=
  (quads.filterMap m.getResourceQuad).toFinset

theorem mem_resolve :
    r ∈ m.resolve quads ↔ ∃ q ∈ quads, m.getResourceQuad q = some r := by
  simp [resolve]

theorem resolve_extends (h : m.Extends m') (hq : ∀ q ∈ quads, m.Interned q) :
    m'.resolve quads = m.resolve quads := by
  ext r
  rw [mem_resolve, mem_resolve]
  constructor
  · intro ⟨q, hmem, hr⟩
    obtain ⟨r', hr'⟩ := Option.isSome_iff_exists.mp (hq q hmem)
    have heq : r' = r := Option.some.inj ((h.getResourceQuad hr').symm.trans hr)
    exact ⟨q, hmem, heq ▸ hr'⟩
  · intro ⟨q, hmem, hr⟩
    exact ⟨q, hmem, h.getResourceQuad hr⟩

theorem mem_resolve_iff_mem (hr : m.getResourceQuad q = some r) :
    r ∈ m.resolve quads ↔ q ∈ quads := by
  rw [mem_resolve]
  constructor
  · intro ⟨q', hmem, hr'⟩
    rwa [getResourceQuad_inj hr hr']
  · intro hmem
    exact ⟨q, hmem, hr⟩

end GraphElementManager

/-- The RDF dataset: the quads of all graphs and the interning store. Reified triples and the
write counter are left out. -/
structure Datastore (N : NativeTypes) where
  namedGraphs : QuadStore
  resources : GraphElementManager N

namespace Datastore

def new : Datastore N := ⟨QuadStore.new, GraphElementManager.new⟩

/-- Every stored quad has interned ids. -/
def Interned (ds : Datastore N) : Prop := ∀ q ∈ ds.namedGraphs, ds.resources.Interned q

def addResource (ds : Datastore N) (e : GraphElement N) : Datastore N × GraphElementId :=
  let (resources, id) := ds.resources.addResource e
  ({ ds with resources }, id)

def addQuad (ds : Datastore N) (q : Quad) : Datastore N :=
  { ds with namedGraphs := ds.namedGraphs.addQuad q }

def removeQuad (ds : Datastore N) (q : Quad) : Datastore N :=
  { ds with namedGraphs := ds.namedGraphs.removeQuad q }

def removeGraph (ds : Datastore N) (graphId : GraphElementId) : Datastore N :=
  { ds with namedGraphs := ds.namedGraphs.removeGraph graphId }

def lookupNamedGraphId (ds : Datastore N) (iri : String) : Option GraphElementId :=
  ds.resources.resourceMap.lookup (.iri iri)

/-- The stored quads as quads of graph elements. -/
def resolved (ds : Datastore N) : Finset (QuadResource N) :=
  ds.resources.resolve ds.namedGraphs.quadList

end Datastore

end RdfDatalog
