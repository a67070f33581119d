import RdfDatalog.Endpoint.UpdateSemantics

namespace RdfDatalog.Endpoint

open DeltaBuffer GraphElementManager

variable {N : NativeTypes}

/-- The quad mutations of the durable changelog; `none` is the default graph. -/
inductive LogEntry where
  | clearGraph (dataset : String) (graph : Option String)
  | insertQuad (dataset : String) (graph : Option String) (s p o : ElementRepr)
  | deleteQuad (dataset : String) (graph : Option String) (s p o : ElementRepr)

variable (ds : Datastore N)

def graphIdFor : Option String → Datastore N × GraphElementId
  | none => (ds, defaultGraphElementId)
  | some iri => ds.addResource (.iri iri)

def knownGraphId : Option String → Option GraphElementId
  | none => some defaultGraphElementId
  | some iri => ds.lookupNamedGraphId iri

/-- The quad that an entry names, when all its terms are known. -/
def knownQuad (graph : Option String) (s p o : ElementRepr) : Option Quad :=
  match knownGraphId ds graph, ds.resources.resourceMap.lookup (fromRepr s),
      ds.resources.resourceMap.lookup (fromRepr p),
      ds.resources.resourceMap.lookup (fromRepr o) with
  | some graphId, some s, some p, some o => some ⟨graphId, s, p, o⟩
  | _, _, _, _ => none

def applyEntry : LogEntry → Datastore N
  | .clearGraph _ graph =>
    let (ds, graphId) := graphIdFor ds graph
    ds.removeGraph graphId
  | .insertQuad _ graph s p o =>
    let (ds, graphId) := graphIdFor ds graph
    let (ds, quad) := internTriple ds graphId (fromRepr s) (fromRepr p) (fromRepr o)
    ds.addQuad quad
  | .deleteQuad _ graph s p o =>
    match knownQuad ds graph s p o with
    | some quad => ds.removeQuad quad
    | none => ds

def applyEntries (entries : List LogEntry) : Datastore N :=
  entries.foldl applyEntry ds

/-- A parsed update operation, its data blocks still text. -/
inductive UpdateOp where
  | insertData (content : String) (prefixes : Prefixes)
  | deleteData (content : String) (prefixes : Prefixes)
  | clearDefault
  | clearNamed
  | clearAll
  | clearGraph (iri : String)
  | dropDefault
  | dropNamed
  | dropAll
  | dropGraph (iri : String)
  | createGraph (iri : String)
  | loadGraph (source : String) (into : Option String) (silent : Bool)
  | insertWhere (template pattern : String) (prefixes : Prefixes)
  | deleteWhere (template pattern : String) (prefixes : Prefixes)
  | deleteInsertWhere (deleteTemplate insertTemplate pattern : String) (prefixes : Prefixes)

def tmpGraphIri (tmp : Datastore N) (gid : GraphElementId) : Option String :=
  if gid = defaultGraphElementId then none else tmp.resources.getNamedResource gid

abbrev QuadEntry := String → Option String → ElementRepr → ElementRepr → ElementRepr → LogEntry

def quadEntry (mk : QuadEntry) (dataset : String) (tmp : Datastore N) (graph : Option String)
    (q : Quad) : Option LogEntry :=
  match tmp.resources.getGraphElement q.subject, tmp.resources.getGraphElement q.predicate,
      tmp.resources.getGraphElement q.obj with
  | some s, some p, some o => some (mk dataset graph (toRepr s) (toRepr p) (toRepr o))
  -- the source panics on an id that is not interned
  | _, _, _ => none

def dataEntries (mk : QuadEntry) (dataset : String) (tmp : Datastore N) : List LogEntry :=
  tmp.namedGraphs.graphIds.flatMap fun gid =>
    (tmp.namedGraphs.table.getGraph gid).filterMap
      (quadEntry mk dataset tmp (tmpGraphIri tmp gid))

/-- Clears for the named graphs that the store holds before the request. -/
def collectNamedGraphEntries (dataset : String) (store : Datastore N) : List LogEntry :=
  (store.namedGraphs.graphIds.filter fun id => id ≠ defaultGraphElementId).filterMap fun id =>
    (store.resources.getNamedResource id).map fun iri => .clearGraph dataset (some iri)

/-- One operation: its prepared form and its log entries. -/
def prepareOp (trigParser : String → Except String (List OxQuad)) (dataset : String)
    (store : Datastore N) : UpdateOp → Except String (PreparedOp N × List LogEntry)
  | .insertData content prefixes =>
    (parseTurtleContent trigParser content prefixes).map fun tmp =>
      (.insertData tmp, dataEntries .insertQuad dataset tmp)
  | .deleteData content prefixes =>
    (parseTurtleContent trigParser content prefixes).map fun tmp =>
      (.deleteData tmp, dataEntries .deleteQuad dataset tmp)
  | .clearDefault => .ok (.clearDefault, [.clearGraph dataset none])
  | .dropDefault => .ok (.dropDefault, [.clearGraph dataset none])
  | .clearGraph iri => .ok (.clearGraph iri, [.clearGraph dataset (some iri)])
  | .dropGraph iri => .ok (.dropGraph iri, [.clearGraph dataset (some iri)])
  | .clearNamed => .ok (.clearNamed, collectNamedGraphEntries dataset store)
  | .dropNamed => .ok (.dropNamed, collectNamedGraphEntries dataset store)
  | .clearAll =>
    .ok (.clearAll, .clearGraph dataset none :: collectNamedGraphEntries dataset store)
  | .dropAll =>
    .ok (.dropAll, .clearGraph dataset none :: collectNamedGraphEntries dataset store)
  | .createGraph iri => .ok (.createGraph iri, [])
  | .loadGraph source into silent => .ok (.loadGraph source into silent, [])
  | .insertWhere template pattern prefixes =>
    .ok (.patternUpdate none (some template) pattern prefixes, [])
  | .deleteWhere template pattern prefixes =>
    .ok (.patternUpdate (some template) none pattern prefixes, [])
  | .deleteInsertWhere deleteTemplate insertTemplate pattern prefixes =>
    .ok (.patternUpdate (some deleteTemplate) (some insertTemplate) pattern prefixes, [])

/-- The prepared operations of a request and the log entries to write for it, from the store as
it is before the request. -/
def prepareUpdate (trigParser : String → Except String (List OxQuad)) (dataset : String)
    (store : Datastore N) : List UpdateOp → Except String (List (PreparedOp N) × List LogEntry)
  | [] => .ok ([], [])
  | op :: ops =>
    match prepareOp trigParser dataset store op with
    | .error e => .error e
    | .ok (prepared, entries) =>
      match prepareUpdate trigParser dataset store ops with
      | .error e => .error e
      | .ok (prepareds, rest) => .ok (prepared :: prepareds, entries ++ rest)

def logGraph (graph : Option String) : GraphElement N := .iri (graph.getD defaultGraphIri)

theorem graphIdFor_spec (graph : Option String) :
    (graphIdFor ds graph).1.namedGraphs = ds.namedGraphs ∧
    ds.resources.Extends (graphIdFor ds graph).1.resources ∧
    (graphIdFor ds graph).1.resources.getGraphElement (graphIdFor ds graph).2 =
      some (logGraph graph) := by
  cases graph with
  | none => exact ⟨rfl, Extends.refl _, ds.resources.defaultGraph⟩
  | some iri => exact ⟨rfl, ds.addResource_extends _, ds.addResource_get _⟩

theorem knownGraphId_eq_some (graph : Option String) (id : GraphElementId) :
    knownGraphId ds graph = some id ↔ ds.resources.getGraphElement id = some (logGraph graph) := by
  cases graph with
  | none =>
    have hd := ds.resources.defaultGraph
    constructor
    · intro h
      obtain rfl := Option.some.inj h
      exact hd
    · intro h
      exact congrArg some (getGraphElement_inj hd h)
  | some iri => exact ds.resources.exact (.iri iri) id

theorem applyEntry_clearGraph {ds : Datastore N} (h : ds.Interned) (dataset : String)
    (graph : Option String) :
    (applyEntry ds (.clearGraph dataset graph)).Interned ∧
    (applyEntry ds (.clearGraph dataset graph)).resolved =
      ds.resolved.filter (fun r => decide (r.graph = logGraph graph) = false) := by
  obtain ⟨hgraphs, hext, hget⟩ := graphIdFor_spec ds graph
  have hst : (Pending.start (graphIdFor ds graph).1).Interned := by
    refine Pending.start_interned fun q hq => ?_
    rw [hgraphs] at hq
    exact (h q hq).extends hext
  obtain ⟨hint, hbuf⟩ := hst.clearGraph_spec hget
  refine ⟨hint.store, ?_⟩
  rw [← resolved_extends h hgraphs hext]
  exact congrArg Buffer.live hbuf

theorem knownQuad_eq_some (graph : Option String) (s p o : ElementRepr)
    (q : Quad) : knownQuad ds graph s p o = some q ↔
      ds.resources.getResourceQuad q =
        some ⟨logGraph graph, fromRepr s, fromRepr p, fromRepr o⟩ := by
  have hlookup (e : GraphElement N) (id : GraphElementId) :
      ds.resources.resourceMap.lookup e = some id ↔ ds.resources.getGraphElement id = some e :=
    ds.resources.exact e id
  rw [getResourceQuad_eq_some, ← knownGraphId_eq_some, ← hlookup, ← hlookup, ← hlookup]
  unfold knownQuad
  constructor
  · intro h
    split at h
    · next hg hs hp ho =>
      obtain rfl := Option.some.inj h
      exact ⟨hg, hs, hp, ho⟩
    · cases h
  · intro ⟨hg, hs, hp, ho⟩
    rw [hg, hs, hp, ho]

theorem applyEntry_insertQuad {ds : Datastore N} (h : ds.Interned) (dataset : String)
    (graph : Option String) (s p o : ElementRepr) :
    (applyEntry ds (.insertQuad dataset graph s p o)).Interned ∧
    (applyEntry ds (.insertQuad dataset graph s p o)).resolved =
      ds.resolved ∪ {⟨logGraph graph, fromRepr s, fromRepr p, fromRepr o⟩} := by
  obtain ⟨hgraphs, hext, hget⟩ := graphIdFor_spec ds graph
  obtain ⟨hgraphs', hext', hquad⟩ := internTriple_spec (graphIdFor ds graph).1
    (graphIdFor ds graph).2 (fromRepr s) (fromRepr p) (fromRepr o) hget
  have hds₁ := h.extends (hgraphs'.trans hgraphs) (hext.trans hext')
  rw [← resolved_extends h (hgraphs'.trans hgraphs) (hext.trans hext')]
  exact ⟨hds₁.addQuad hquad, Datastore.resolved_addQuad _ hquad⟩

theorem applyEntry_deleteQuad {ds : Datastore N} (h : ds.Interned) (dataset : String)
    (graph : Option String) (s p o : ElementRepr) :
    (applyEntry ds (.deleteQuad dataset graph s p o)).Interned ∧
    (applyEntry ds (.deleteQuad dataset graph s p o)).resolved =
      ds.resolved \ {⟨logGraph graph, fromRepr s, fromRepr p, fromRepr o⟩} := by
  have heq : applyEntry ds (.deleteQuad dataset graph s p o) =
      match knownQuad ds graph s p o with
      | some quad => ds.removeQuad quad
      | none => ds := rfl
  rw [heq]
  cases hq : knownQuad ds graph s p o with
  | some q =>
    have hquad := (knownQuad_eq_some ds graph s p o q).mp hq
    exact ⟨h.removeQuad q, Datastore.resolved_removeQuad ds hquad⟩
  | none =>
    refine ⟨h, ?_⟩
    symm
    rw [Finset.sdiff_eq_self_iff_disjoint, Finset.disjoint_singleton_right]
    intro hr
    obtain ⟨q, -, hquad⟩ := mem_resolve.mp hr
    have hsome := (knownQuad_eq_some ds graph s p o q).mpr hquad
    rw [hq] at hsome
    cases hsome

end RdfDatalog.Endpoint
