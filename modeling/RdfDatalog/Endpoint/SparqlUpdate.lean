import RdfDatalog.Store.Datastore

namespace RdfDatalog.Endpoint

variable {N : NativeTypes}

inductive NetworkPolicy where
  | deny
  | ignore
  | allow
  | allowList (urlPrefixes : List String)
  deriving DecidableEq

abbrev Prefixes := AList (fun _ : String => String)

abbrev SolutionRow (N : NativeTypes) := String → Option (GraphElement N)

inductive TemplateTerm (N : NativeTypes) where
  | constant (e : GraphElement N)
  | variable (name : String)
  | tripleTerm

structure TriplePattern (N : NativeTypes) where
  subject : TemplateTerm N
  predicate : TemplateTerm N
  obj : TemplateTerm N

/-- What the update executor calls out to: the query engine and its parser, and the remote fetch
with the document parsers. A WHERE clause sees the resolved quads of the store it runs on. -/
structure UpdateEnv (N : NativeTypes) where
  evalWherePattern : Finset (QuadResource N) → String → Prefixes →
    Except String (List (SolutionRow N))
  parseTemplate : String → Prefixes → Except String (List (TriplePattern N))
  Document : Type
  fetchRdf : String → NetworkPolicy → Except String Document
  parseFetched : Document → String → Except String (Datastore N)

inductive UpdateError where
  | contradiction (msg : String)
  | other (msg : String)
  deriving DecidableEq

/-- An update operation whose data blocks are already parsed into datastores of their own. -/
inductive PreparedOp (N : NativeTypes) where
  | insertData (tmp : Datastore N)
  | deleteData (tmp : Datastore N)
  | clearDefault
  | clearNamed
  | clearAll
  | clearGraph (iri : String)
  | dropDefault
  | dropNamed
  | dropAll
  | dropGraph (iri : String)
  | createGraph (iri : String)
  | patternUpdate (deleteTemplate insertTemplate : Option String) (pattern : String)
      (prefixes : Prefixes)
  | loadGraph (source : String) (into : Option String) (silent : Bool)

variable (store : Datastore N)

/-- Intern the three elements and form the quad in graph `g`. -/
def internTriple (g : GraphElementId) (s p o : GraphElement N) : Datastore N × Quad :=
  let (store, subject) := store.addResource s
  let (store, predicate) := store.addResource p
  let (store, obj) := store.addResource o
  (store, ⟨g, subject, predicate, obj⟩)

def resolveTmpGraphId (store tmp : Datastore N) (tmpGraphId : GraphElementId) :
    Datastore N × GraphElementId :=
  if tmpGraphId = defaultGraphElementId then (store, defaultGraphElementId)
  else
    match tmp.resources.getGraphElement tmpGraphId with
    | some e => store.addResource e
    -- the source panics on an id that is not interned
    | none => (store, defaultGraphElementId)

def translateQuad (tmp : Datastore N) (mainGraphId : GraphElementId)
    (acc : Datastore N × List Quad) (q : Quad) : Datastore N × List Quad :=
  match tmp.resources.getGraphElement q.subject, tmp.resources.getGraphElement q.predicate,
      tmp.resources.getGraphElement q.obj with
  | some s, some p, some o =>
    let (store, quad) := internTriple acc.1 mainGraphId s p o
    (store, acc.2 ++ [quad])
  | _, _, _ => acc

def translateGraph (tmp : Datastore N) (acc : Datastore N × List Quad)
    (tmpGraphId : GraphElementId) : Datastore N × List Quad :=
  let (store, mainGraphId) := resolveTmpGraphId acc.1 tmp tmpGraphId
  (tmp.namedGraphs.table.getGraph tmpGraphId).foldl (translateQuad tmp mainGraphId)
    (store, acc.2)

/-- The quads of `tmp`, every graph of it, in the ids of `store`; the quads are not inserted. -/
def translateToMainIds (store tmp : Datastore N) : Datastore N × List Quad :=
  tmp.namedGraphs.graphIds.foldl (translateGraph tmp) (store, [])

def resolveTerm (term : TemplateTerm N) (row : SolutionRow N) : Option (GraphElement N) :=
  match term with
  | .constant e => some e
  | .variable name => row name
  | .tripleTerm => none

def materialiseRow (row : SolutionRow N) (pattern : TriplePattern N) :
    Option (GraphElement N × GraphElement N × GraphElement N) :=
  match resolveTerm pattern.subject row, resolveTerm pattern.predicate row,
      resolveTerm pattern.obj row with
  | some s, some p, some o => some (s, p, o)
  | _, _, _ => none

def materialiseTemplate (triples : List (TriplePattern N)) (rows : List (SolutionRow N)) :
    List (GraphElement N × GraphElement N × GraphElement N) :=
  rows.flatMap fun row => triples.filterMap (materialiseRow row)

def groundQuad (s p o : GraphElement N) : Datastore N × Quad :=
  internTriple store defaultGraphElementId s p o

def groundNext (acc : Datastore N × List Quad)
    (triple : GraphElement N × GraphElement N × GraphElement N) : Datastore N × List Quad :=
  let (store, quad) := groundQuad acc.1 triple.1 triple.2.1 triple.2.2
  (store, acc.2 ++ [quad])

def groundQuads
    (triples : List (GraphElement N × GraphElement N × GraphElement N)) :
    Datastore N × List Quad :=
  triples.foldl groundNext (store, [])

variable (env : UpdateEnv N)

def templateTriples (template : Option String) (prefixes : Prefixes)
    (rows : List (SolutionRow N)) :
    Except String (List (GraphElement N × GraphElement N × GraphElement N)) :=
  match template with
  | some template => do
    let triples ← env.parseTemplate template prefixes
    return materialiseTemplate triples rows
  | none => return []

/-- The live store with the buffered insertions and deletions of the request. -/
structure Pending (N : NativeTypes) where
  store : Datastore N
  inserts : List Quad
  deletes : List Quad

variable (st : Pending N)

/-- The store a WHERE clause of the request sees. -/
def Pending.viewStore : Datastore N :=
  { st.store with
    namedGraphs := st.deletes.foldl QuadStore.removeQuad
      (st.inserts.foldl QuadStore.addQuad st.store.namedGraphs) }

def removeGraphs (ids : List GraphElementId) : Datastore N :=
  ids.foldl Datastore.removeGraph store

/-- The two instantiated templates of a WHERE-form update, or the error of its first part that
fails. -/
def patternTriples (view : Finset (QuadResource N))
    (deleteTemplate insertTemplate : Option String) (pattern : String) (prefixes : Prefixes) :
    Except String (List (GraphElement N × GraphElement N × GraphElement N) ×
      List (GraphElement N × GraphElement N × GraphElement N)) := do
  let rows ← env.evalWherePattern view pattern prefixes
  let toDelete ← templateTriples env deleteTemplate prefixes rows
  let toInsert ← templateTriples env insertTemplate prefixes rows
  return (toDelete, toInsert)

/-- Copy the default graph of a fetched document into the target graph of the live store. -/
def loadFetched (store tmp : Datastore N) (into : Option String) : Datastore N :=
  let (store, targetGraphId) :=
    match into with
    | none => (store, defaultGraphElementId)
    | some iri => store.addResource (.iri iri)
  let (store, quads) :=
    (tmp.namedGraphs.table.getGraph defaultGraphElementId).foldl
      (translateQuad tmp targetGraphId) (store, [])
  quads.foldl Datastore.addQuad store

def loadRejected (source : String) : UpdateError :=
  .other ("LOAD <" ++ source ++ "> was rejected: remote network access is disabled. " ++
    "Start the server with --network=allow to enable remote loading. " ++
    "See https://github.com/daghovland/rdf-datalog/issues/119")

def loadFailed (source e : String) : UpdateError :=
  .other ("LOAD <" ++ source ++ "> failed: " ++ e)

def loadGraph (network : NetworkPolicy) (store : Datastore N)
    (source : String) (into : Option String) (silent : Bool) : Except UpdateError (Datastore N) :=
  match network with
  | .deny => if silent then .ok store else .error (loadRejected source)
  | .ignore => .ok store
  | .allow | .allowList _ =>
    match env.fetchRdf source network with
    | .error e => if silent then .ok store else .error (loadFailed source e)
    | .ok document =>
      match env.parseFetched document source with
      | .error e => if silent then .ok store else .error (.other e)
      | .ok tmp => .ok (loadFetched store tmp into)

/-- One operation of the request. Clears act on the live store at once, the other operations only
on the buffers. -/
def applyOp (network : NetworkPolicy) (st : Pending N) :
    PreparedOp N → Except UpdateError (Pending N)
  | .insertData tmp =>
    let (store, quads) := translateToMainIds st.store tmp
    .ok { st with store, inserts := st.inserts ++ quads }
  | .deleteData tmp =>
    let (store, quads) := translateToMainIds st.store tmp
    let existing := quads.filter fun q =>
      store.namedGraphs.contains q || st.inserts.contains q
    .ok { st with store, deletes := st.deletes ++ existing }
  | .clearDefault | .dropDefault =>
    .ok { st with store := st.store.removeGraph defaultGraphElementId }
  | .clearAll | .dropAll =>
    .ok { st with store := removeGraphs st.store st.store.namedGraphs.graphIds }
  | .clearNamed | .dropNamed =>
    .ok { st with
      store := removeGraphs st.store
        (st.store.namedGraphs.graphIds.filter fun id => id ≠ defaultGraphElementId) }
  | .clearGraph iri | .dropGraph iri =>
    match st.store.lookupNamedGraphId iri with
    | some id => .ok { st with store := st.store.removeGraph id }
    | none => .ok st
  | .createGraph iri => .ok { st with store := (st.store.addResource (.iri iri)).1 }
  | .patternUpdate deleteTemplate insertTemplate pattern prefixes =>
    match patternTriples env st.viewStore.resolved deleteTemplate insertTemplate pattern
        prefixes with
    | .error e => .error (.other e)
    | .ok (toDelete, toInsert) =>
      let (store, deletes) := groundQuads st.store toDelete
      let (store, inserts) := groundQuads store toInsert
      .ok ⟨store, st.inserts ++ inserts, st.deletes ++ deletes⟩
  | .loadGraph source into silent =>
    (loadGraph env network st.store source into silent).map fun store => { st with store }

/-- All operations in order. An error keeps the live store as the operations before it left it. -/
def applyOps (env : UpdateEnv N) (network : NetworkPolicy) (st : Pending N) :
    List (PreparedOp N) → Except (UpdateError × Datastore N) (Pending N)
  | [] => .ok st
  | op :: ops =>
    match applyOp env network st op with
    | .error e => .error (e, st.store)
    | .ok st => applyOps env network st ops

/-- The buffered deletions that are stored, each once. -/
def netDeletes : List Quad :=
  st.deletes.dedup.filter st.store.namedGraphs.contains

/-- The buffered insertions that no buffered deletion cancels. -/
def netInserts : List Quad :=
  st.inserts.filter fun q => !st.deletes.contains q

/-- Write the net delta to the live store, deletions first. -/
def commitPending : Datastore N :=
  (netInserts st).foldl Datastore.addQuad ((netDeletes st).foldl Datastore.removeQuad st.store)

/-- A request without a reasoner: the live store after it, and the net delta that was written. On
an error, the live store as the operations before the failing one left it. -/
def applyPreparedUpdate (network : NetworkPolicy) (store : Datastore N)
    (ops : List (PreparedOp N)) :
    Except (UpdateError × Datastore N) (Datastore N × List Quad × List Quad) :=
  match applyOps env network ⟨store, [], []⟩ ops with
  | .error e => .error e
  | .ok st => .ok (commitPending st, netInserts st, netDeletes st)

end RdfDatalog.Endpoint
