import RdfDatalog.Endpoint.DatasetRoutes
import RdfDatalog.Endpoint.Durability

namespace RdfDatalog.Endpoint

open Datalog

variable {N : NativeTypes} {Expr Multipart Mapping Documents : Type}

section Copy

/-- Copy a triple of `tmp` to the graph `g` of the live store, where `add` adds it. -/
def copyTriple (tmp : Datastore N) (add : VersionedStore N → Quad → VersionedStore N)
    (g : GraphElementId) (v : VersionedStore N) (q : Quad) : VersionedStore N :=
  match tmp.resources.getGraphElement q.subject, tmp.resources.getGraphElement q.predicate,
      tmp.resources.getGraphElement q.obj with
  | some s, some p, some o =>
    let (store, quad) := internTriple v.store g s p o
    add (v.withResources store.resources) quad
  -- the source panics on an id that is not interned
  | _, _, _ => v

/-- Add a quad to the table, past the dataset: the write is not counted. -/
def addToTable (v : VersionedStore N) (q : Quad) : VersionedStore N :=
  v.withNamedGraphs (v.store.namedGraphs.addQuad q)

/-- Copy a quad of `tmp`, and the name of its graph, to the live store. -/
def copyQuad (tmp : Datastore N) (v : VersionedStore N) (q : Quad) : VersionedStore N :=
  match tmp.resources.getGraphElement q.tripleId with
  | none => v
  | some graph =>
    let (store, g) := v.store.addResource graph
    copyTriple tmp VersionedStore.addQuad g (v.withResources store.resources) q

end Copy

section Upload

def wrongContentType : Response :=
  .text 400 "Content-Type must be text/turtle or application/x-turtle"

def isTurtle (contentType : String) : Bool :=
  decide ("text/turtle".toList <:+: contentType.toList) ||
    decide ("application/x-turtle".toList <:+: contentType.toList)

/-- The graph that an upload names: none if the parameter is absent or empty. -/
def uploadGraph (graph : Option String) : Except Response (Option String) :=
  match graph with
  | none => .ok none
  | some iri =>
    if iri.isEmpty then .ok none
    else if !isAbsoluteIri iri then .error notAbsolute
    else .ok (some iri)

/-- The live store with the name of the target graph, and its id. -/
def uploadTarget (store : Datastore N) (graphIri : Option String) : Datastore N × GraphElementId :=
  match graphIri with
  | none => (store, defaultGraphElementId)
  | some iri => store.addResource (.iri iri)

/-- `POST /upload`. The reasoner is not told. -/
def uploadTurtle (env : ServerEnv N Expr) (s : AppState N Expr) (graph : Option String)
    (contentType : String) (body : ByteArray) : Response × AppState N Expr :=
  if env.readOnly then (readOnlyResponse, s)
  else if !isTurtle contentType then (wrongContentType, s)
  else
    match uploadGraph graph with
    | .error response => (response, s)
    | .ok graphIri =>
      match env.parseRdfBody body .turtle with
      | .error e => (.text 400 ("Turtle parse error: " ++ e), s)
      | .ok tmp =>
        match logBatch env s (uploadEntries env tmp graphIri) with
        | .error response => (response, s)
        | .ok s =>
          let (store, g) := uploadTarget s.store.store graphIri
          (.text 200 "Data uploaded successfully",
            { s with
              store := (tmp.namedGraphs.table.getGraph defaultGraphElementId).foldl
                (copyTriple tmp addToTable g) (s.store.withResources store.resources) })

end Upload

section Generated

/-- An answer to a multipart body that is not taken. -/
def Refusal : Type := {response : Response // ¬ response.Success}

/-- What the endpoints for mappings and templates call out to. -/
structure BulkEnv (N : NativeTypes) (Multipart Mapping Documents : Type) where
  materializeMultipart : Multipart → Except Refusal Mapping
  applyRmlMapping : Mapping → Except String (Datastore N)
  parseMultipartDocuments : Multipart → Except Refusal Documents
  expandDocuments : Documents → Except String (Datastore N)

/-- The log entries for a generated store. The dataset is named as it is in the path. -/
def generatedEntries (name : String) (tmp : Datastore N) : List ChangelogEntry :=
  (tmp.namedGraphs.quadList.filterMap fun q =>
    quadEntry .insertQuad name tmp (tmpGraphIri tmp q.tripleId) q).map .quad

/-- Generate a store from the parts of a request, log its quads and copy them to a dataset. The
reasoner is not told. -/
def generatedPost {Input : Type} (what : String) (read : Multipart → Except Refusal Input)
    (generate : Input → Except String (Datastore N)) (env : ServerEnv N Expr)
    (S : ServerState N Expr) (name : String) (multipart : Multipart) :
    Response × ServerState N Expr :=
  if env.readOnly then (readOnlyResponse, S)
  else
    match S.getEntry name with
    | none => (datasetNotFound, S)
    | some cell =>
      match read multipart with
      | .error refusal => (refusal.1, S)
      | .ok input =>
        match generate input with
        | .error e => (.text 400 (what ++ " error: " ++ e), S)
        | .ok tmp =>
          match logBatch env (S.datasetState cell) (generatedEntries name tmp) with
          | .error response => (response, S)
          | .ok s =>
            let quads := tmp.namedGraphs.quadList
            (.text 200 (what ++ " applied: " ++ toString quads.length ++ " triples inserted"),
              S.put cell { s with store := quads.foldl (copyQuad tmp) s.store })

/-- `POST /{name}/rml`. -/
def datasetRmlPost (bulk : BulkEnv N Multipart Mapping Documents) (env : ServerEnv N Expr)
    (S : ServerState N Expr) (name : String) (multipart : Multipart) :
    Response × ServerState N Expr :=
  generatedPost "RML mapping" bulk.materializeMultipart bulk.applyRmlMapping env S name multipart

/-- `POST /{name}/ottr`. -/
def datasetOttrPost (bulk : BulkEnv N Multipart Mapping Documents) (env : ServerEnv N Expr)
    (S : ServerState N Expr) (name : String) (multipart : Multipart) :
    Response × ServerState N Expr :=
  generatedPost "OTTR expansion" bulk.parseMultipartDocuments bulk.expandDocuments env S name
    multipart

end Generated

/-- A request that loads a store of its own into a dataset. -/
inductive BulkRequest (Multipart : Type) where
  | upload (graph : Option String) (contentType : String) (body : ByteArray)
  | rml (name : String) (multipart : Multipart)
  | ottr (name : String) (multipart : Multipart)

namespace BulkRequest

def run (bulk : BulkEnv N Multipart Mapping Documents) (env : ServerEnv N Expr)
    (S : ServerState N Expr) : BulkRequest Multipart → Response × ServerState N Expr
  | .upload graph contentType body =>
    let (response, s) := uploadTurtle env (S.datasetState rootCell) graph contentType body
    (response, S.put rootCell s)
  | .rml name multipart => datasetRmlPost bulk env S name multipart
  | .ottr name multipart => datasetOttrPost bulk env S name multipart

/-- The cells of the dataset that the request is for. -/
def cell (S : ServerState N Expr) : BulkRequest Multipart → Option Nat
  | .upload _ _ _ => some rootCell
  | .rml name _ | .ottr name _ => S.getEntry name

end BulkRequest

section Copied

/-- The live store after some quads were translated and added. -/
structure Copied (base : QuadStore) (v : VersionedStore N) (acc : Datastore N × List Quad) :
    Prop where
  resources : v.store.resources = acc.1.resources
  namedGraphs : v.store.namedGraphs = acc.2.foldl QuadStore.addQuad base

variable {tmp : Datastore N} {base : QuadStore} {v : VersionedStore N}
  {acc : Datastore N × List Quad}

theorem internTriple_resources {store store' : Datastore N}
    (h : store.resources = store'.resources) (g : GraphElementId) (s p o : GraphElement N) :
    (internTriple store g s p o).1.resources = (internTriple store' g s p o).1.resources ∧
      (internTriple store g s p o).2 = (internTriple store' g s p o).2 := by
  obtain ⟨namedGraphs, resources⟩ := store
  obtain ⟨namedGraphs', resources'⟩ := store'
  have h : resources = resources' := h
  subst h
  exact ⟨rfl, rfl⟩

theorem Copied.triple {add : VersionedStore N → Quad → VersionedStore N}
    (hadd : ∀ v q, (add v q).store = v.store.addQuad q) (h : Copied base v acc)
    (g : GraphElementId) (q : Quad) :
    Copied base (copyTriple tmp add g v q) (translateQuad tmp g acc q) := by
  rw [copyTriple, translateQuad]
  cases hs : tmp.resources.getGraphElement q.subject with
  | none => exact h
  | some s =>
    cases hp : tmp.resources.getGraphElement q.predicate with
    | none => exact h
    | some p =>
      cases ho : tmp.resources.getGraphElement q.obj with
      | none => exact h
      | some o =>
        obtain ⟨hres, hquad⟩ := internTriple_resources h.resources g s p o
        constructor
        · change (add _ _).store.resources = _
          rw [hadd]
          exact hres
        · change (add _ _).store.namedGraphs = (acc.2 ++ [_]).foldl QuadStore.addQuad base
          rw [hadd, List.foldl_append, ← h.namedGraphs, ← hquad]
          rfl

theorem Copied.quad (h : Copied base v acc) (q : Quad) :
    Copied base (copyQuad tmp v q) (translateDatasetQuad tmp acc q) := by
  rw [copyQuad, translateDatasetQuad]
  cases tmp.resources.getGraphElement q.tripleId with
  | none => exact h
  | some graph =>
    obtain ⟨⟨namedGraphs, resources⟩, generation⟩ := v
    obtain ⟨⟨namedGraphs', resources'⟩, quads⟩ := acc
    have hres : resources = resources' := h.resources
    subst hres
    have hnamed : Copied base
        (VersionedStore.withResources ⟨⟨namedGraphs, resources⟩, generation⟩
          (Datastore.addResource ⟨namedGraphs, resources⟩ graph).1.resources)
        ((Datastore.addResource ⟨namedGraphs', resources⟩ graph).1, quads) := ⟨rfl, h.namedGraphs⟩
    exact hnamed.triple (fun _ _ => rfl) _ q

theorem Copied.triples {add : VersionedStore N → Quad → VersionedStore N}
    (hadd : ∀ v q, (add v q).store = v.store.addQuad q) (h : Copied base v acc)
    (g : GraphElementId) (quads : List Quad) :
    Copied base (quads.foldl (copyTriple tmp add g) v) (quads.foldl (translateQuad tmp g) acc) := by
  induction quads generalizing v acc with
  | nil => exact h
  | cons q quads ih => exact ih (h.triple hadd g q)

theorem Copied.quads (h : Copied base v acc) (quads : List Quad) :
    Copied base (quads.foldl (copyQuad tmp) v) (quads.foldl (translateDatasetQuad tmp) acc) := by
  induction quads generalizing v acc with
  | nil => exact h
  | cons q quads ih => exact ih (h.quad q)

end Copied

end RdfDatalog.Endpoint
