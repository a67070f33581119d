import RdfDatalog.Endpoint.Server

namespace RdfDatalog.Endpoint

open Datalog Datalog.IncrementalReasoner

variable {N : NativeTypes} {Expr : Type}

/-- The query string of a graph store request: whether it has `default`, and its `graph`. -/
structure GraphParams where
  default : Bool
  graph : Option String

/-- A scheme, then a colon. -/
def isAbsoluteIri (iri : String) : Bool :=
  iri.toList.contains ':' &&
    match iri.toList.takeWhile (fun c => c ≠ ':') with
    | [] => false
    | c :: cs => c.isAlpha && cs.all fun c => c.isAlphanum || c = '+' || c = '-' || c = '.'

def notAbsolute : Response := .text 400 "graph IRI must be absolute"

def graphNotFound : Response := .text 404 "Named graph not found"

def unsupportedUpload : Response := .text 415 "Unsupported Content-Type for RDF upload"

def rdfUploadFormat (ct : String) : Option UploadFormat :=
  let mime := (ct.toList.takeWhile fun c => c ≠ ';').dropWhile Char.isWhitespace
  match String.ofList (mime.reverse.dropWhile Char.isWhitespace).reverse with
  | "text/turtle" | "application/x-turtle" => some .turtle
  | "application/n-triples" => some .nTriples
  | "application/n-quads" => some .nQuads
  | "application/trig" => some .triG
  | "application/ld+json" => some .jsonLd
  | _ => none

/-- The graph of a PUT, and whether its name is new; the name is interned. -/
def resolveWriteTarget (params : GraphParams) (store : Datastore N) :
    Except Response (Datastore N × GraphElementId × Bool) :=
  if params.default then .ok (store, defaultGraphElementId, false)
  else
    match params.graph with
    | some iri =>
      if !isAbsoluteIri iri then .error notAbsolute
      else
        let isNew := (store.lookupNamedGraphId iri).isNone
        let (store, id) := store.addResource (.iri iri)
        .ok (store, id, isNew)
    | none => .error (.text 400 "PUT/DELETE /rdf-graph-store requires ?default or ?graph=<iri>")

def namedGraphExists (store : Datastore N) (graphId : GraphElementId) : Bool :=
  graphId = defaultGraphElementId || store.namedGraphs.table.graphExists graphId

/-- The id of a graph that holds a quad. -/
def existingGraph (store : Datastore N) (iri : String) : Option GraphElementId :=
  (store.lookupNamedGraphId iri).filter (namedGraphExists store)

/-- The quads of the default graph of `src`, in the ids of `dst` and in its graph
`targetGraphId`. -/
def translateDefaultGraphQuads (src dst : Datastore N) (targetGraphId : GraphElementId) :
    Datastore N × List Quad :=
  (src.namedGraphs.table.getGraph defaultGraphElementId).foldl
    (translateQuad src targetGraphId) (dst, [])

def translateDatasetQuad (src : Datastore N) (acc : Datastore N × List Quad) (q : Quad) :
    Datastore N × List Quad :=
  match src.resources.getGraphElement q.tripleId with
  -- the source panics on an id that is not interned
  | none => acc
  | some graph =>
    let (store, graphId) := acc.1.addResource graph
    translateQuad src graphId (store, acc.2) q

/-- Every quad of `src` in the ids of `dst`. -/
def translateDatasetQuads (src dst : Datastore N) : Datastore N × List Quad :=
  src.namedGraphs.quadList.foldl (translateDatasetQuad src) (dst, [])

variable (env : ServerEnv N Expr)

/-- Write quads that were translated into the live store: through the reasoner if there is one,
where `oldQuads` are deleted with them, else straight to the dataset. -/
def writeQuads (s : AppState N Expr) (clear : Option GraphElementId)
    (translated : Datastore N × List Quad) :
      Except (Response × AppState N Expr) (AppState N Expr) :=
  match s.reasoner with
  | some programs =>
    let oldQuads := match clear with
      | none => []
      | some graphId => s.store.store.namedGraphs.table.getGraph graphId
    let existing := oldQuads.filter s.store.store.namedGraphs.contains
    match reasonOver env (s.withStore translated.1) programs existing translated.2 with
    | .error (e, s) => .error (e.response, s)
    | .ok s => .ok s
  | none =>
    let cleared := match clear with
      | none => s.store
      | some graphId => s.store.removeGraph graphId
    let store := cleared.withResources translated.1.resources
    .ok { s with store := translated.2.foldl VersionedStore.addQuad store }

/-- The log entries for the default graph of an uploaded body. -/
def uploadEntries (tmp : Datastore N) (graph : Option String) : List ChangelogEntry :=
  ((tmp.namedGraphs.table.getGraph defaultGraphElementId).filterMap
    (quadEntry .insertQuad env.datasetName tmp graph)).map .quad

def parseUpload (contentType : String) (body : ByteArray) :
    Except Response (UploadFormat × Datastore N) :=
  match rdfUploadFormat contentType with
  | none => .error unsupportedUpload
  | some fmt =>
    match env.parseRdfBody body fmt with
    | .error e => .error (.text 400 ("RDF parse error: " ++ e))
    | .ok tmp => .ok (fmt, tmp)

def gspPut (s : AppState N Expr) (params : GraphParams)
    (contentType : String) (body : ByteArray) : Response × AppState N Expr :=
  if env.readOnly then (readOnlyResponse, s)
  else
    match parseUpload env contentType body with
    | .error response => (response, s)
    | .ok (_, tmp) =>
      match resolveWriteTarget params s.store.store with
      | .error response => (response, s)
      | .ok (store, graphId, isNew) =>
        let s := s.withStore store
        let entries := .quad (.clearGraph env.datasetName params.graph) ::
          uploadEntries env tmp params.graph
        match logBatch env s entries with
        | .error response => (response, s)
        | .ok s =>
          match writeQuads env s (some graphId)
            (translateDefaultGraphQuads tmp s.store.store graphId) with
          | .error failed => failed
          | .ok s => (if isNew then .created else .noContent, s)

/-- The graph that a DELETE names; `none` is the default graph. -/
def deleteTarget (params : GraphParams) : Except Response (Option String) :=
  if params.default then .ok none
  else
    match params.graph with
    | some iri => if !isAbsoluteIri iri then .error notAbsolute else .ok (some iri)
    | none => .error (.text 400 "DELETE /rdf-graph-store requires ?default or ?graph=<iri>")

def gspDelete (s : AppState N Expr) (params : GraphParams) : Response × AppState N Expr :=
  if env.readOnly then (readOnlyResponse, s)
  else
    match deleteTarget params with
    | .error response => (response, s)
    | .ok graphIri =>
      match (match graphIri with
        | none => some defaultGraphElementId
        | some iri => existingGraph s.store.store iri) with
      | none => (graphNotFound, s)
      | some graphId =>
        match logBatch env s [.quad (.clearGraph env.datasetName graphIri)] with
        | .error response => (response, s)
        | .ok s =>
          match writeQuads env s (some graphId) (s.store.store, []) with
          | .error failed => failed
          | .ok s => (.noContent, s)

def logAndWrite (s : AppState N Expr) (entries : List ChangelogEntry)
    (translate : Datastore N → Datastore N × List Quad) (response : Response) :
    Response × AppState N Expr :=
  match logBatch env s entries with
  | .error failed => (failed, s)
  | .ok s =>
    match writeQuads env s none (translate s.store.store) with
    | .error failed => failed
    | .ok s => (response, s)

/-- The name of a new graph, from the clock. -/
def freshGraphIri (nanos : Nat) : String :=
  env.baseIri ++ "/rdf-graph-store/graph/" ++ toString nanos

def gspPost (s : AppState N Expr) (params : GraphParams)
    (contentType : String) (body : ByteArray) (createIfMissing : Bool) (nanos : Nat) :
    Response × AppState N Expr :=
  if env.readOnly then (readOnlyResponse, s)
  else if (rdfUploadFormat contentType).isNone then (unsupportedUpload, s)
  else if body.isEmpty then (.noContent, s)
  else
    match parseUpload env contentType body with
    | .error response => (response, s)
    | .ok (fmt, tmp) =>
      if params.default then
        logAndWrite env s (uploadEntries env tmp none)
          (fun store => translateDefaultGraphQuads tmp store defaultGraphElementId) .noContent
      else
        match params.graph with
        | some iri =>
          if !isAbsoluteIri iri then (notAbsolute, s)
          else
            match existingGraph s.store.store iri with
            | some graphId =>
              logAndWrite env s (uploadEntries env tmp (some iri))
                (fun store => translateDefaultGraphQuads tmp store graphId) .noContent
            | none =>
              if !createIfMissing then (graphNotFound, s)
              else
                let (store, graphId) := s.store.store.addResource (.iri iri)
                logAndWrite env (s.withStore store) (uploadEntries env tmp (some iri))
                  (fun store => translateDefaultGraphQuads tmp store graphId) .created
        | none =>
          if fmt = .triG || fmt = .nQuads || fmt = .jsonLd then
            let entries := tmp.namedGraphs.quadList.filterMap fun q =>
              quadEntry .insertQuad env.datasetName tmp (tmpGraphIri tmp q.tripleId) q
            logAndWrite env s (entries.map .quad) (translateDatasetQuads tmp) .noContent
          else
            let iri := freshGraphIri env nanos
            logAndWrite env s (uploadEntries env tmp (some iri))
              (fun store =>
                let (store, graphId) := store.addResource (.iri iri)
                translateDefaultGraphQuads tmp store graphId) .created

end RdfDatalog.Endpoint
