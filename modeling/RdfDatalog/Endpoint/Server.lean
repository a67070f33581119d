import RdfDatalog.Endpoint.Changelog
import RdfDatalog.Endpoint.RulesetChange
import RdfDatalog.Endpoint.Transactions

namespace RdfDatalog.Endpoint

open Datalog Datalog.IncrementalReasoner

variable {N : NativeTypes} {Expr : Type}

inductive Body where
  | text (body : String)
  | json (fields : List (String × String))
  deriving DecidableEq

structure Response where
  status : Nat
  body : Body
  deriving DecidableEq

def Response.text (status : Nat) (body : String) : Response := ⟨status, .text body⟩

def Response.noContent : Response := .text 204 ""

def Response.created : Response := .text 201 ""

def readOnlyResponse : Response := .text 403 "Server is in read-only mode"

/-- An entry of the changelog. Only the entries about quads are replayed into a store. -/
inductive ChangelogEntry where
  | quad (entry : LogEntry)
  | replaceRuleset (dataset rulesText : String)
  | setNamedRuleset (dataset rulesetId rulesText : String)
  | deleteNamedRuleset (dataset rulesetId : String)
  | createDataset (name : String)
  | deleteDataset (name : String)

def ChangelogEntry.quad? : ChangelogEntry → Option LogEntry
  | .quad entry => some entry
  | _ => none

inductive UploadFormat where
  | turtle
  | nTriples
  | nQuads
  | triG
  | jsonLd
  deriving DecidableEq

/-- The state of the server, for one dataset. -/
structure AppState (N : NativeTypes) (Expr : Type) where
  store : VersionedStore N
  reasoner : Option (List (DatalogProgram Expr))
  rulesets : RulesetMap Expr
  transactions : TransactionRegistry
  changelog : Option (List ChangelogEntry)

/-- What the handlers call out to, and the configuration they read. `appendBatch` tells whether the
changelog takes the entries. -/
structure ServerEnv (N : NativeTypes) (Expr : Type) where
  update : UpdateEnv N
  network : NetworkPolicy
  rules : RulesEnv N Expr
  parseUpdate : String → Except String (List UpdateOp)
  trigParser : String → Except String (List OxQuad)
  parseRdfBody : ByteArray → UploadFormat → Except String (Datastore N)
  evalQuery : Datastore N → String → Response
  display : GraphElement N → String
  appendBatch : List ChangelogEntry → List ChangelogEntry → Except String Unit
  readOnly : Bool
  datasetName : String
  baseIri : String

namespace AppState

/-- The stored quads, derived ones included. -/
def quads (s : AppState N Expr) : Set Quad := s.store.quads

def withStore (s : AppState N Expr) (store : Datastore N) : AppState N Expr :=
  { s with store := { s.store with store } }

/-- What the rules endpoint works on. -/
def entry (s : AppState N Expr) : DatasetEntry Expr :=
  ⟨s.store.store.namedGraphs, s.reasoner, s.rulesets⟩

def withEntry (s : AppState N Expr) (resources : GraphElementManager N)
    (entry : DatasetEntry Expr) : AppState N Expr :=
  { s with
    store := (s.store.withResources resources).withNamedGraphs entry.namedGraphs
    reasoner := entry.reasoner
    rulesets := entry.rulesets }

end AppState

def logBatch (env : ServerEnv N Expr) (s : AppState N Expr) (entries : List ChangelogEntry) :
    Except Response (AppState N Expr) :=
  match s.changelog with
  | none => .ok s
  | some log =>
    match env.appendBatch log entries with
    | .error e => .error (.text 500 ("persistence error: " ++ e))
    | .ok () => .ok { s with changelog := some (log ++ entries) }

def DeltaError.message : DeltaError → String
  | contradiction msg => msg
  | rollbackFailed msg => msg

def DeltaError.response : DeltaError → Response
  | contradiction msg => .text 409 ("Transaction rejected: " ++ msg ++ "\n")
  | rollbackFailed msg =>
    .text 500 ("update failed and could not be cleanly rolled back: " ++ msg)

/-- The writes that `apply_reasoner_delta` makes through the dataset: none but those of its
rollback. -/
def deltaWrites (r : Reasoning Expr) (m : IncrementalReasoner Expr)
    (netDeletes netInserts : List Quad) : Nat :=
  match reasonDelta r m netDeletes netInserts with
  | .ok _ => 0
  | .error _ => netInserts.length + netDeletes.length

def reasonOver (env : ServerEnv N Expr) (s : AppState N Expr)
    (programs : List (DatalogProgram Expr)) (netDeletes netInserts : List Quad) :
    Except (DeltaError × AppState N Expr) (AppState N Expr) :=
  let m : IncrementalReasoner Expr := ⟨programs, s.store.store.namedGraphs⟩
  let after (m' : IncrementalReasoner Expr) : AppState N Expr :=
    { s with
      store := ⟨{ s.store.store with namedGraphs := m'.base },
        s.store.generation + deltaWrites env.rules.reasoning m netDeletes netInserts⟩
      reasoner := m'.programs }
  match applyReasonerDelta env.rules.reasoning m netDeletes netInserts with
  | .error (e, m') => .error (e, after m')
  | .ok m' => .ok (after m')

section Constraints

def rdfType : String := "http://www.w3.org/1999/02/22-rdf-syntax-ns#type"

def owlNothing : String := "http://www.w3.org/2002/07/owl#Nothing"

structure ViolationInfo where
  subject : String
  properties : List (String × String)

def displayId (env : ServerEnv N Expr) (store : Datastore N) (id : GraphElementId) : String :=
  -- the source panics on an id that is not interned
  ((store.resources.getGraphElement id).map env.display).getD ""

def checkOwlNothing (env : ServerEnv N Expr) (store : Datastore N)
    (maxViolations maxProps : Nat) : List ViolationInfo :=
  match store.lookupNamedGraphId rdfType, store.lookupNamedGraphId owlNothing with
  | some rdfTypeId, some owlNothingId =>
    let violating :=
      ((store.namedGraphs.table.getQuadsWithObjectPredicate owlNothingId rdfTypeId).filter
        fun q => q.tripleId = defaultGraphElementId).take maxViolations
    violating.map fun q =>
      let described :=
        (store.namedGraphs.table.getQuadsWithIdSubject defaultGraphElementId q.subject).take
          maxProps
      ⟨displayId env store q.subject, described.map fun pq =>
        (displayId env store pq.predicate, displayId env store pq.obj)⟩
  | _, _ => []

def describeViolation (i : Nat) (v : ViolationInfo) : String :=
  "\nInstance " ++ toString (i + 1) ++ ": " ++ v.subject ++ "\n" ++
    String.join (v.properties.map fun e => "  " ++ e.1 ++ " " ++ e.2 ++ "\n")

def format409Body (violations : List ViolationInfo) : String :=
  let n := toString violations.length
  "Transaction rejected: owl:Nothing has instances after reasoning.\n" ++
    String.join (violations.zipIdx.map fun e => describeViolation e.2 e.1) ++
    "\n(showing " ++ n ++ " of " ++ n ++ " instance" ++
    (if violations.length = 1 then "" else "s") ++ ")\n"

/-- Take a net delta back from the store, insertions first. -/
def revertDelta (s : AppState N Expr) (netInserts netDeletes : List Quad) : AppState N Expr :=
  { s with
    store := netDeletes.foldl VersionedStore.addQuad
      (netInserts.foldl VersionedStore.removeQuad s.store) }

/-- With a reasoner, reject a write after which `owl:Nothing` has instances, and take it back. -/
def checkConstraints (env : ServerEnv N Expr) (s : AppState N Expr)
    (netInserts netDeletes : List Quad) : Response × AppState N Expr :=
  match s.reasoner with
  | none => (.noContent, s)
  | some programs =>
    let violations := checkOwlNothing env s.store.store 10 10
    if violations.isEmpty then (.noContent, s)
    else
      match reasonOver env (revertDelta s netInserts netDeletes) programs netInserts netDeletes with
      | .error (e, s) =>
        (.text 500 ("failed to roll back after owl:Nothing violation " ++
          "(store may be inconsistent): " ++ e.message), s)
      | .ok s => (.text 409 (format409Body violations), s)

end Constraints

section Updates

/-- The writes of one operation on the live store. -/
def opWrites (env : UpdateEnv N) (network : NetworkPolicy) (st : Pending N) :
    PreparedOp N → Nat
  | .clearDefault | .dropDefault => 1
  | .clearAll | .dropAll => st.store.namedGraphs.graphIds.length
  | .clearNamed | .dropNamed =>
    (st.store.namedGraphs.graphIds.filter fun id => id ≠ defaultGraphElementId).length
  | .clearGraph iri | .dropGraph iri => if (st.store.lookupNamedGraphId iri).isSome then 1 else 0
  | .loadGraph source into _ =>
    match fetched env network source with
    | none => 0
    | some tmp => (loadedQuads st.store tmp into).length
  | _ => 0

/-- The writes of the operations of a request, up to one that fails. -/
def opsWrites (env : UpdateEnv N) (network : NetworkPolicy) (st : Pending N) :
    List (PreparedOp N) → Nat
  | [] => 0
  | op :: ops =>
    match applyOp env network st op with
    | .error _ => 0
    | .ok st' => opWrites env network st op + opsWrites env network st' ops

/-- The writes of a request: those of its operations, those of its commit, and those of the
reasoner. -/
def updateWrites (env : UpdateEnv N) (network : NetworkPolicy) (r : Reasoning Expr)
    (dataset : Dataset N Expr) (ops : List (PreparedOp N)) : Nat :=
  opsWrites env network ⟨dataset.1, [], []⟩ ops +
    match applyOps env network ⟨dataset.1, [], []⟩ ops with
    | .error _ => 0
    | .ok st => (netDeletes st).length + (netInserts st).length +
      match dataset.2 with
      | none => 0
      | some programs =>
        deltaWrites r ⟨programs, (commitPending st).namedGraphs⟩ (netDeletes st) (netInserts st)

/-- Run prepared operations on the live store. -/
def applyUpdate (env : ServerEnv N Expr) (s : AppState N Expr) (prepared : List (PreparedOp N)) :
    Response × AppState N Expr :=
  let dataset : Dataset N Expr := (s.store.store, s.reasoner)
  let generation := s.store.generation +
    updateWrites env.update env.network env.rules.reasoning dataset prepared
  match applyReasonedUpdate env.update env.network env.rules.reasoning dataset prepared with
  | .error (.contradiction msg, store, reasoner) =>
    (.text 409 ("Transaction rejected: " ++ msg ++ "\n"),
      { s with store := ⟨store, generation⟩, reasoner })
  | .error (.other e, store, reasoner) =>
    (.text 500 ("Update error: " ++ e), { s with store := ⟨store, generation⟩, reasoner })
  | .ok ((store, reasoner), netInserts, netDeletes) =>
    checkConstraints env { s with store := ⟨store, generation⟩, reasoner } netInserts netDeletes

/-- Blanks and then quotes taken off both ends of a header value. -/
def ifMatchValue (ifMatch : String) : String :=
  let strip (p : Char → Bool) (cs : List Char) := ((cs.dropWhile p).reverse.dropWhile p).reverse
  String.ofList (strip (fun c => c = '"') (strip Char.isWhitespace ifMatch.toList))

def ifMatchHolds (s : AppState N Expr) : Option String → Bool
  | none => true
  | some ifMatch => ifMatchValue ifMatch = toString s.store.generation

def runUpdate (env : ServerEnv N Expr) (s : AppState N Expr) (updateStr : String)
    (ifMatch : Option String) : Response × AppState N Expr :=
  if env.readOnly then (readOnlyResponse, s)
  else
    match env.parseUpdate updateStr with
    | .error e => (.text 400 ("Update parse error: " ++ e), s)
    | .ok ops =>
      if !ifMatchHolds s ifMatch then (.text 412 "Precondition Failed: ETag mismatch", s)
      else
        match prepareUpdate env.trigParser env.datasetName s.store.store ops with
        | .error e => (.text 400 ("Update prepare error: " ++ e), s)
        | .ok (prepared, entries) =>
          match logBatch env s (entries.map .quad) with
          | .error response => (response, s)
          | .ok s => applyUpdate env s prepared

/-- An update request, whose prepared operations `apply` runs. -/
def checkedUpdate (env : ServerEnv N Expr)
    (apply : AppState N Expr → List (PreparedOp N) → Response × AppState N Expr)
    (s : AppState N Expr) (updateStr : String) (ifMatch : Option String) :
    Response × AppState N Expr :=
  if env.readOnly then (readOnlyResponse, s)
  else
    match env.parseUpdate updateStr with
    | .error e => (.text 400 ("Update parse error: " ++ e), s)
    | .ok ops =>
      if !ifMatchHolds s ifMatch then (.text 412 "Precondition Failed: ETag mismatch", s)
      else
        match prepareUpdate env.trigParser env.datasetName s.store.store ops with
        | .error e => (.text 400 ("Update prepare error: " ++ e), s)
        | .ok (prepared, entries) =>
          match logBatch env s (entries.map .quad) with
          | .error response => (response, s)
          | .ok s => apply s prepared

theorem logBatch_error {env : ServerEnv N Expr} {s : AppState N Expr}
    {entries : List ChangelogEntry} {response : Response}
    (h : logBatch env s entries = .error response) : response.status = 500 := by
  rw [logBatch] at h
  cases hchangelog : s.changelog with
  | none =>
    rw [hchangelog] at h
    cases h
  | some log =>
    rw [hchangelog] at h
    dsimp only at h
    cases happend : env.appendBatch log entries with
    | error e =>
      rw [happend] at h
      cases h
      rfl
    | ok u =>
      rw [happend] at h
      cases h

theorem checkedUpdate_cases (env : ServerEnv N Expr)
    (apply : AppState N Expr → List (PreparedOp N) → Response × AppState N Expr)
    (s : AppState N Expr) (updateStr : String) (ifMatch : Option String) :
    (∃ response, checkedUpdate env apply s updateStr ifMatch = (response, s) ∧
      response.status ∈ [403, 400, 412, 500]) ∨
    ∃ ops prepared entries s₁, env.parseUpdate updateStr = .ok ops ∧
      prepareUpdate env.trigParser env.datasetName s.store.store ops = .ok (prepared, entries) ∧
      logBatch env s (entries.map .quad) = .ok s₁ ∧
      checkedUpdate env apply s updateStr ifMatch = apply s₁ prepared := by
  rw [checkedUpdate]
  by_cases hread : env.readOnly = true
  · rw [if_pos hread]
    exact .inl ⟨_, rfl, by decide⟩
  rw [if_neg hread]
  cases hparse : env.parseUpdate updateStr with
  | error e => exact .inl ⟨_, rfl, by simp [Response.text]⟩
  | ok ops =>
    dsimp only
    by_cases hmatch : (!ifMatchHolds s ifMatch) = true
    · rw [if_pos hmatch]
      exact .inl ⟨_, rfl, by decide⟩
    rw [if_neg hmatch]
    cases hprepare : prepareUpdate env.trigParser env.datasetName s.store.store ops with
    | error e => exact .inl ⟨_, rfl, by simp [Response.text]⟩
    | ok prepared =>
      dsimp only
      cases hlog : logBatch env s (prepared.2.map .quad) with
      | error response => exact .inl ⟨response, rfl, by simp [logBatch_error hlog]⟩
      | ok s₁ => exact .inr ⟨ops, prepared.1, prepared.2, s₁, rfl, hprepare, hlog, rfl⟩

theorem runUpdate_cases (env : ServerEnv N Expr) (s : AppState N Expr) (updateStr : String)
    (ifMatch : Option String) :
    (∃ response, runUpdate env s updateStr ifMatch = (response, s) ∧
      response.status ∈ [403, 400, 412, 500]) ∨
    ∃ ops prepared entries s₁, env.parseUpdate updateStr = .ok ops ∧
      prepareUpdate env.trigParser env.datasetName s.store.store ops = .ok (prepared, entries) ∧
      logBatch env s (entries.map .quad) = .ok s₁ ∧
      runUpdate env s updateStr ifMatch = applyUpdate env s₁ prepared :=
  checkedUpdate_cases env (applyUpdate env) s updateStr ifMatch

end Updates

section TransactionRoutes

def transactionNotFound : Response := .text 404 "Transaction not found"

def transactionBegin (s : AppState N Expr) (txId : String) : Response × AppState N Expr :=
  (⟨200, .json [("txId", txId)]⟩,
    { s with transactions := beginTransaction s.transactions txId s.store.generation })

def runTransactionalQuery (env : ServerEnv N Expr) (s : AppState N Expr)
    (queryStr txId : String) : Response :=
  match s.transactions.lookup txId with
  | none => transactionNotFound
  | some tx => env.evalQuery (tx.view s.store.store) queryStr

/-- Buffer an update in an open transaction. The names it uses are interned at once. -/
def runTransactionalUpdate (env : ServerEnv N Expr) (s : AppState N Expr)
    (updateStr txId : String) : Response × AppState N Expr :=
  if env.readOnly then (readOnlyResponse, s)
  else
    match env.parseUpdate updateStr with
    | .error e => (.text 400 ("Update parse error: " ++ e), s)
    | .ok ops =>
      match prepareUpdate env.trigParser env.datasetName s.store.store ops with
      | .error e => (.text 400 ("Update prepare error: " ++ e), s)
      | .ok (prepared, _) =>
        match collectData ⟨s.store.store, [], []⟩ prepared with
        | .error store =>
          (.text 400 "Only INSERT DATA and DELETE DATA are supported inside a transaction",
            s.withStore store)
        | .ok st =>
          match s.transactions.lookup txId with
          | none => (transactionNotFound, s.withStore st.store)
          | some tx =>
            (.text 200 "", { s.withStore st.store with
              transactions := s.transactions.insert txId (tx.buffer st) })

theorem runTransactionalUpdate_cases (env : ServerEnv N Expr) (s : AppState N Expr)
    (updateStr txId : String) :
    (runTransactionalUpdate env s updateStr txId).2 = s ∨ ∃ ops prepared entries,
      env.parseUpdate updateStr = .ok ops ∧
      prepareUpdate env.trigParser env.datasetName s.store.store ops = .ok (prepared, entries) ∧
      ((∃ store, collectData ⟨s.store.store, [], []⟩ prepared = .error store ∧
          (runTransactionalUpdate env s updateStr txId).2 = s.withStore store) ∨
        ∃ st, collectData ⟨s.store.store, [], []⟩ prepared = .ok st ∧
          ((runTransactionalUpdate env s updateStr txId).2 = s.withStore st.store ∨
            ∃ tx, s.transactions.lookup txId = some tx ∧
              (runTransactionalUpdate env s updateStr txId).2 = { s.withStore st.store with
                transactions := s.transactions.insert txId (tx.buffer st) })) := by
  rw [runTransactionalUpdate]
  by_cases hread : env.readOnly = true
  · rw [if_pos hread]
    exact .inl rfl
  rw [if_neg hread]
  cases env.parseUpdate updateStr with
  | error e => exact .inl rfl
  | ok ops =>
    dsimp only
    cases hprepare : prepareUpdate env.trigParser env.datasetName s.store.store ops with
    | error e => exact .inl rfl
    | ok prepared =>
      refine .inr ⟨ops, prepared.1, prepared.2, rfl, hprepare, ?_⟩
      dsimp only
      cases collectData ⟨s.store.store, [], []⟩ prepared.1 with
      | error store => exact .inl ⟨store, rfl, rfl⟩
      | ok st =>
        refine .inr ⟨st, rfl, ?_⟩
        dsimp only
        cases s.transactions.lookup txId with
        | none => exact .inl rfl
        | some tx => exact .inr ⟨tx, rfl, rfl⟩

def transactionCommit (env : ServerEnv N Expr) (s : AppState N Expr) (txId : String) :
    Response × AppState N Expr :=
  if env.readOnly then (readOnlyResponse, s)
  else
    match s.transactions.lookup txId with
    | none => (transactionNotFound, s)
    | some tx =>
      let s := { s with transactions := s.transactions.erase txId }
      if s.store.generation ≠ tx.snapshotGeneration then
        (.text 409 ("Conflict: store was modified since transaction began " ++
          "(generation mismatch)"), s)
      else
        let netDeletes := tx.netDeletes s.store.store
        let netInserts := tx.netInserts s.store.store
        let s := { s with store := tx.write s.store }
        match s.reasoner with
        | none => (.noContent, s)
        | some programs =>
          match reasonOver env s programs netDeletes netInserts with
          | .error (e, s) => (e.response, s)
          | .ok s => checkConstraints env s netInserts netDeletes

def transactionRollback (s : AppState N Expr) (txId : String) : Response × AppState N Expr :=
  match s.transactions.lookup txId with
  | none => (transactionNotFound, s)
  | some _ => (.noContent, { s with transactions := s.transactions.erase txId })

end TransactionRoutes

theorem OpenTransaction.write_namedGraphs (tx : OpenTransaction) (v : VersionedStore N) :
    (tx.write v).store.namedGraphs = (tx.netInserts v.store).foldl QuadStore.addQuad
      ((tx.netDeletes v.store).foldl QuadStore.removeQuad v.store.namedGraphs) := by
  rw [tx.write_store, foldl_addQuad_namedGraphs, foldl_removeQuad_namedGraphs]

theorem OpenTransaction.write_resources (tx : OpenTransaction) (v : VersionedStore N) :
    (tx.write v).store.resources = v.store.resources := by
  rw [tx.write_store, foldl_addQuad_resources, foldl_removeQuad_resources]

end RdfDatalog.Endpoint
