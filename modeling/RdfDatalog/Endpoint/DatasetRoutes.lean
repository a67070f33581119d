import RdfDatalog.Endpoint.Router

namespace RdfDatalog.Endpoint

open Datalog Datalog.IncrementalReasoner

variable {N : NativeTypes} {Expr : Type}

/-- The name of a dataset without leading slashes. -/
def canonical (name : String) : String := String.ofList (name.toList.dropWhile fun c => c = '/')

/-- What one dataset owns: its store, its reasoner and its named rulesets. -/
structure DatasetCells (N : NativeTypes) (Expr : Type) where
  store : VersionedStore N
  reasoner : Option (List (DatalogProgram Expr))
  rulesets : RulesetMap Expr

def DatasetCells.new : DatasetCells N Expr := ⟨⟨Datastore.new, 0⟩, none, ∅⟩

/-- The cells that the routes at the root work on. At the start they are registered as `ds`. -/
def rootCell : Nat := 0

/-- The whole server: the cells of the datasets by handle, the handles by name, and what all
datasets share. The next handle is not that of the root. -/
structure ServerState (N : NativeTypes) (Expr : Type) where
  cells : Nat → DatasetCells N Expr
  next : Nat
  fresh : rootCell < next
  registry : AList (fun _ : String => Nat)
  transactions : TransactionRegistry
  changelog : Option (List ChangelogEntry)

namespace ServerState

def start (root : DatasetCells N Expr) (changelog : Option (List ChangelogEntry)) :
    ServerState N Expr :=
  ⟨Function.update (fun _ => DatasetCells.new) rootCell root, 1, Nat.one_pos,
    AList.singleton "ds" rootCell, ∅, changelog⟩

def getEntry (S : ServerState N Expr) (name : String) : Option Nat :=
  S.registry.lookup (canonical name)

/-- The state that the handlers of one dataset see. -/
def datasetState (S : ServerState N Expr) (cell : Nat) : AppState N Expr :=
  ⟨(S.cells cell).store, (S.cells cell).reasoner, (S.cells cell).rulesets, S.transactions,
    S.changelog⟩

/-- Put back what a handler left. -/
def put (S : ServerState N Expr) (cell : Nat) (s : AppState N Expr) : ServerState N Expr :=
  { S with
    cells := Function.update S.cells cell ⟨s.store, s.reasoner, s.rulesets⟩
    transactions := s.transactions
    changelog := s.changelog }

variable (S : ServerState N Expr)

@[simp] theorem put_transactions (cell : Nat) (s : AppState N Expr) :
    (S.put cell s).transactions = s.transactions := rfl

@[simp] theorem put_cells_self (cell : Nat) (s : AppState N Expr) :
    (S.put cell s).cells cell = ⟨s.store, s.reasoner, s.rulesets⟩ :=
  Function.update_self cell _ _

theorem put_cells_of_ne {cell other : Nat} (s : AppState N Expr)
    (h : other ≠ cell) : (S.put cell s).cells other = S.cells other :=
  Function.update_of_ne h _ _

end ServerState

def UpdateError.message : UpdateError → String
  | contradiction msg => msg
  | other msg => msg

section DatasetUpdate

/-- Run prepared operations on the store of a dataset. A violation is taken back from the store,
and the reasoner is not told. -/
def applyDatasetUpdate (env : ServerEnv N Expr) (s : AppState N Expr)
    (prepared : List (PreparedOp N)) : Response × AppState N Expr :=
  let dataset : Dataset N Expr := (s.store.store, s.reasoner)
  let generation := s.store.generation +
    updateWrites env.update env.network env.rules.reasoning dataset prepared
  match applyReasonedUpdate env.update env.network env.rules.reasoning dataset prepared with
  | .error (e, store, reasoner) =>
    (.text 500 ("Update execution error: " ++ e.message),
      { s with store := ⟨store, generation⟩, reasoner })
  | .ok ((store, reasoner), netInserts, netDeletes) =>
    let s := { s with store := ⟨store, generation⟩, reasoner }
    match s.reasoner with
    | none => (.text 200 "", s)
    | some _ =>
      let violations := checkOwlNothing env s.store.store 10 10
      if violations.isEmpty then (.text 200 "", s)
      else (.text 409 (format409Body violations), revertDelta s netInserts netDeletes)

/-- `POST /{name}/update`. -/
def datasetUpdatePost (env : ServerEnv N Expr) (s : AppState N Expr) (updateStr : String)
    (ifMatch : Option String) : Response × AppState N Expr :=
  if env.readOnly then (readOnlyResponse, s)
  else
    match env.parseUpdate updateStr with
    | .error e => (.text 400 ("Update parse error: " ++ e), s)
    | .ok ops =>
      if !ifMatchHolds s ifMatch then (.text 412 "Precondition Failed: ETag mismatch", s)
      else
        match prepareUpdate env.trigParser env.datasetName s.store.store ops with
        | .error e => (.text 400 ("Update prepare error: " ++ e), s)
        | .ok (prepared, entries) =>
          match logBatch env s (entries.map .quad) with
          | .error response => (response, s)
          | .ok s => applyDatasetUpdate env s prepared

theorem datasetUpdatePost_cases (env : ServerEnv N Expr) (s : AppState N Expr)
    (updateStr : String) (ifMatch : Option String) :
    (∃ response, datasetUpdatePost env s updateStr ifMatch = (response, s) ∧
      response.status ∈ [403, 400, 412, 500]) ∨
    ∃ ops prepared entries s₁, env.parseUpdate updateStr = .ok ops ∧
      prepareUpdate env.trigParser env.datasetName s.store.store ops = .ok (prepared, entries) ∧
      logBatch env s (entries.map .quad) = .ok s₁ ∧
      datasetUpdatePost env s updateStr ifMatch = applyDatasetUpdate env s₁ prepared :=
  checkedUpdate_cases env (applyDatasetUpdate env) s updateStr ifMatch

end DatasetUpdate

section Admin

def logRegistry (env : ServerEnv N Expr) (S : ServerState N Expr) (entry : ChangelogEntry) :
    Except Response (ServerState N Expr) :=
  match S.changelog with
  | none => .ok S
  | some log =>
    match env.appendBatch log [entry] with
    | .error e => .error (.text 500 ("persistence error: " ++ e))
    | .ok () => .ok { S with changelog := some (log ++ [entry]) }

/-- `POST /$/datasets`, for a name that the body gave. -/
def adminCreateDataset (env : ServerEnv N Expr) (S : ServerState N Expr) (dbName : String) :
    Response × ServerState N Expr :=
  let name := canonical dbName
  if name.isEmpty then (.text 400 "Dataset name cannot be empty", S)
  else if (S.getEntry name).isSome then (.text 409 "Dataset already exists", S)
  else
    match logRegistry env S (.createDataset name) with
    | .error response => (response, S)
    | .ok S =>
      (.text 200 "", { S with
        cells := Function.update S.cells S.next DatasetCells.new
        next := S.next + 1
        fresh := Nat.lt_succ_of_lt S.fresh
        registry := S.registry.insert (canonical name) S.next })

/-- `DELETE /$/datasets/{name}`. The cells stay with whoever still holds them. -/
def adminDeleteDataset (env : ServerEnv N Expr) (S : ServerState N Expr) (name : String) :
    Response × ServerState N Expr :=
  if (S.getEntry name).isNone then (.text 404 "Dataset not found", S)
  else
    match logRegistry env S (.deleteDataset name) with
    | .error response => (response, S)
    | .ok S => (.text 200 "", { S with registry := S.registry.erase (canonical name) })

end Admin

/-- Whether a route of a dataset takes the request: transactions are opened and closed at the
root. -/
def Request.hasDatasetRoute : Request → Bool
  | .transactionBegin _ | .transactionCommit _ | .transactionRollback _ => false
  | _ => true

/-- Whether a route at the root takes the request: rules are loaded by dataset. -/
def Request.hasRootRoute : Request → Bool
  | .rulesPost _ _ | .rulesIdPost _ _ _ | .rulesIdDelete _ => false
  | _ => true

inductive RoutedRequest where
  | root (request : Request)
  | dataset (name : String) (request : Request)
  | datasetUpdate (name updateStr : String) (ifMatch : Option String)
  | createDataset (dbName : String)
  | deleteDataset (name : String)
  /-- Drop idle transactions, as each begin does first. -/
  | purgeStale (txIds : List String)

def noRoute : Response := .text 404 ""

def datasetNotFound : Response := .text 404 "Dataset not found"

/-- The name under which a request to a dataset is logged. The rules endpoint logs it as it is
written. -/
def Request.loggedName (name : String) : Request → String
  | .rulesPost _ _ | .rulesIdPost _ _ _ | .rulesIdDelete _ => name
  | _ => canonical name

def ServerEnv.named (env : ServerEnv N Expr) (datasetName : String) : ServerEnv N Expr :=
  { env with datasetName }

/-- Answer one request. -/
def dispatch [DecidableEq Expr] (env : ServerEnv N Expr) (S : ServerState N Expr) :
    RoutedRequest → Response × ServerState N Expr
  | .root request =>
    if request.hasRootRoute then
      let (response, s) := handle env (S.datasetState rootCell) request
      (response, S.put rootCell s)
    else (noRoute, S)
  | .dataset name request =>
    if request.hasDatasetRoute then
      match S.getEntry name with
      | none => (datasetNotFound, S)
      | some cell =>
        let (response, s) :=
          handle (env.named (request.loggedName name)) (S.datasetState cell) request
        (response, S.put cell s)
    else (noRoute, S)
  | .datasetUpdate name updateStr ifMatch =>
    match S.getEntry name with
    | none => (datasetNotFound, S)
    | some cell =>
      let (response, s) := datasetUpdatePost (env.named (canonical name)) (S.datasetState cell)
        updateStr ifMatch
      (response, S.put cell s)
  | .createDataset dbName => adminCreateDataset env S dbName
  | .deleteDataset name => adminDeleteDataset env S name
  | .purgeStale txIds =>
    (.text 200 "",
      { S with transactions := txIds.foldl (fun t txId => t.erase txId) S.transactions })

def run [DecidableEq Expr] (env : ServerEnv N Expr) (S : ServerState N Expr)
    (requests : List RoutedRequest) : ServerState N Expr :=
  requests.foldl (fun S request => (dispatch env S request).2) S

end RdfDatalog.Endpoint
