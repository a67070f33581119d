import RdfDatalog.Endpoint.GraphStore
import RdfDatalog.Endpoint.Auth

namespace RdfDatalog.Endpoint

open Datalog Datalog.IncrementalReasoner

variable {N : NativeTypes} {Expr : Type}

section RulesRoutes

variable [DecidableEq Expr]

def rulesContentType (ct : String) : Bool :=
  ct.isEmpty || 1 < (ct.splitOn "text/x-datalog").length || 1 < (ct.splitOn "text/plain").length

def rulesText (env : ServerEnv N Expr) (contentType : String) (body : ByteArray) :
    Except Response String :=
  if env.readOnly then .error readOnlyResponse
  else if !rulesContentType contentType then
    .error (.text 400 "Content-Type must be text/x-datalog or text/plain")
  else
    match String.fromUTF8? body with
    | none => .error (.text 400 "Invalid UTF-8 in rules body")
    | some text => .ok text

/-- Answer a change of the rules, which is logged only when it succeeded. -/
def finishRules {α : Type} (env : ServerEnv N Expr) (s : AppState N Expr) (conflict : String)
    (outcome : RulesetOutcome N Expr α) (log : ChangelogEntry) (respond : α → Response) :
    Response × AppState N Expr :=
  let s := s.withEntry outcome.2.1 outcome.2.2
  match outcome.1 with
  | .error (.parse e) => (.text 400 ("Datalog parse error: " ++ e), s)
  | .error (.conflict e) =>
    (.text 409 (conflict ++ " is contradictory over the dataset's existing data: " ++ e), s)
  | .ok result =>
    match logBatch env s [log] with
    | .error response => (response, s)
    | .ok s => (respond result, s)

def datasetRulesPost (env : ServerEnv N Expr) (s : AppState N Expr) (contentType : String)
    (body : ByteArray) : Response × AppState N Expr :=
  match rulesText env contentType body with
  | .error response => (response, s)
  | .ok text =>
    finishRules env s "New ruleset"
      (applyReplaceRulesetText env.rules s.store.store.resources s.entry text)
      (.replaceRuleset env.datasetName text)
      fun rulesLoaded => ⟨200, .json [("rules_loaded", toString rulesLoaded)]⟩

def datasetRulesIdPost (env : ServerEnv N Expr) (s : AppState N Expr) (rulesetId : String)
    (contentType : String) (body : ByteArray) : Response × AppState N Expr :=
  match rulesText env contentType body with
  | .error response => (response, s)
  | .ok text =>
    finishRules env s "New ruleset"
      (applySetNamedRulesetText env.rules s.store.store.resources s.entry rulesetId text)
      (.setNamedRuleset env.datasetName rulesetId text)
      fun rulesLoaded => ⟨200, .json [("rules_loaded", toString rulesLoaded),
        ("ruleset_id", rulesetId)]⟩

def datasetRulesIdDelete (env : ServerEnv N Expr) (s : AppState N Expr) (rulesetId : String) :
    Response × AppState N Expr :=
  if env.readOnly then (readOnlyResponse, s)
  else
    match applyDeleteNamedRuleset env.rules s.store.store.resources s.entry rulesetId with
    | (.ok none, resources, entry) =>
      (.text 404 "Ruleset not found", s.withEntry resources entry)
    | outcome =>
      finishRules env s "Remaining ruleset" outcome
        (.deleteNamedRuleset env.datasetName rulesetId)
        fun rulesRemoved => ⟨200, .json [("rules_removed", toString (rulesRemoved.getD 0)),
          ("ruleset_id", rulesetId)]⟩

end RulesRoutes

/-- A client's request. The id of a new transaction and the clock are drawn by the server. -/
inductive Request where
  | update (updateStr : String) (ifMatch : Option String)
  | transactionBegin (txId : String)
  | transactionalQuery (queryStr txId : String)
  | transactionalUpdate (updateStr txId : String)
  | transactionCommit (txId : String)
  | transactionRollback (txId : String)
  | gspPut (params : GraphParams) (contentType : String) (body : ByteArray)
  | gspPost (params : GraphParams) (contentType : String) (body : ByteArray)
      (createIfMissing : Bool) (nanos : Nat)
  | gspDelete (params : GraphParams)
  | rulesPost (contentType : String) (body : ByteArray)
  | rulesIdPost (rulesetId contentType : String) (body : ByteArray)
  | rulesIdDelete (rulesetId : String)

/-- The handlers hold the lock of the store throughout, so that requests take place one after
another. -/
def handle [DecidableEq Expr] (env : ServerEnv N Expr) (s : AppState N Expr) :
    Request → Response × AppState N Expr
  | .update updateStr ifMatch => runUpdate env s updateStr ifMatch
  | .transactionBegin txId => transactionBegin s txId
  | .transactionalQuery queryStr txId => (runTransactionalQuery env s queryStr txId, s)
  | .transactionalUpdate updateStr txId => runTransactionalUpdate env s updateStr txId
  | .transactionCommit txId => transactionCommit env s txId
  | .transactionRollback txId => transactionRollback s txId
  | .gspPut params contentType body => gspPut env s params contentType body
  | .gspPost params contentType body createIfMissing nanos =>
    gspPost env s params contentType body createIfMissing nanos
  | .gspDelete params => gspDelete env s params
  | .rulesPost contentType body => datasetRulesPost env s contentType body
  | .rulesIdPost rulesetId contentType body => datasetRulesIdPost env s rulesetId contentType body
  | .rulesIdDelete rulesetId => datasetRulesIdDelete env s rulesetId

/-- The state after a list of requests of any clients. -/
def serve [DecidableEq Expr] (env : ServerEnv N Expr) (s : AppState N Expr)
    (requests : List Request) : AppState N Expr :=
  requests.foldl (fun s request => (handle env s request).2) s

end RdfDatalog.Endpoint

namespace RdfDatalog.Endpoint

inductive Handler where
  | swaggerUi | openapiJson | voidHandler | describeGet | idRedirectGet
  | agentprovSessionDocumentGet | authConfigHandler | serveFrontend | uploadTurtle
  | productiveValues | transactionBegin | transactionCommit | transactionRollback
  | sparqlGet | sparqlPost | gspGet | gspHead | gspPut | gspPost | gspDelete
  | directGspGet | directGspHead | directGspPut | directGspPost | directGspDelete
  | adminPing | adminServer | adminListDatasets | adminCreateDataset | adminGetDataset
  | adminDeleteDataset | adminCompact | datasetSparqlGet | datasetSparqlPost
  | datasetUpdatePost | datasetShaclPost | datasetRmlPost | rmlMapPost | datasetOttrPost
  | datasetRulesPost | datasetRulesIdPost | datasetRulesIdDelete | datasetDataGet
  | datasetDataHead | datasetDataPut | datasetDataPost | datasetDataDelete
  deriving DecidableEq

/-- A segment of a route: fixed text, a parameter, or all the rest of the path. -/
inductive RoutePart where
  | lit (text : String)
  | param
  | rest
  deriving DecidableEq

def matchesParts : List RoutePart → UriPath → Bool
  | [], [] => true
  | [.rest], segments => segments.length > 1 || segments.any fun s => s.text ≠ []
  | .lit text :: parts, s :: segments => s.text == text.toList && matchesParts parts segments
  | .param :: parts, s :: segments => s.text ≠ [] && matchesParts parts segments
  | _, _ => false

structure Route where
  parts : List RoutePart
  handlers : Method → Option Handler

section Methods

def getOnly (handler : Handler) : Method → Option Handler
  | .get | .head => some handler
  | _ => none

def postOnly (handler : Handler) : Method → Option Handler
  | .post => some handler
  | _ => none

def getPost (onGet onPost : Handler) : Method → Option Handler
  | .get | .head => some onGet
  | .post => some onPost
  | _ => none

def graphStoreMethods (onGet onHead onPut onPost onDelete : Handler) : Method → Option Handler
  | .get => some onGet
  | .head => some onHead
  | .put => some onPut
  | .post => some onPost
  | .delete => some onDelete
  | _ => none

end Methods

/-- The routes, those with a fixed segment before those with a parameter in its place. -/
def routes : List Route := [
  ⟨[.lit ""], getOnly .serveFrontend⟩,
  ⟨[.lit "swagger-ui"], getOnly .swaggerUi⟩,
  ⟨[.lit "void"], getOnly .voidHandler⟩,
  ⟨[.lit "describe"], getOnly .describeGet⟩,
  ⟨[.lit "upload"], postOnly .uploadTurtle⟩,
  ⟨[.lit "sparql"], getPost .sparqlGet .sparqlPost⟩,
  ⟨[.lit "rdf-graph-store"],
    graphStoreMethods .gspGet .gspHead .gspPut .gspPost .gspDelete⟩,
  ⟨[.lit "api-docs", .lit "openapi.json"], getOnly .openapiJson⟩,
  ⟨[.lit ".well-known", .lit "void"], getOnly .voidHandler⟩,
  ⟨[.lit "auth", .lit "config"], getOnly .authConfigHandler⟩,
  ⟨[.lit "vqs", .lit "productive-values"], getOnly .productiveValues⟩,
  ⟨[.lit "transaction", .lit "begin"], postOnly .transactionBegin⟩,
  ⟨[.lit "$", .lit "ping"], getPost .adminPing .adminPing⟩,
  ⟨[.lit "$", .lit "ready"], getPost .adminPing .adminPing⟩,
  ⟨[.lit "$", .lit "server"], getOnly .adminServer⟩,
  ⟨[.lit "$", .lit "datasets"], getPost .adminListDatasets .adminCreateDataset⟩,
  ⟨[.lit "$", .lit "compact"], postOnly .adminCompact⟩,
  ⟨[.lit "rml", .lit "map"], postOnly .rmlMapPost⟩,
  ⟨[.lit "ns", .lit "agentprov", .lit "session"], getOnly .agentprovSessionDocumentGet⟩,
  ⟨[.lit "$", .lit "datasets", .param], fun
    | .get | .head => some .adminGetDataset
    | .delete => some .adminDeleteDataset
    | _ => none⟩,
  ⟨[.lit "transaction", .param, .lit "commit"], postOnly .transactionCommit⟩,
  ⟨[.lit "transaction", .param, .lit "rollback"], postOnly .transactionRollback⟩,
  ⟨[.lit "swagger-ui", .rest], getOnly .swaggerUi⟩,
  ⟨[.lit "id", .rest], getOnly .idRedirectGet⟩,
  ⟨[.lit "rdf-graphs", .rest], graphStoreMethods .directGspGet .directGspHead .directGspPut
    .directGspPost .directGspDelete⟩,
  ⟨[.param, .lit "sparql"], getPost .datasetSparqlGet .datasetSparqlPost⟩,
  ⟨[.param, .lit "query"], getPost .datasetSparqlGet .datasetSparqlPost⟩,
  ⟨[.param, .lit "update"], postOnly .datasetUpdatePost⟩,
  ⟨[.param, .lit "shacl"], postOnly .datasetShaclPost⟩,
  ⟨[.param, .lit "rml"], postOnly .datasetRmlPost⟩,
  ⟨[.param, .lit "ottr"], postOnly .datasetOttrPost⟩,
  ⟨[.param, .lit "rules"], postOnly .datasetRulesPost⟩,
  ⟨[.param, .lit "data"], graphStoreMethods .datasetDataGet .datasetDataHead .datasetDataPut
    .datasetDataPost .datasetDataDelete⟩,
  ⟨[.param, .lit "get"], fun
    | .get => some .datasetDataGet
    | .head => some .datasetDataHead
    | _ => none⟩,
  ⟨[.param, .lit "rules", .param], fun
    | .post => some .datasetRulesIdPost
    | .delete => some .datasetRulesIdDelete
    | _ => none⟩]

/-- The handler of a request; a path of another method has none. -/
def buildRouter (req : HttpRequest) : Option Handler :=
  (routes.find? fun r => matchesParts r.parts req.path).bind fun r => r.handlers req.method

/-- The update that the query endpoint hands on, out of the body. -/
def updateText (req : HttpRequest) : Option (List Char) :=
  if req.contentTypeContains "application/sparql-update" then
    (String.fromUTF8? req.body).map String.toList
  else if req.contentTypeContains "application/sparql-query" then none
  else if req.contentTypeContains "application/x-www-form-urlencoded" then
    (String.fromUTF8? req.body).bind fun s => (s.toList.splitOn '&').findSome? fun part =>
      (HttpRequest.splitOnce part).bind fun p => if p.1 = "update".toList then some p.2 else none
  else none

/-- The handler can change quads, rulesets, datasets, the changelog or a transaction. -/
def Handler.changes (req : HttpRequest) : Handler → Bool
  | .uploadTurtle | .transactionBegin | .transactionCommit | .transactionRollback => true
  | .gspPut | .gspPost | .gspDelete | .directGspPut | .directGspPost | .directGspDelete => true
  | .adminCreateDataset | .adminDeleteDataset | .adminCompact => true
  | .datasetUpdatePost | .datasetRmlPost | .datasetOttrPost => true
  | .datasetRulesPost | .datasetRulesIdPost | .datasetRulesIdDelete => true
  | .datasetDataPut | .datasetDataPost | .datasetDataDelete => true
  | .sparqlPost | .datasetSparqlPost => (updateText req).isSome
  | _ => false

end RdfDatalog.Endpoint
