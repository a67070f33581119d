import RdfDatalog.Endpoint.SparqlJson

namespace RdfDatalog.Endpoint

inductive Method where
  | get | post | put | delete | head | options
  | other (name : String)
  deriving DecidableEq

/-- A segment of a path, between two slashes. -/
structure Segment where
  text : List Char
  slashFree : '/' ∉ text
  deriving DecidableEq

abbrev UriPath := List Segment

def UriPath.text (path : UriPath) : List Char := path.flatMap fun s => '/' :: s.text

/-- A header value that is visible ASCII text. -/
structure HeaderText where
  text : List Char
  visible : ∀ c ∈ text, c = '\t' ∨ 32 ≤ c.toNat ∧ c.toNat < 127

/-- What the router, the authentication and the dispatch on the body read of a request. -/
structure HttpRequest where
  method : Method
  path : UriPath
  authorization : Option HeaderText
  contentType : Option HeaderText
  body : ByteArray

namespace HttpRequest

variable (req : HttpRequest)

def contentTypeText : List Char := (req.contentType.map HeaderText.text).getD []

def contentTypeContains (s : String) : Bool := decide (s.toList <:+: req.contentTypeText)

/-- The fields of a form body: the text before and after the first `=` of each part. -/
def splitOnce (part : List Char) : Option (List Char × List Char) :=
  if '=' ∈ part then some (part.takeWhile (· ≠ '='), (part.dropWhile (· ≠ '=')).tail) else none

end HttpRequest

section Classification

inductive Permission where
  | read | write | admin
  deriving DecidableEq

def pathIs (path : UriPath) (s : String) : Bool := path.text == s.toList
def pathStarts (path : UriPath) (s : String) : Bool := decide (s.toList <+: path.text)
def pathEnds (path : UriPath) (s : String) : Bool := decide (s.toList <:+ path.text)

def isSparqlQueryShaped (path : UriPath) : Bool :=
  pathIs path "/sparql" || pathEnds path "/sparql" || pathEnds path "/query"

def classify (method : Method) (path : UriPath) : Permission :=
  if method = .post ∧ (pathIs path "/$/datasets" || pathIs path "/$/compact") then .admin
  else if method = .delete ∧ pathStarts path "/$/datasets/" then .admin
  else if method = .post ∧ (pathIs path "/upload" || pathEnds path "/update" ||
      pathEnds path "/rml" || pathEnds path "/ottr") then .write
  else if method = .post ∧ pathStarts path "/transaction/" then .write
  else if method = .put ∨ method = .delete then .write
  else if method = .post ∧ (pathIs path "/rdf-graph-store" || pathStarts path "/rdf-graphs/" ||
      pathEnds path "/data") then .write
  else if method = .post ∧ isSparqlQueryShaped path then .read
  else if method = .post ∧ (pathIs path "/rml/map" || pathEnds path "/shacl") then .read
  else match method with
    | .get | .head | .options => .read
    | _ => .admin

def sniffBodyLimit : Nat := 2 * 1024 * 1024

/-- The permission of a query-shaped request by its body; `none` when the body is too large. -/
def detectUpdateSmuggling (req : HttpRequest) : Option Permission :=
  if req.contentTypeContains "application/sparql-update" then some .write
  else if ! req.contentTypeContains "application/x-www-form-urlencoded" then some .read
  else if req.body.size > sniffBodyLimit then none
  else
    let isUpdate := match String.fromUTF8? req.body with
      | some s => (s.toList.splitOn '&').any fun part =>
        (HttpRequest.splitOnce part).map Prod.fst == some "update".toList
      | none => false
    some (if isUpdate then .write else .read)

def requiredPermission (req : HttpRequest) : Option Permission :=
  if req.method = .post ∧ isSparqlQueryShaped req.path then detectUpdateSmuggling req
  else some (classify req.method req.path)

end Classification

section Tokens

/-- The claims of a token, as a flat map. -/
structure Claims where
  fields : List (String × Json)

def extractStringArray : Json → List String
  | .array items => items.filterMap fun
    | .string s => some s
    | _ => none
  | _ => []

def extractFromValue : Json → List String → List String
  | value, [] => extractStringArray value
  | .object fields, key :: keys =>
    match fields.lookup key with
    | some v => extractFromValue v keys
    | none => []
  | _, _ :: _ => []

namespace Claims

def extractRoles (claims : Claims) (claimPath : String) : List String :=
  extractFromValue (.object claims.fields) (claimPath.splitOn ".")

def hasRole (claims : Claims) (claimPath role : String) : Bool :=
  (claims.extractRoles claimPath).any fun r => r = role

end Claims

/-- The roles of the token configuration. The rest of it is read by the validation of tokens. -/
structure OidcConfig where
  rolesClaim : String
  readRole : String
  writeRole : String
  adminRole : String

inductive AuthConfig where
  | none
  | apiKey (key : String) (requireForReads : Bool)
  | oidc (config : OidcConfig)

/-- The claims of a token whose algorithm, key, signature, expiry, issuer and audience are
accepted. -/
structure TokenEnv where
  validate : OidcConfig → List Char → Option Claims

def extractBearer (req : HttpRequest) : Option (List Char) :=
  req.authorization.bind fun value =>
    if "Bearer ".toList <+: value.text then some (value.text.drop 7) else .none

def asciiBytes (text : List Char) : List UInt8 := text.map fun c => UInt8.ofNat c.toNat

/-- The shorter side is padded with zeros. -/
def constantTimeEq (a b : List UInt8) : Bool :=
  let len := max a.length b.length
  a ++ List.replicate (len - a.length) 0 == b ++ List.replicate (len - b.length) 0

inductive AuthOutcome where
  | next | unauthorized | forbidden | payloadTooLarge
  deriving DecidableEq

def authorized (config : OidcConfig) (claims : Claims) : Permission → Bool
  | .read => claims.hasRole config.rolesClaim config.readRole ||
    claims.hasRole config.rolesClaim config.writeRole ||
    claims.hasRole config.rolesClaim config.adminRole
  | .write => claims.hasRole config.rolesClaim config.writeRole ||
    claims.hasRole config.rolesClaim config.adminRole
  | .admin => claims.hasRole config.rolesClaim config.adminRole

/-- What the middleware does with a request: hand it on, or answer it. -/
def authMiddleware (env : TokenEnv) (auth : AuthConfig) (req : HttpRequest) : AuthOutcome :=
  if pathIs req.path "/auth/config" then .next
  else match auth with
    | .none => .next
    | .apiKey key requireForReads =>
      match requiredPermission req with
      | .none => .payloadTooLarge
      | some required =>
        let needsCheck := match required with
          | .write | .admin => true
          | .read => requireForReads
        if ! needsCheck then .next
        else match extractBearer req with
          | some token =>
            if constantTimeEq (asciiBytes token) key.toUTF8.toList then .next else .unauthorized
          | .none => .unauthorized
    | .oidc config =>
      match requiredPermission req with
      | .none => .payloadTooLarge
      | some required =>
        match extractBearer req with
        | .none => .unauthorized
        | some token =>
          match env.validate config token with
          | .none => .unauthorized
          | some claims => if authorized config claims required then .next else .forbidden

end Tokens

end RdfDatalog.Endpoint
