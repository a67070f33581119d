import RdfDatalog.Endpoint.SparqlUpdate
import RdfDatalog.Endpoint.XsdDuration
import RdfDatalog.Store.RdfTerm

namespace RdfDatalog.Endpoint

variable {N : NativeTypes}

/-- A JSON value. The fields of an object are kept in the order of their keys. -/
inductive Json where
  | string (s : String)
  | bool (b : Bool)
  | array (items : List Json)
  | object (fields : List (String × Json))

/-- The JSON library: its printer, and its parser with the text of its errors. -/
structure JsonText where
  print : Json → String
  parse : String → Except String Json

def insertField (key : String) (value : Json) : List (String × Json) → List (String × Json)
  | [] => [(key, value)]
  | (k, v) :: fields =>
    if key < k then (key, value) :: (k, v) :: fields
    else if key = k then (key, value) :: fields
    else (k, v) :: insertField key value fields

@[simp] theorem lookup_insertField_self (key : String) (value : Json)
    (fields : List (String × Json)) : (insertField key value fields).lookup key = some value := by
  induction fields with
  | nil => simp [insertField]
  | cons field fields ih =>
    obtain ⟨k, v⟩ := field
    rw [insertField]
    split_ifs with hlt heq
    · simp
    · simp
    · have hne : (key == k) = false := by simpa using heq
      rw [List.lookup_cons, hne]
      exact ih

theorem lookup_insertField_ne {key key' : String} (h : key' ≠ key) (value : Json)
    (fields : List (String × Json)) :
    (insertField key value fields).lookup key' = fields.lookup key' := by
  have hne : (key' == key) = false := by simpa using h
  induction fields with
  | nil => rw [insertField, List.lookup_cons, hne]
  | cons field fields ih =>
    obtain ⟨k, v⟩ := field
    rw [insertField]
    split_ifs with hlt heq
    · rw [List.lookup_cons, hne]
    · subst heq
      rw [List.lookup_cons, List.lookup_cons, hne]
    · rw [List.lookup_cons, List.lookup_cons, ih]

/-- The object with the given fields, as the `json!` macro builds it. -/
def jsonObject (fields : List (String × Json)) : Json :=
  .object (fields.foldl (fun acc field => insertField field.1 field.2 acc) [])

/-- The rows of a SELECT query, over its projected variables. -/
structure SelectResult (N : NativeTypes) where
  vars : List String
  rows : List (SolutionRow N)

section Encoder

def typedJson (lexical : String) (datatype : IriReference) : Json :=
  jsonObject [("type", .string "literal"), ("value", .string lexical),
    ("datatype", .string datatype)]

def literalToJson : RdfLiteral N → Json
  | .literalString s => jsonObject [("type", .string "literal"), ("value", .string s)]
  | .booleanLiteral b => typedJson (toString b) xsdBoolean
  | .integerLiteral i => typedJson (toString i) xsdInteger
  | .decimalLiteral d => typedJson (N.decimalText d) xsdDecimal
  | .floatLiteral f => typedJson (N.floatText f) xsdFloat
  | .doubleLiteral d => typedJson (N.floatText d) xsdDouble
  | .dateTimeLiteral dt => typedJson (N.dateTimeText dt) xsdDateTime
  | .dateLiteral d => typedJson (N.dateText d) xsdDate
  | .timeLiteral t => typedJson (N.timeText t) xsdTime
  | .durationLiteral d => typedJson (N.durationText d) xsdDuration
  | .langLiteral lang literal =>
    jsonObject [("type", .string "literal"), ("value", .string literal),
      ("xml:lang", .string lang)]
  | .typedLiteral typeIri literal => typedJson literal typeIri

def blankLabel (id : Nat) : String := "b" ++ toString id

def tripleJson (subject predicate obj : Json) : Json :=
  jsonObject [("type", .string "triple"), ("value",
    jsonObject [("subject", subject), ("predicate", predicate), ("object", obj)])]

/-- `none` where the source panics on an id that is not interned, or recurses too deeply. -/
def graphElementToJson (m : GraphElementManager N) : Nat → GraphElement N → Option Json
  | _, .nodeOrEdge (.iri iri) =>
    some (jsonObject [("type", .string "uri"), ("value", .string iri)])
  | _, .nodeOrEdge (.anonymousBlankNode id) =>
    some (jsonObject [("type", .string "bnode"), ("value", .string (blankLabel id))])
  | _, .graphLiteral lit => some (literalToJson lit)
  | 0, .tripleTerm _ => none
  | fuel + 1, .tripleTerm k => do
    let subject ← (m.getGraphElement k.subject).bind (graphElementToJson m fuel)
    let predicate ← (m.getGraphElement k.predicate).bind (graphElementToJson m fuel)
    let obj ← (m.getGraphElement k.obj).bind (graphElementToJson m fuel)
    return tripleJson subject predicate obj

def bindingFields (m : GraphElementManager N) (fuel : Nat) (row : SolutionRow N) :
    List String → List (String × Json) → Option (List (String × Json))
  | [], fields => some fields
  | v :: vars, fields =>
    match row v with
    | none => bindingFields m fuel row vars fields
    | some element =>
      (graphElementToJson m fuel element).bind fun json =>
        bindingFields m fuel row vars (insertField v json fields)

def toSparqlJson (result : SelectResult N) (store : Datastore N) (fuel : Nat) : Option Json := do
  let bindings ← result.rows.mapM fun row =>
    (bindingFields store.resources fuel row result.vars []).map Json.object
  return jsonObject [("head", jsonObject [("vars", .array (result.vars.map Json.string))]),
    ("results", jsonObject [("bindings", .array bindings)])]

end Encoder

section Decoder

inductive SparqlJsonError where
  | invalidJson (msg : String)
  | askResult
  | malformed (msg : String)
  | unknownTermType (ty : String)
  deriving DecidableEq

/-- The parsers of the number and date libraries for the datatypes that have a literal variant of
their own, and the duration of so many nanoseconds. -/
structure LexicalParsers (N : NativeTypes) where
  integer : String → Option Int
  decimal : String → Option N.Decimal
  float : String → Option N.Float
  dateTime : String → Option N.DateTime
  date : String → Option N.Date
  time : String → Option N.Time
  duration : Int → N.Duration

/-- `none` where the source panics. -/
def literalFromLexical (parsers : LexicalParsers N) (datatype : IriReference) (lexical : String) :
    Option (RdfLiteral N) :=
  let orFallback (value : Option (RdfLiteral N)) : Option (RdfLiteral N) :=
    some (value.getD (.typedLiteral datatype lexical))
  if datatype = xsdString then some (.literalString lexical)
  else if datatype = xsdBoolean then
    if lexical = "true" ∨ lexical = "1" then some (.booleanLiteral true)
    else if lexical = "false" ∨ lexical = "0" then some (.booleanLiteral false)
    else orFallback none
  else if datatype = xsdInteger then orFallback ((parsers.integer lexical).map .integerLiteral)
  else if datatype = xsdDecimal then orFallback ((parsers.decimal lexical).map .decimalLiteral)
  else if datatype = xsdFloat then orFallback ((parsers.float lexical).map .floatLiteral)
  else if datatype = xsdDouble then orFallback ((parsers.float lexical).map .doubleLiteral)
  else if datatype = xsdDateTime then orFallback ((parsers.dateTime lexical).map .dateTimeLiteral)
  else if datatype = xsdDate then orFallback ((parsers.date lexical).map .dateLiteral)
  else if datatype = xsdTime then orFallback ((parsers.time lexical).map .timeLiteral)
  else if datatype = xsdDuration then (parseXsdDuration lexical).bind fun nanos =>
    orFallback (nanos.map fun n => .durationLiteral (parsers.duration n))
  else orFallback none

theorem literalFromLexical_duration (parsers : LexicalParsers N) (lexical : String) :
    literalFromLexical parsers xsdDuration lexical = (parseXsdDuration lexical).map fun nanos =>
      (nanos.map fun n => .durationLiteral (parsers.duration n)).getD
        (.typedLiteral xsdDuration lexical) := by
  simp only [literalFromLexical, xsdString, xsdBoolean, xsdInteger, xsdDecimal, xsdFloat, xsdDouble,
    xsdDateTime, xsdDate, xsdTime, xsdDuration]
  cases parseXsdDuration lexical <;> simp

theorem literalFromLexical_isSome (parsers : LexicalParsers N) {datatype : IriReference}
    (h : datatype ≠ xsdDuration) (lexical : String) :
    (literalFromLexical parsers datatype lexical).isSome := by
  rw [literalFromLexical]
  dsimp only
  split_ifs <;> rfl

/-- The store, and the blank nodes made for the labels of the document so far. -/
structure DecodeState (N : NativeTypes) where
  store : Datastore N
  bnodes : List (String × GraphElement N)

def asObject (value : Json) : Option (List (String × Json)) :=
  match value with
  | .object fields => some fields
  | _ => none

def asArray (value : Json) : Option (List Json) :=
  match value with
  | .array items => some items
  | _ => none

def asString (value : Json) : Option String :=
  match value with
  | .string s => some s
  | _ => none

def jsonStrField (obj : List (String × Json)) (key : String) : Except SparqlJsonError String :=
  match (obj.lookup key).bind asString with
  | some s => .ok s
  | none => .error (.malformed ("missing or non-string " ++ key.quote))

/-- The blank node of a label: a new one where the label is read first. -/
def bnodeOf (st : DecodeState N) (label : String) : GraphElement N × DecodeState N :=
  match st.bnodes.lookup label with
  | some existing => (existing, st)
  | none =>
    let (resources, _) := st.store.resources.createUnnamedAnonResource
    -- the element that was just interned
    let elem := .nodeOrEdge (.anonymousBlankNode resources.anonResourceCount)
    (elem, ⟨{ st.store with resources }, (label, elem) :: st.bnodes⟩)

def internTripleTerm (st : DecodeState N) (subject predicate obj : GraphElement N) :
    GraphElement N × DecodeState N :=
  let (store, subjectId) := st.store.addResource subject
  let (store, predicateId) := store.addResource predicate
  let (store, objectId) := store.addResource obj
  let element := .tripleTerm ⟨subjectId, predicateId, objectId⟩
  (element, { st with store := (store.addResource element).1 })

theorem sizeOf_of_lookup {fields : List (String × Json)} {key : String} {value : Json}
    (h : fields.lookup key = some value) : sizeOf value < sizeOf fields := by
  induction fields with
  | nil => cases h
  | cons field fields ih =>
    obtain ⟨k, v⟩ := field
    rw [List.lookup_cons] at h
    split at h
    · cases h
      simp only [List.cons.sizeOf_spec, Prod.mk.sizeOf_spec]
      omega
    · have hlt := ih h
      simp only [List.cons.sizeOf_spec]
      omega

/-- A component of a triple term, with its size bounded by that of the object it is a field of. -/
def tripleComponent (parts : List (String × Json)) (key : String) :
    Except SparqlJsonError {value : Json // sizeOf value < sizeOf parts} :=
  match h : parts.lookup key with
  | none => .error (.malformed ("triple term missing " ++ key.quote))
  | some value => .ok ⟨value, sizeOf_of_lookup h⟩

/-- An error or a result, with the effects that `B` adds to the reading of a literal. -/
abbrev Decoded (B : Type → Type) := ExceptT SparqlJsonError B

def arrayField (obj : List (String × Json)) (outer inner : String) :
    Except SparqlJsonError (List Json) :=
  match (((obj.lookup outer).bind asObject).bind fun o => o.lookup inner).bind asArray with
  | some items => .ok items
  | none => .error (.malformed ("missing " ++ outer.quote ++ "." ++ inner.quote))

def readVar (value : Json) : Except SparqlJsonError String :=
  match asString value with
  | some s => .ok s
  | none => .error (.malformed "\"head\".\"vars\" entry is not a string")

variable {B : Type → Type} [Monad B] (literal : IriReference → String → B (RdfLiteral N))

def jsonToGraphElement (term : Json) (st : DecodeState N) :
    Decoded B (GraphElement N × DecodeState N) :=
  match term with
  | .object obj => do
    let ty ← jsonStrField obj "type"
    if ty = "uri" then
      let value ← jsonStrField obj "value"
      return (.iri value, st)
    else if ty = "bnode" then
      let label ← jsonStrField obj "value"
      return bnodeOf st label
    else if ty = "literal" ∨ ty = "typed-literal" then
      let value ← jsonStrField obj "value"
      match (obj.lookup "xml:lang").bind asString with
      | some lang => return (.graphLiteral (.langLiteral lang value), st)
      | none =>
        match (obj.lookup "datatype").bind asString with
        | some datatype =>
          let lit ← ExceptT.lift (literal datatype value)
          return (.graphLiteral lit, st)
        | none => return (.graphLiteral (.literalString value), st)
    else if ty = "triple" then
      match _hv : obj.lookup "value" with
      | none => throw (.malformed "triple term missing \"value\"")
      | some (.object parts) =>
        let ⟨subject, _⟩ ← tripleComponent parts "subject"
        let ⟨predicate, _⟩ ← tripleComponent parts "predicate"
        let ⟨object, _⟩ ← tripleComponent parts "object"
        let (subject, st) ← jsonToGraphElement subject st
        let (predicate, st) ← jsonToGraphElement predicate st
        let (object, st) ← jsonToGraphElement object st
        return internTripleTerm st subject predicate object
      | some _ => throw (.malformed "a triple term's \"value\" is not a JSON object")
    else throw (.unknownTermType ty)
  | _ => throw (.malformed "a binding term is not a JSON object")
termination_by term
decreasing_by
  all_goals
    have hlt := sizeOf_of_lookup _hv
    simp only [Json.object.sizeOf_spec] at hlt ⊢
    omega

def readRow (binding : List (String × Json)) : List String → SolutionRow N → DecodeState N →
    Decoded B (SolutionRow N × DecodeState N)
  | [], row, st => return (row, st)
  | v :: vars, row, st =>
    match binding.lookup v with
    | none => readRow binding vars row st
    | some term => do
      let (element, st) ← jsonToGraphElement literal term st
      readRow binding vars (Function.update row v (some element)) st

def readRows (vars : List String) : List Json → DecodeState N →
    Decoded B (List (SolutionRow N) × DecodeState N)
  | [], st => return ([], st)
  | binding :: bindings, st =>
    match binding with
    | .object fields => do
      let (row, st) ← readRow literal fields vars (fun _ => none) st
      let (rows, st) ← readRows vars bindings st
      return (row :: rows, st)
    | _ => throw (.malformed "a \"bindings\" entry is not a JSON object")

def readDocument (codec : JsonText) (text : String) (store : Datastore N) :
    Decoded B (SelectResult N × Datastore N) :=
  match codec.parse text with
  | .error e => throw (.invalidJson e)
  | .ok (.object obj) =>
    if (obj.lookup "boolean").isSome then throw .askResult
    else do
      let vars ← (do (← arrayField obj "head" "vars").mapM readVar : Except SparqlJsonError _)
      let bindings ← arrayField obj "results" "bindings"
      let (rows, st) ← readRows literal vars bindings ⟨store, []⟩
      return (⟨vars, rows⟩, st.store)
  | .ok _ => throw (.malformed "top-level JSON value is not an object")

/-- `none` where the source panics. -/
def fromSparqlJson (parsers : LexicalParsers N) (codec : JsonText) (text : String)
    (store : Datastore N) : Option (Except SparqlJsonError (SelectResult N × Datastore N)) :=
  (readDocument (literalFromLexical parsers) codec text store).run

end Decoder

end RdfDatalog.Endpoint
