import RdfDatalog.Endpoint.SparqlUpdate
import RdfDatalog.Math.SortedFields

namespace RdfDatalog.JsonLd

open Endpoint

/-- A JSON value. A number is kept as its text, and the fields of an object in the order of their
keys. -/
inductive Value where
  | null
  | bool (b : Bool)
  | number (text : String)
  | string (s : String)
  | array (items : List Value)
  | object (fields : List (String × Value))

namespace Value

mutual

/-- How deep arrays and objects are nested. -/
def depth : Value → Nat
  | .array items => depthItems items + 1
  | .object fields => depthFields fields + 1
  | _ => 0

def depthItems : List Value → Nat
  | [] => 0
  | item :: items => max item.depth (depthItems items)

def depthFields : List (String × Value) → Nat
  | [] => 0
  | (_, value) :: fields => max value.depth (depthFields fields)

end

def asStr : Value → Option String
  | .string s => some s
  | _ => none

def items : Value → List Value
  | .array items => items
  | value => [value]

end Value

inductive TypeCoercion where
  | none
  /-- String values are IRIs. -/
  | id
  /-- Any value becomes a literal of its JSON text. -/
  | json
  | datatype (iri : String)
  deriving DecidableEq

inductive ContainerType where
  | default
  | set
  | list
  | language
  | index
  | id
  | type
  | graph
  deriving DecidableEq

structure TermDef where
  id : String
  typeCoercion : TypeCoercion
  container : ContainerType
  scopedContext : Option Value

/-- What the parser takes from elsewhere: the JSON library, the characters that the language calls
alphanumeric, and the order in which a hash map is iterated. -/
structure ParserEnv where
  print : Value → String
  parse : String → Except String Value
  alphanumeric : Char → Bool
  ascii : ∀ c, c.isAlphanum = true → alphanumeric c = true
  iterate : AList (fun _ : String => TermDef) → List (String × TermDef)
  iterate_perm : ∀ terms, (iterate terms).Perm (terms.entries.map fun e => (e.1, e.2))

structure Context where
  terms : AList (fun _ : String => TermDef)
  base : Option String
  vocab : Option String
  language : Option String
  network : NetworkPolicy

def Context.empty (network : NetworkPolicy) : Context := ⟨∅, none, none, none, network⟩

/-- A word with a sign for a keyword at its start. -/
def isKeyword (s : String) : Bool := s.toList.head? = some '@'

variable (env : ParserEnv)

def isAbsoluteIri (s : String) : Bool :=
  !isKeyword s && s.toList.contains ':' &&
    let scheme := s.toList.takeWhile fun c => c ≠ ':'
    !scheme.isEmpty && scheme.all fun c => env.alphanumeric c || c = '+' || c = '-' || c = '.'

/-- What stands before and after the first colon. -/
def splitColon (s : String) : Option (String × String) :=
  if s.toList.contains ':' then
    some (String.ofList (s.toList.takeWhile fun c => c ≠ ':'),
      String.ofList ((s.toList.dropWhile fun c => c ≠ ':').drop 1))
  else none

namespace Context

/-- A compact IRI whose prefix the context defines. -/
def expandPrefix (ctx : Context) (term : String) : Option String :=
  match splitColon term with
  | none => none
  | some (pre, localName) =>
    if pre ≠ "_" ∧ ¬ "//".toList <+: localName.toList then
      (ctx.terms.lookup pre).map fun d => d.id ++ localName
    else none

def expandTerm (ctx : Context) (term : String) : Option String :=
  if isKeyword term then some term
  else
    match ctx.terms.lookup term with
    | some d => some d.id
    | none =>
      match ctx.expandPrefix term with
      | some iri => some iri
      | none =>
        if isAbsoluteIri env term then some term
        else ctx.vocab.map fun vocab => vocab ++ term

end Context

/-- The same while a context is being built. -/
def expandIriInContext (s : String) (ctx : Context) : String := (ctx.expandTerm env s).getD s

/-- The base up to and with its last slash; all of it if there is none. -/
def stripLastSegment (base : String) : String :=
  let dir := base.toList.reverse.dropWhile fun c => c ≠ '/'
  if dir.isEmpty then base else String.ofList dir.reverse

def resolveIri (iri : String) (base : Option String) : String :=
  if isAbsoluteIri env iri then iri
  else
    match base with
    | some b => stripLastSegment b ++ iri
    | none => iri

section Extend

def containerType : String → ContainerType
  | "@set" => .set
  | "@list" => .list
  | "@language" => .language
  | "@index" => .index
  | "@id" => .id
  | "@type" => .type
  | "@graph" => .graph
  | _ => .default

/-- The container of a term definition: the first string, if there are several. -/
def containerOf : Option Value → ContainerType
  | some (.string c) => containerType c
  | some (.array items) => ((items.filterMap Value.asStr).head?.map containerType).getD .default
  | _ => .default

variable (ctx : Context)

def coercionOf : Option Value → TypeCoercion
  | some (.string "@id") | some (.string "@vocab") => .id
  | some (.string "@json") => .json
  | some (.string t) => .datatype (expandIriInContext env t ctx)
  | _ => .none

/-- A definition that is a plain IRI, or that removes the term. -/
def simpleTerm (field : String × Value) : Context :=
  if isKeyword field.1 then ctx
  else
    match field.2 with
    | .string iri =>
      let d : TermDef := ⟨expandIriInContext env iri ctx, .none, .default, none⟩
      { ctx with terms := ctx.terms.insert field.1 d }
    | .null => { ctx with terms := ctx.terms.erase field.1 }
    | _ => ctx

/-- The IRI of an object-form definition; none if the definition is to be left out. -/
def definedId (key : String) : Option Value → Except String (Option String)
  | some (.string s) => .ok (some (expandIriInContext env s ctx))
  | some .null => .ok none
  | none => .ok (some (expandIriInContext env key ctx))
  | some other => .error ("@id must be a string, got " ++ env.print other)

def objectTerm (field : String × Value) : Except String Context :=
  if isKeyword field.1 then .ok ctx
  else
    match field.2 with
    | .object d =>
      match definedId env ctx field.1 (d.lookup "@id") with
      | .error e => .error e
      | .ok none => .ok ctx
      | .ok (some id) =>
        let d : TermDef := ⟨id, coercionOf env ctx (d.lookup "@type"),
          containerOf (d.lookup "@container"), d.lookup "@context"⟩
        .ok { ctx with terms := ctx.terms.insert field.1 d }
    | _ => .ok ctx

def extendSettings (map : List (String × Value)) : Context :=
  { ctx with
    base := match map.lookup "@base" with
      | some (.string base) => some (resolveIri env base ctx.base)
      | _ => ctx.base
    vocab := match map.lookup "@vocab" with
      | some (.string vocab) => some (expandIriInContext env vocab ctx)
      | _ => ctx.vocab
    language := match map.lookup "@language" with
      | some (.string lang) => some lang
      | _ => ctx.language }

/-- Plain definitions come first, since the others may use them as prefixes. -/
def extendFromMap (map : List (String × Value)) : Except String Context :=
  map.foldlM (objectTerm env) (map.foldl (simpleTerm env) (extendSettings env ctx map))

/-- A context that is given by its address. There is no loader. -/
def extendFromUrl (url : String) : Except String Context :=
  match ctx.network with
  | .deny => .error ("External @context URL \"" ++ url ++ "\" was not fetched: remote network " ++
      "access is disabled. Configure with --network=allow to enable external context loading. " ++
      "See https://github.com/daghovland/rdf-datalog/issues/82")
  | .ignore => .ok ctx
  | .allow => .error ("External @context URL \"" ++ url ++ "\": NetworkPolicy::Allow requires a " ++
      "DocumentLoader. Use parse_jsonld_with_loader() to supply one. " ++
      "See https://github.com/daghovland/rdf-datalog/issues/82")
  | .allowList urlPrefixes =>
    if urlPrefixes.any fun p => p.toList.isPrefixOf url.toList then
      .error ("External @context URL \"" ++ url ++ "\": NetworkPolicy::Allow requires a " ++
        "DocumentLoader. Use parse_jsonld_with_loader() to supply one. " ++
        "See https://github.com/daghovland/rdf-datalog/issues/82")
    else
      .error ("External @context URL \"" ++ url ++ "\": URL is not in the configured allow-list")

mutual

/-- Process a context on top of the current one. -/
def extend (ctx : Context) : Value → Except String Context
  | .array items => extendAll ctx items
  | .object map => extendFromMap env ctx map
  | .string url => extendFromUrl ctx url
  | .null => .ok (Context.empty ctx.network)
  | .bool b => .error ("invalid @context value: " ++ env.print (.bool b))
  | .number text => .error ("invalid @context value: " ++ env.print (.number text))

def extendAll (ctx : Context) : List Value → Except String Context
  | [] => .ok ctx
  | item :: items =>
    match extend ctx item with
    | .error e => .error e
    | .ok ctx => extendAll ctx items

end

/-- The context of an object, on top of the current one. -/
def extendBy : Option Value → Except String Context
  | none => .ok ctx
  | some value => extend env ctx value

end Extend

end RdfDatalog.JsonLd
