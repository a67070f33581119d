import RdfDatalog.Store.TermQuads

namespace RdfDatalog.Rml

inductive RmlError where
  | mappingParse (message : String)
  | unknownFunction (message : String)
  /-- What reading a source reports: a missing file, a malformed one, a failing database. -/
  | source (message : String)
  deriving DecidableEq

inductive SqlConnection where
  | sqlite (path : String)
  /-- The environment variable that holds the connection string. -/
  | postgres (varName : String)
  deriving DecidableEq

inductive SqlQuery where
  | table (name : String)
  | query (text : String)
  deriving DecidableEq

structure SqlSourceRef where
  connection : SqlConnection
  query : SqlQuery
  deriving DecidableEq

inductive LogicalSourceRef where
  | file (path : String)
  | sql (ref : SqlSourceRef)
  deriving DecidableEq

inductive ReferenceFormulation where
  | csv
  | jsonPath
  | xPath
  deriving DecidableEq

structure LogicalSource where
  source : LogicalSourceRef
  referenceFormulation : ReferenceFormulation
  iterator : Option String
  deriving DecidableEq

inductive TermType where
  | iri
  | blankNode
  | literal
  deriving DecidableEq

inductive TermMap (N : NativeTypes) where
  | template (template : String)
  | constant (elem : GraphElement N)
  | reference (reference : String)
  | functionCall (functionIri : IriReference) (parameters : List (IriReference × TermMap N))

structure GraphMap (N : NativeTypes) where
  termMap : TermMap N

structure SubjectMap (N : NativeTypes) where
  termMap : TermMap N
  termType : TermType
  classes : List IriReference
  graphMaps : List (GraphMap N)

structure JoinConditionRef where
  child : String
  parent : String
  deriving DecidableEq

structure ObjectMap (N : NativeTypes) where
  termMap : TermMap N
  termType : TermType
  language : Option String
  datatype : Option IriReference
  parentTriplesMap : Option IriReference
  joinConditions : List JoinConditionRef

structure PredicateObjectMap (N : NativeTypes) where
  predicateMaps : List (TermMap N × TermType)
  objectMaps : List (ObjectMap N)
  graphMaps : List (GraphMap N)

structure TriplesMap (N : NativeTypes) where
  id : IriReference
  logicalSource : LogicalSource
  subjectMap : SubjectMap N
  predicateObjectMaps : List (PredicateObjectMap N)

structure MappingDocument (N : NativeTypes) where
  triplesMaps : List (TriplesMap N)

/-- A row of a source: what a reference stands for, `none` where it is absent, null or empty. -/
abbrev SourceRow := String → Option String

end RdfDatalog.Rml

/-!
The RML dataset of a mapping document over sources that are lists of rows.
-/

namespace RdfDatalog.Rml

variable {N : NativeTypes}

/-- A generated term; a blank node is known by its label. -/
inductive RmlTerm (N : NativeTypes) where
  | iri (iri : IriReference)
  | blank (label : String)
  | literal (l : RdfLiteral N)
  deriving DecidableEq

structure RmlQuad (N : NativeTypes) where
  graph : RmlTerm N
  subject : RmlTerm N
  predicate : RmlTerm N
  obj : RmlTerm N
  deriving DecidableEq

section Naming

/-- The term, its blank nodes numbered by `ρ`. -/
def RmlTerm.toTerm (ρ : String → Nat) : RmlTerm N → RdfTerm N
  | .iri i => .iri i
  | .blank label => .blank (ρ label)
  | .literal l => .literal l

def RmlQuad.toQuad (ρ : String → Nat) (q : RmlQuad N) : TermQuad N :=
  ⟨q.graph.toTerm ρ, q.subject.toTerm ρ, q.predicate.toTerm ρ, q.obj.toTerm ρ⟩

def RmlTerm.labels : RmlTerm N → List String
  | .blank label => [label]
  | .iri _ | .literal _ => []

def RmlQuad.labels (q : RmlQuad N) : List String :=
  q.graph.labels ++ q.subject.labels ++ q.predicate.labels ++ q.obj.labels

end Naming

section Lexical

inductive TemplatePart where
  | text (s : List Char)
  | reference (name : List Char)
  deriving DecidableEq

mutual

/-- Read literal text up to the next brace; a backslash takes the next character as it is. -/
inductive ReadsText : List Char → List Char → List TemplatePart → Prop
  | done (acc : List Char) : ReadsText [] acc [.text acc]
  | escape {c : Char} {cs acc : List Char} {parts : List TemplatePart} :
    ReadsText cs (acc ++ [c]) parts → ReadsText ('\\' :: c :: cs) acc parts
  | openBrace {cs acc : List Char} {parts : List TemplatePart} :
    ReadsReference cs [] parts → ReadsText ('\x7b' :: cs) acc (.text acc :: parts)
  | char {c : Char} {cs acc : List Char} {parts : List TemplatePart} :
    c ≠ '\\' → c ≠ '\x7b' → ReadsText cs (acc ++ [c]) parts → ReadsText (c :: cs) acc parts

inductive ReadsReference : List Char → List Char → List TemplatePart → Prop
  | escape {c : Char} {cs acc : List Char} {parts : List TemplatePart} :
    ReadsReference cs (acc ++ [c]) parts → ReadsReference ('\\' :: c :: cs) acc parts
  | closeBrace {cs acc : List Char} {parts : List TemplatePart} :
    ReadsText cs [] parts → ReadsReference ('\x7d' :: cs) acc (.reference acc :: parts)
  | char {c : Char} {cs acc : List Char} {parts : List TemplatePart} :
    c ≠ '\\' → c ≠ '\x7d' → ReadsReference cs (acc ++ [c]) parts →
    ReadsReference (c :: cs) acc parts

end

def Reads (template : String) (parts : List TemplatePart) : Prop :=
  ReadsText template.toList [] parts

/-- The characters beyond ASCII that an IRI may hold as they are. -/
def IsUcschar (c : Char) : Prop :=
  let n := c.toNat
  (0xA0 ≤ n ∧ n ≤ 0xD7FF) ∨ (0xF900 ≤ n ∧ n ≤ 0xFDCF) ∨ (0xFDF0 ≤ n ∧ n ≤ 0xFFEF) ∨
    (0x10000 ≤ n ∧ n < 0xE0000 ∧ n % 0x10000 ≤ 0xFFFD) ∨ (0xE1000 ≤ n ∧ n ≤ 0xEFFFD)

def IsIunreserved (c : Char) : Prop :=
  c.isAlphanum ∨ c = '-' ∨ c = '.' ∨ c = '_' ∨ c = '~' ∨ IsUcschar c

instance : DecidablePred IsUcschar := fun c => by unfold IsUcschar; infer_instance

instance : DecidablePred IsIunreserved := fun c => by unfold IsIunreserved; infer_instance

def hexDigit (n : Nat) : Char := (Nat.digitChar n).toUpper

def iriSafe (value : String) : String :=
  String.ofList (value.toList.flatMap fun c =>
    if IsIunreserved c then [c]
    else (String.utf8EncodeChar c).flatMap fun byte =>
      ['%', hexDigit (byte.toNat / 16), hexDigit (byte.toNat % 16)])

def PartValue (termType : TermType) (row : SourceRow) : TemplatePart → String → Prop
  | .text s, value => value = String.ofList s
  | .reference name, value => ∃ v, row (String.ofList name) = some v ∧
      value = if termType = .iri then iriSafe v else v

/-- The template, its references replaced by their values. -/
def Expands (template : String) (termType : TermType) (row : SourceRow) (value : String) : Prop :=
  ∃ parts values, Reads template parts ∧ List.Forall₂ (PartValue termType row) parts values ∧
    value = String.join values

/-- A scheme, a colon and something behind it. -/
def IsAbsoluteIri (s : String) : Prop :=
  ∃ c cs d rest, s.toList = c :: cs ++ ':' :: d :: rest ∧ c.isAlpha = true ∧
    ∀ c' ∈ cs, c'.isAlphanum = true ∨ c' = '+' ∨ c' = '-' ∨ c' = '.'

/-- The term with the given lexical form. -/
inductive HasLexical (language : Option String) (datatype : Option IriReference)
    (lexical : String) : TermType → RmlTerm N → Prop
  | iri : IsAbsoluteIri lexical → HasLexical language datatype lexical .iri (.iri lexical)
  | blankNode : HasLexical language datatype lexical .blankNode (.blank lexical)
  | langLiteral (lang : String) : language = some lang →
    HasLexical language datatype lexical .literal (.literal (.langLiteral lang lexical))
  | typedLiteral (dt : IriReference) : language = none → datatype = some dt →
    HasLexical language datatype lexical .literal (.literal (.typedLiteral dt lexical))
  | plainLiteral : language = none → datatype = none →
    HasLexical language datatype lexical .literal (.literal (.literalString lexical))

end Lexical

section TermMaps

inductive TermMap.Generates (termType : TermType) (language : Option String)
    (datatype : Option IriReference) (row : SourceRow) : TermMap N → RmlTerm N → Prop
  | constantIri (i : IriReference) :
    Generates termType language datatype row (.constant (.iri i)) (.iri i)
  | constantLiteral (l : RdfLiteral N) :
    Generates termType language datatype row (.constant (.graphLiteral l)) (.literal l)
  | template {template value : String} {t : RmlTerm N} :
    Expands template termType row value → HasLexical language datatype value termType t →
    Generates termType language datatype row (.template template) t
  | reference {name value : String} {t : RmlTerm N} :
    row name = some value → HasLexical language datatype value termType t →
    Generates termType language datatype row (.reference name) t

abbrev Tables := LogicalSource → List SourceRow

def TriplesMap.SubjectOf (tm : TriplesMap N) (row : SourceRow) (t : RmlTerm N) : Prop :=
  tm.subjectMap.termMap.Generates tm.subjectMap.termType none none row t

/-- The two rows have the same value for every pair of columns. -/
def Joins (conditions : List JoinConditionRef) (childRow parentRow : SourceRow) : Prop :=
  ∀ c ∈ conditions, ∃ v, childRow c.child = some v ∧ parentRow c.parent = some v

/-- The objects of an object map: without join conditions a referencing object map takes the
parent's subject from the same row. -/
def ObjectMap.ObjectOf (mapping : MappingDocument N) (tables : Tables) (om : ObjectMap N)
    (row : SourceRow) (t : RmlTerm N) : Prop :=
  match om.parentTriplesMap with
  | none => om.termMap.Generates om.termType om.language om.datatype row t
  | some parentId => ∃ parent ∈ mapping.triplesMaps, parent.id = parentId ∧
      ((om.joinConditions = [] ∧ parent.SubjectOf row t) ∨
        (om.joinConditions ≠ [] ∧ ∃ parentRow ∈ tables parent.logicalSource,
          Joins om.joinConditions row parentRow ∧ parent.SubjectOf parentRow t))

def rmlDefaultGraph : IriReference := "http://w3id.org/rml/defaultGraph"

def defaultGraphTerm : RmlTerm N := .iri defaultGraphIri

/-- The graph of that name; one name stands for the default graph. -/
def RmlTerm.asGraph (t : RmlTerm N) : RmlTerm N :=
  if t = .iri rmlDefaultGraph then defaultGraphTerm else t

def GraphOf (graphMaps : List (GraphMap N)) (row : SourceRow) (g : RmlTerm N) : Prop :=
  (graphMaps = [] ∧ g = defaultGraphTerm) ∨
    ∃ gm ∈ graphMaps, ∃ t, gm.termMap.Generates .iri none none row t ∧ g = t.asGraph

end TermMaps

section Dataset

variable (mapping : MappingDocument N) (tables : Tables)

def PairQuad (tm : TriplesMap N) (row : SourceRow) (q : RmlQuad N) : Prop :=
  ∃ pom ∈ tm.predicateObjectMaps,
    (∃ pm ∈ pom.predicateMaps, pm.1.Generates pm.2 none none row q.predicate) ∧
    (∃ om ∈ pom.objectMaps, om.ObjectOf mapping tables row q.obj) ∧
    GraphOf (tm.subjectMap.graphMaps ++ pom.graphMaps) row q.graph

def ClassQuad (tm : TriplesMap N) (row : SourceRow) (q : RmlQuad N) : Prop :=
  (∃ classIri ∈ tm.subjectMap.classes, q.obj = .iri classIri) ∧
    q.predicate = .iri "http://www.w3.org/1999/02/22-rdf-syntax-ns#type" ∧
    GraphOf tm.subjectMap.graphMaps row q.graph

def rmlDataset : Set (RmlQuad N) :=
  {q | ∃ tm ∈ mapping.triplesMaps, ∃ row ∈ tables tm.logicalSource,
    tm.SubjectOf row q.subject ∧ (PairQuad mapping tables tm row q ∨ ClassQuad tm row q)}

end Dataset

end RdfDatalog.Rml
