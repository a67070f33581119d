import RdfDatalog.Rml.Translate

namespace RdfDatalog.Rml

variable {N : NativeTypes}

section Templates

/-- Unreserved bytes stay, every other byte is written as `%XX`. -/
def percentEncodeByte (byte : UInt8) : List Char :=
  let c := Char.ofNat byte.toNat
  if byte.toNat < 128 ∧ (c.isAlphanum ∨ c = '-' ∨ c = '.' ∨ c = '_' ∨ c = '~') then [c]
  else ['%', (Nat.digitChar (byte.toNat / 16)).toUpper, (Nat.digitChar (byte.toNat % 16)).toUpper]

def percentEncode (value : String) : String :=
  String.ofList ((value.toList.flatMap String.utf8EncodeChar).flatMap percentEncodeByte)

theorem length_tail_dropWhile_lt {c d : Char} {rest afterOpen : List Char} {p : Char → Bool}
    (h : rest.dropWhile p = d :: afterOpen) {rest' : List Char}
    (h' : afterOpen.dropWhile (· ≠ '\x7d') = c :: rest') : rest'.length < rest.length := by
  have hopen := congrArg List.length h
  have hclose := congrArg List.length h'
  have hle := (List.dropWhile_suffix p (l := rest)).length_le
  have hle' := (List.dropWhile_suffix (· ≠ '\x7d') (l := afterOpen)).length_le
  simp only [List.length_cons] at hopen hclose
  omega

/-- Replace the placeholders of a template by the values of the row. -/
def expandTemplate (template : List Char) (row : SourceRow) (encode : Bool) : Option String :=
  match _hopen : template.dropWhile (· ≠ '\x7b') with
  | [] => some (String.ofList template)
  | _ :: afterOpen =>
    match _hclose : afterOpen.dropWhile (· ≠ '\x7d') with
    | [] => none
    | _ :: rest => do
      let value ← row (String.ofList (afterOpen.takeWhile (· ≠ '\x7d')))
      let tail ← expandTemplate rest row encode
      return String.ofList (template.takeWhile (· ≠ '\x7b')) ++
        (if encode then percentEncode value else value) ++ tail
termination_by template.length
decreasing_by exact length_tail_dropWhile_lt _hopen _hclose

def isSchemeChar (c : Char) : Bool := c.isAlphanum || c = '+' || c = '-' || c = '.'

/-- The characters after the first one: up to a colon with something behind it. -/
def hasSchemeTail : List Char → Bool
  | [] => false
  | c :: cs => if c = ':' then !cs.isEmpty else isSchemeChar c && hasSchemeTail cs

def isValidIriScheme (s : String) : Bool :=
  match s.toList with
  | [] => false
  | c :: cs => c.isAlpha && hasSchemeTail cs

end Templates

/-- The case and whitespace functions of the string library. -/
structure StringFunctions where
  toUppercase : String → String
  toLowercase : String → String
  trim : String → String

def StringFunctions.apply (functions : StringFunctions) (f : BuiltinFunction) (input : String) :
    String :=
  match f with
  | .toUpperCase => functions.toUppercase input
  | .toLowerCase => functions.toLowercase input
  | .trim => functions.trim input

section Generation

variable (functions : StringFunctions)

/-- Intern the term with the given lexical form; an IRI needs a scheme. -/
def internTerm (ds : Datastore N) (termType : TermType) (language : Option String)
    (datatype : Option IriReference) (lexical : String) : Datastore N × Option GraphElementId :=
  match termType with
  | .iri =>
    if isValidIriScheme lexical then
      let (ds, id) := ds.addResource (.iri lexical)
      (ds, some id)
    else (ds, none)
  | .blankNode =>
    let (resources, id) := ds.resources.getOrCreateNamedAnonResource lexical
    ({ ds with resources }, some id)
  | .literal =>
    let lit : RdfLiteral N :=
      match language, datatype with
      | some lang, _ => .langLiteral lang lexical
      | none, some dt => .typedLiteral dt lexical
      | none, none => .literalString lexical
    let (ds, id) := ds.addResource (.graphLiteral lit)
    (ds, some id)

def evalParamSource (source : ParamSource N) (row : SourceRow) : Option String :=
  match source with
  | .template t => expandTemplate t.toList row false
  | .reference key => row key
  | .constant elem =>
    match elem with
    | .nodeOrEdge (.iri s) => some s
    | .graphLiteral (.literalString s) => some s
    | .graphLiteral (.typedLiteral _ literal) => some literal
    | .graphLiteral (.langLiteral _ literal) => some literal
    | _ => none

/-- Every built-in takes the value of the first parameter. -/
def evalFunctionCall (fc : FunctionCallLogic N) (row : SourceRow) (ds : Datastore N) :
    Datastore N × Option GraphElementId :=
  match fc.params.head? with
  | none => (ds, none)
  | some (_, source) =>
    match evalParamSource source row with
    | none => (ds, none)
    | some input =>
      let lexical := functions.apply fc.function input
      let lexical := if fc.termType = .iri then percentEncode lexical else lexical
      internTerm ds fc.termType fc.language fc.datatype lexical

def FormatFunction.lexical (ff : FormatFunction) (row : SourceRow) : Option String :=
  let encode := ff.termType = .iri
  match ff.pattern with
  | .template t => expandTemplate t.toList row encode
  | .reference key => (row key).map fun val => if encode then percentEncode val else val

def evalFormatFunction (ff : FormatFunction) (row : SourceRow) (ds : Datastore N) :
    Datastore N × Option GraphElementId :=
  match ff.lexical row with
  | none => (ds, none)
  | some lexical => internTerm ds ff.termType ff.language ff.datatype lexical

def evalLogic (logic : GenerationLogic N) (row : SourceRow) (ds : Datastore N) :
    Datastore N × Option GraphElementId :=
  match logic with
  | .constant elem =>
    let (ds, id) := ds.addResource elem
    (ds, some id)
  | .dynamic ff => evalFormatFunction ff row ds
  | .function fc => evalFunctionCall functions fc row ds

abbrev Attrs (N : NativeTypes) := List (OutputAttr × GenerationLogic N)

def evalAttr (attrs : Attrs N) (target : OutputAttr) (row : SourceRow) (ds : Datastore N) :
    Datastore N × Option GraphElementId :=
  match attrs.find? (·.1 = target) with
  | none => (ds, none)
  | some (_, logic) => evalLogic functions logic row ds

def emitTriple (s p o : GraphElementId) (graphId : Option GraphElementId) (ds : Datastore N) :
    Datastore N :=
  match graphId with
  | some g => ds.addQuad ⟨g, s, p, o⟩
  | none => ds.addQuad ⟨defaultGraphElementId, s, p, o⟩

/-- The object comes from the parent row, everything else from the child row. -/
def executeJoinRow (attrs : Attrs N) (childRow parentRow : SourceRow) (ds : Datastore N) :
    Datastore N :=
  let (ds, s) := evalAttr functions attrs .subject childRow ds
  let (ds, p) := evalAttr functions attrs .predicate childRow ds
  let (ds, o) := evalAttr functions attrs .object parentRow ds
  match s, p, o with
  | some s, some p, some o =>
    let (ds, graphId) := evalAttr functions attrs .graph childRow ds
    emitTriple s p o graphId ds
  | _, _, _ => ds

def executeRow (attrs : Attrs N) (row : SourceRow) (ds : Datastore N) : Datastore N :=
  let (ds, s) := evalAttr functions attrs .subject row ds
  let (ds, p) := evalAttr functions attrs .predicate row ds
  let (ds, o) := evalAttr functions attrs .object row ds
  match s, p, o with
  | some s, some p, some o =>
    let (ds, graphId) := evalAttr functions attrs .graph row ds
    emitTriple s p o graphId ds
  | _, _, _ => ds

end Generation

/-- What the sources hold: the rows of a scan, and what a database answers to the query that joins
two of its own queries, as pairs of a child row and a parent row. -/
structure Sources where
  scanRows : LogicalScan → Except RmlError (List SourceRow)
  runPushdown : SqlSourceRef → SqlSourceRef → List JoinCondition →
    Except RmlError (List (SourceRow × SourceRow))

section Execute

variable (functions : StringFunctions) (sources : Sources)

inductive JoinSide where
  | child
  | parent

def joinKey (conditions : List JoinCondition) (row : SourceRow) (side : JoinSide) :
    Option (List String) :=
  conditions.mapM fun c =>
    match side with
    | .child => row c.leftColumn
    | .parent => row c.rightColumn

/-- Rows without a key are left out. -/
def indexRow (conditions : List JoinCondition) (index : BucketIndex.Flat (List String) Nat)
    (entry : SourceRow × Nat) : BucketIndex.Flat (List String) Nat :=
  match joinKey conditions entry.1 .parent with
  | some key => index.push key entry.2
  | none => index

/-- The positions of the parent rows, by their join key. -/
def parentIndex (conditions : List JoinCondition) (parentRows : List SourceRow) :
    BucketIndex.Flat (List String) Nat :=
  parentRows.zipIdx.foldl (indexRow conditions) ∅

def probe (conditions : List JoinCondition) (parentRows : List SourceRow)
    (childRow : SourceRow) : List SourceRow :=
  match joinKey conditions childRow .child with
  | none => []
  | some key =>
    match (parentIndex conditions parentRows).lookup key with
    | none => []
    | some indices => indices.filterMap fun idx => parentRows[idx]?

def sqlSourceRef (plan : LogicalPlan N) : Except RmlError SqlSourceRef :=
  match plan with
  | .scan scan =>
    match scan.source with
    | .sql ref => .ok ref
    | .file _ => .error (.mappingParse "SqlPushdown join requires both sides to be SQL sources")
  | _ => .error (.mappingParse "SqlPushdown join requires both sides to be LogicalScan nodes")

def executeSqlPushdownJoin (attrs : Attrs N) (left right : LogicalPlan N)
    (conditions : List JoinCondition) (ds : Datastore N) : Except RmlError (Datastore N) := do
  let childRef ← sqlSourceRef left
  let parentRef ← sqlSourceRef right
  let rows ← sources.runPushdown childRef parentRef conditions
  return rows.foldl (fun ds row => executeJoinRow functions attrs row.1 row.2 ds) ds

def executeJoin (attrs : Attrs N) (left right : LogicalPlan N)
    (conditions : List JoinCondition) (algorithm : JoinAlgorithm) (ds : Datastore N) :
    Except RmlError (Datastore N) :=
  if algorithm = .sqlPushdown then
    executeSqlPushdownJoin functions sources attrs left right conditions ds
  else
    match left, right with
    | .scan leftScan, .scan rightScan => do
      let parentRows ← sources.scanRows rightScan
      let childRows ← sources.scanRows leftScan
      return childRows.foldl (fun ds childRow =>
        (probe conditions parentRows childRow).foldl
          (fun ds parentRow => executeJoinRow functions attrs childRow parentRow ds) ds) ds
    | _, _ => return ds

def executePlan (ds : Datastore N) (plan : LogicalPlan N) : Except RmlError (Datastore N) :=
  match plan with
  | .projection (.scan scan) attrs => do
    let rows ← sources.scanRows scan
    return rows.foldl (fun ds row => executeRow functions attrs row ds) ds
  | .projection (.join left right conditions algorithm) attrs =>
    executeJoin functions sources attrs left right conditions algorithm ds
  | _ => return ds

def execute (plans : List (LogicalPlan N)) (ds : Datastore N) : Except RmlError (Datastore N) :=
  plans.foldlM (executePlan functions sources) ds

end Execute

end RdfDatalog.Rml
