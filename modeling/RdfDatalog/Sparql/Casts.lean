import RdfDatalog.Sparql.AggregateSubstitution
import RdfDatalog.Sparql.Functions
import RdfDatalog.Sparql.OrderBy

namespace RdfDatalog.Sparql

open BinaryFloat Numerals

variable {N : NativeTypes}

/-- A number of up to 96 bits with up to 28 decimals. -/
def Representable (x : ℚ) : Prop := ∃ k < 29, (x * 10 ^ k).isInt = true ∧ |x * 10 ^ k| < 2 ^ 96

/-- The decimal library: its numbers have up to 96 bits and a scale. -/
structure DecimalReading (N : NativeTypes) extends ValueReading N where
  parseDecimal : String → Option N.Decimal
  fromU8 : Bool → N.Decimal
  f64Text : BinaryFloat.Value → String
  parseDatetimeOrDateLexical : String → Option N.DateTime
  toRfc3339 : N.DateTime → String
  /-- A decimal prints as a numeral, and is read back from it. -/
  prints (d : N.Decimal) : (decimalValue (N.decimalText d).toList).isSome
  representable (d : N.Decimal) {x : ℚ} : decimalValue (N.decimalText d).toList = some x →
    Representable x
  parse_text (d : N.Decimal) : parseDecimal (N.decimalText d) = some d
  fromU8_value (b : Bool) :
    decimalValue (N.decimalText (fromU8 b)).toList = some (if b then 1 else 0)
  /-- An integer is read exactly or, when it is too long, not at all. -/
  parse_integer {s : String} {n : ℤ} {d : N.Decimal} : integerValue s.toList = some n →
    parseDecimal s = some d → decimalValue (N.decimalText d).toList = some (n : ℚ)
  /-- Only what does not fit is rounded. -/
  parse_exact {s : String} {x : ℚ} {d : N.Decimal} : decimalValue s.toList = some x →
    Representable x → parseDecimal s = some d → decimalValue (N.decimalText d).toList = some x

def typed (typeIri : IriReference) (literal : String) : GraphElement N :=
  .graphLiteral (.typedLiteral typeIri literal)

def parseXsdIntegerLexical (s : String) : Option ℤ := integerValue (trim s.toList)

/-- Parse an `xsd:double` lexical form, with `INF`, `-INF` and `NaN`. -/
def parseXsdDoubleLexical (s : String) : Option BinaryFloat.Value :=
  match String.ofList (trim s.toList) with
  | "INF" | "+INF" => some (.number ((⊤ : WithTop ℚ) : WithBot _))
  | "-INF" => some (.number ⊥)
  | "NaN" => some .nan
  | other => parseF64 other

def maxI64 : ℤ := 2 ^ 63 - 1

def minI64 : ℤ := -2 ^ 63

/-- `as i64`, which saturates. -/
def clampI64 (n : ℤ) : ℤ := max minI64 (min maxI64 n)

namespace DecimalReading

variable (reading : DecimalReading N)

/-- Cast to `xsd:string`: the lexical form of the literal. -/
def castToXsdString : GraphElement N → Option (GraphElement N)
  | .graphLiteral lit =>
    let s : Option String :=
      match lit with
      | .literalString s => some s
      | .langLiteral _ literal => some literal
      | .typedLiteral _ literal => some literal
      | .booleanLiteral b => some (toString b)
      | .integerLiteral n => some (toString n)
      | .decimalLiteral d => some (N.decimalText d)
      | .doubleLiteral d => some (reading.f64Text (reading.floatValue d))
      | .floatLiteral f => some (reading.f64Text (reading.floatValue f))
      | _ => none
    s.map fun s => .graphLiteral (.literalString s)
  | _ => none

/-- Whether a number counts as true: it is neither zero nor a NaN. -/
def truthOfNumber (f : BinaryFloat.Value) : Bool :=
  decide (f ≠ .nan ∧ f ≠ .number ((0 : WithTop ℚ) : WithBot _))

def castToXsdBoolean : GraphElement N → Option (GraphElement N)
  | .graphLiteral lit =>
    let b : Option Bool :=
      match lit with
      | .booleanLiteral b => some b
      | .literalString s => parseXsdBooleanLexical s
      | .langLiteral _ literal => parseXsdBooleanLexical literal
      | .typedLiteral typeIri literal =>
        if typeIri = xsdBoolean ∨ typeIri = xsdString then parseXsdBooleanLexical literal
        else (reading.literalToF64 lit).map truthOfNumber
      | _ => (reading.literalToF64 lit).map truthOfNumber
    b.map fun b => typed xsdBoolean (toString b)
  | _ => none

def integerOfNumber (f : BinaryFloat.Value) : Option ℤ :=
  f.finite?.map fun x => clampI64 (truncate x)

/-- Cast to `xsd:integer`: a number is truncated toward zero. -/
def castToXsdInteger : GraphElement N → Option (GraphElement N)
  | .graphLiteral lit =>
    let n : Option ℤ :=
      match lit with
      | .integerLiteral n => some n
      | .booleanLiteral b => some (if b then 1 else 0)
      | .literalString s => parseXsdIntegerLexical s
      | .langLiteral _ literal => parseXsdIntegerLexical literal
      | .typedLiteral typeIri literal =>
        if typeIri = xsdBoolean then
          (parseXsdBooleanLexical literal).map fun b => if b then 1 else 0
        else if typeIri = xsdInteger ∨ typeIri = xsdString then parseXsdIntegerLexical literal
        else (reading.literalToF64 lit).bind integerOfNumber
      | _ => (reading.literalToF64 lit).bind integerOfNumber
    n.map fun n => numericLitToElement (.integer n)
  | _ => none

/-- A text without the blanks around it, as a decimal. -/
def parseTrimmed (s : String) : Option N.Decimal :=
  reading.parseDecimal (String.ofList (trim s.toList))

def decimalOfNumber (f : BinaryFloat.Value) : Option N.Decimal :=
  if f.finite?.isSome then reading.parseDecimal (reading.f64Text f) else none

def castToXsdDecimal : GraphElement N → Option (GraphElement N)
  | .graphLiteral lit =>
    let d : Option N.Decimal :=
      match lit with
      | .decimalLiteral d => some d
      | .integerLiteral n => reading.parseDecimal (toString n)
      | .booleanLiteral b => some (reading.fromU8 b)
      | .literalString s => reading.parseTrimmed s
      | .langLiteral _ literal => reading.parseTrimmed literal
      | .typedLiteral typeIri literal =>
        if typeIri = xsdBoolean then (parseXsdBooleanLexical literal).map reading.fromU8
        else if typeIri = xsdDecimal ∨ typeIri = xsdInteger ∨ typeIri = xsdString then
          reading.parseTrimmed literal
        else (reading.literalToF64 lit).bind reading.decimalOfNumber
      | _ => (reading.literalToF64 lit).bind reading.decimalOfNumber
    d.map fun d => numericLitToElement (.decimal d)
  | _ => none

/-- The number for a cast to `xsd:double` or `xsd:float`. -/
def extractF64ForCast : GraphElement N → Option BinaryFloat.Value
  | .graphLiteral lit =>
    let bit (b : Bool) : BinaryFloat.Value := .number (binary64.rounded (if b then 1 else 0))
    match lit with
    | .booleanLiteral b => some (bit b)
    | .literalString s => parseXsdDoubleLexical s
    | .langLiteral _ literal => parseXsdDoubleLexical literal
    | .typedLiteral typeIri literal =>
      if typeIri = xsdBoolean then (parseXsdBooleanLexical literal).map bit
      else parseXsdDoubleLexical literal
    | _ => reading.literalToF64 lit
  | _ => none

def castToXsdDouble (el : GraphElement N) : Option (GraphElement N) :=
  (reading.extractF64ForCast el).map fun f => typed xsdDouble (reading.f64Text f)

def castToXsdFloat (el : GraphElement N) : Option (GraphElement N) :=
  (reading.extractF64ForCast el).map fun f => typed xsdFloat (reading.f64Text f)

def castToXsdDatetime : GraphElement N → Option (GraphElement N)
  | .graphLiteral lit =>
    let dt : Option N.DateTime :=
      match lit with
      | .dateTimeLiteral dt => some dt
      | .literalString s => reading.parseDatetimeOrDateLexical s
      | .langLiteral _ literal => reading.parseDatetimeOrDateLexical literal
      | .typedLiteral typeIri literal =>
        if typeIri = xsdDateTime ∨ typeIri = xsdDate ∨ typeIri = xsdString then
          reading.parseDatetimeOrDateLexical literal
        else none
      | _ => none
    dt.map fun dt => typed xsdDateTime (reading.toRfc3339 dt)
  | _ => none

def evalXsdCast (targetIri : IriReference) (el : GraphElement N) : Option (GraphElement N) :=
  if targetIri = xsdString then reading.castToXsdString el
  else if targetIri = xsdBoolean then reading.castToXsdBoolean el
  else if targetIri = xsdInteger then reading.castToXsdInteger el
  else if targetIri = xsdDecimal then reading.castToXsdDecimal el
  else if targetIri = xsdDouble then reading.castToXsdDouble el
  else if targetIri = xsdFloat then reading.castToXsdFloat el
  else if targetIri = xsdDateTime then reading.castToXsdDatetime el
  else none

end DecimalReading

section Values

inductive ExactType where
  | integer
  | decimal
  | boolean
  | string

def ExactType.iri : ExactType → IriReference
  | integer => xsdInteger
  | decimal => xsdDecimal
  | boolean => xsdBoolean
  | string => xsdString

/-- A value of an exact type. -/
inductive XsdValue where
  | integer (n : ℤ)
  | decimal (x : ℚ)
  | boolean (b : Bool)
  | string (s : String)

def isXmlBlank (c : Char) : Bool := c = ' ' ∨ c = '\t' ∨ c = '\n' ∨ c = '\r'

/-- A text without the XML blanks around it. -/
def collapse (s : String) : List Char := (s.toList.dropWhile isXmlBlank).rdropWhile isXmlBlank

/-- The lexical forms of `xsd:boolean`. -/
def booleanValue (s : List Char) : Option Bool :=
  match String.ofList s with
  | "true" | "1" => some true
  | "false" | "0" => some false
  | _ => none

/-- The value of a literal of an exact type, if its lexical form is valid. -/
def denotes : GraphElement N → Option XsdValue
  | .graphLiteral (.integerLiteral n) => some (.integer n)
  | .graphLiteral (.decimalLiteral d) => (decimalValue (N.decimalText d).toList).map .decimal
  | .graphLiteral (.booleanLiteral b) => some (.boolean b)
  | .graphLiteral (.literalString s) => some (.string s)
  | .graphLiteral (.typedLiteral typeIri literal) =>
    if typeIri = xsdInteger then (integerValue literal.toList).map .integer
    else if typeIri = xsdDecimal then (decimalValue literal.toList).map .decimal
    else if typeIri = xsdBoolean then (booleanValue literal.toList).map .boolean
    else if typeIri = xsdString then some (.string literal)
    else none
  | _ => none

/-- The canonical numerals: no plus sign, no superfluous zeros, no point without a fraction. -/
def CanonicalNumeral (s : List Char) : Prop :=
  let (negative, digits) := splitSign s
  let whole := digits.takeWhile Char.isDigit
  s.head? ≠ some '+' ∧ (whole = ['0'] ∨ whole ≠ [] ∧ whole.head? ≠ some '0') ∧
    match digits.dropWhile Char.isDigit with
    | [] => ¬(negative = true ∧ whole = ['0'])
    | _ :: fraction => fraction ≠ [] ∧ fraction.getLast? ≠ some '0'

/-- The casting rules of XPath between the exact types; a string without the right form has no
value in another type. -/
def Prescribes : ExactType → XsdValue → XsdValue → Prop
  | .integer, .integer n, w => w = .integer n
  | .integer, .decimal x, w => w = .integer (truncate x)
  | .integer, .boolean b, w => w = .integer (if b then 1 else 0)
  | .integer, .string s, w => ∃ n, integerValue (collapse s) = some n ∧ w = .integer n
  | .decimal, .integer n, w => w = .decimal n
  | .decimal, .decimal x, w => w = .decimal x
  | .decimal, .boolean b, w => w = .decimal (if b then 1 else 0)
  | .decimal, .string s, w => ∃ x, decimalValue (collapse s) = some x ∧ w = .decimal x
  | .boolean, .integer n, w => w = .boolean (n ≠ 0)
  | .boolean, .decimal x, w => w = .boolean (x ≠ 0)
  | .boolean, .boolean b, w => w = .boolean b
  | .boolean, .string s, w => ∃ b, booleanValue (collapse s) = some b ∧ w = .boolean b
  | .string, .integer n, w => w = .string (toString n)
  | .string, .decimal x, w =>
    ∃ s, CanonicalNumeral s.toList ∧ decimalValue s.toList = some x ∧ w = .string s
  | .string, .boolean b, w => w = .string (toString b)
  | .string, .string s, w => w = .string s

end Values

section Trim

theorem not_isWhitespace_of_isDigit {c : Char} (h : c.isDigit) : isWhitespace c = false := by
  rw [Char.isDigit, Bool.and_eq_true, decide_eq_true_eq, decide_eq_true_eq] at h
  have hleft : 48 ≤ c.toNat := UInt32.le_iff_toNat_le.mp h.1
  have hright : c.toNat ≤ 57 := UInt32.le_iff_toNat_le.mp h.2
  simp only [isWhitespace, decide_eq_false_iff_not]
  omega

variable {s : List Char}

theorem trim_of_no_blanks (h : ∀ c ∈ s, isWhitespace c = false) : trim s = s := by
  have hleft : s.dropWhile isWhitespace = s := by
    cases s with
    | nil => rfl
    | cons c s => rw [List.dropWhile_cons_of_neg (by simp [h c (.head _)])]
  rw [trim, hleft]
  refine List.rdropWhile_eq_self_iff.mpr fun hne => ?_
  simp [h _ (List.getLast_mem hne)]

theorem trim_of_decimalValue {x : ℚ} (h : decimalValue s = some x) :
    trim s = s := by
  refine trim_of_no_blanks fun c hc => ?_
  rcases mem_of_decimalValue h c hc with hc | rfl | rfl | rfl
  · exact not_isWhitespace_of_isDigit hc
  all_goals decide

theorem trim_of_integerValue {n : ℤ} (h : integerValue s = some n) : trim s = s :=
  trim_of_decimalValue (decimalValue_of_integerValue h)

theorem isWhitespace_of_isXmlBlank {c : Char} (h : isXmlBlank c) : isWhitespace c := by
  simp only [isXmlBlank, decide_eq_true_eq] at h
  rcases h with rfl | rfl | rfl | rfl <;> decide

/-- The trim takes off the blanks of XML, and others. -/
theorem trim_collapse (s : String) : trim (collapse s) = trim s.toList := by
  have hdrop (u : List Char) : (u.dropWhile isXmlBlank).dropWhile isWhitespace =
      u.dropWhile isWhitespace := by
    induction u with
    | nil => rfl
    | cons c u ih =>
      by_cases hc : isXmlBlank c
      · rw [List.dropWhile_cons_of_pos hc,
          List.dropWhile_cons_of_pos (isWhitespace_of_isXmlBlank hc),
          ih]
      · rw [List.dropWhile_cons_of_neg hc]
  rw [trim, trim, ← hdrop s.toList, collapse]
  induction s.toList.dropWhile isXmlBlank using List.reverseRecOn with
  | nil => rfl
  | append_singleton u c ih =>
    by_cases hc : isXmlBlank c
    · have hblank := isWhitespace_of_isXmlBlank hc
      rw [List.rdropWhile_concat_pos _ _ _ hc, ih, List.dropWhile_append]
      split_ifs with hnil
      · rw [List.isEmpty_iff.mp hnil, List.dropWhile_cons_of_pos hblank, List.dropWhile_nil]
      · rw [List.rdropWhile_concat_pos _ _ _ hblank]
    · rw [List.rdropWhile_concat_neg _ _ _ hc]

/-- A text whose value is in its collapsed form has it in its trimmed form. -/
theorem collapse_of_decimalValue {s : String} {x : ℚ} (h : decimalValue (collapse s) = some x) :
    collapse s = trim s.toList := by
  rw [← trim_collapse, trim_of_decimalValue h]

theorem trim_of_booleanValue {b : Bool} (h : booleanValue s = some b) :
    trim s = s := by
  have hof : booleanValue (String.ofList s).toList = some b := by rwa [String.toList_ofList]
  rw [← String.toList_ofList (l := s)]
  generalize String.ofList s = t at hof ⊢
  rw [booleanValue, String.ofList_toList] at hof
  split at hof <;> first | decide | cases hof

theorem parseXsdBooleanLexical_eq (s : String) :
    parseXsdBooleanLexical s = booleanValue (trim s.toList) :=
  rfl

theorem parseXsdBooleanLexical_of_booleanValue {s : String} {b : Bool}
    (h : booleanValue s.toList = some b) : parseXsdBooleanLexical s = some b := by
  rw [parseXsdBooleanLexical_eq, trim_of_booleanValue h, h]

theorem collapse_of_booleanValue {s : String} {b : Bool} (h : booleanValue (collapse s) = some b) :
    collapse s = trim s.toList := by
  rw [← trim_collapse, trim_of_booleanValue h]

/-- The forms of a text in XML and in the code are one if the trimmed text has a value. -/
theorem read_eq_iff {α : Type} {read : List Char → Option α} {s : String}
    (h : ∀ a, read (collapse s) = some a → collapse s = trim s.toList) :
    (∀ a, read (trim s.toList) = some a → read (collapse s) = some a) ↔
      ((read (trim s.toList)).isSome → collapse s = trim s.toList) := by
  constructor
  · intro hkeeps hsome
    obtain ⟨a, ha⟩ := Option.isSome_iff_exists.mp hsome
    exact h a (hkeeps a ha)
  · intro hsame a ha
    rw [hsame (by rw [ha]; rfl)]
    exact ha

end Trim

namespace DecimalReading

variable {reading : DecimalReading N} {e r : GraphElement N} {ty : ExactType} {v : XsdValue}

/-- The number of a decimal. -/
def valueOf (reading : DecimalReading N) (d : N.Decimal) : ℚ :=
  (decimalValue (N.decimalText d).toList).get (reading.prints d)

theorem decimalValue_text (d : N.Decimal) :
    decimalValue (N.decimalText d).toList = some (reading.valueOf d) :=
  (Option.some_get _).symm

section Results

@[simp]
theorem xsd_ne : (xsdString ≠ xsdBoolean ∧ xsdString ≠ xsdInteger ∧ xsdString ≠ xsdDecimal) ∧
    (xsdBoolean ≠ xsdString ∧ xsdInteger ≠ xsdString ∧ xsdDecimal ≠ xsdString) ∧
    xsdInteger ≠ xsdBoolean ∧ xsdDecimal ≠ xsdBoolean ∧ xsdDecimal ≠ xsdInteger ∧
    xsdBoolean ≠ xsdInteger ∧ xsdBoolean ≠ xsdDecimal := by
  decide

theorem evalXsdCast_iri (ty : ExactType) (e : GraphElement N) : reading.evalXsdCast ty.iri e =
    match ty with
    | .integer => reading.castToXsdInteger e
    | .decimal => reading.castToXsdDecimal e
    | .boolean => reading.castToXsdBoolean e
    | .string => reading.castToXsdString e := by
  cases ty <;> simp [ExactType.iri, evalXsdCast]

@[simp]
theorem denotes_integer (n : ℤ) :
    denotes (numericLitToElement (.integer n) : GraphElement N) = some (.integer n) := by
  rw [numericLitToElement, denotes, if_pos rfl, integerValue_toString]
  rfl

theorem denotes_decimal (reading : DecimalReading N) (d : N.Decimal) :
    denotes (numericLitToElement (.decimal d)) = some (.decimal (reading.valueOf d)) := by
  simp [denotes, numericLitToElement, reading.decimalValue_text]

theorem booleanValue_toString (b : Bool) : booleanValue (toString b).toList = some b := by
  cases b <;> decide

@[simp]
theorem denotes_boolean (b : Bool) :
    denotes (.graphLiteral (.typedLiteral xsdBoolean (toString b)) : GraphElement N) =
      some (.boolean b) := by
  simp [denotes, booleanValue_toString]

@[simp]
theorem denotes_string (s : String) :
    denotes (.graphLiteral (.literalString s) : GraphElement N) = some (.string s) :=
  rfl

end Results

section Sources

/-- The ways in which a literal of an exact type is stored, with its value and its text. -/
inductive Source : GraphElement N → XsdValue → String → Prop
  | integerLiteral (n : ℤ) : Source (.graphLiteral (.integerLiteral n)) (.integer n) (toString n)
  | decimalLiteral (d : N.Decimal) {x : ℚ} : decimalValue (N.decimalText d).toList = some x →
    Source (.graphLiteral (.decimalLiteral d)) (.decimal x) (N.decimalText d)
  | booleanLiteral (b : Bool) :
    Source (.graphLiteral (.booleanLiteral b)) (.boolean b) (toString b)
  | literalString (s : String) : Source (.graphLiteral (.literalString s)) (.string s) s
  | typedInteger {s : String} {n : ℤ} : integerValue s.toList = some n →
    Source (typed xsdInteger s) (.integer n) s
  | typedDecimal {s : String} {x : ℚ} : decimalValue s.toList = some x →
    Source (typed xsdDecimal s) (.decimal x) s
  | typedBoolean {s : String} {b : Bool} : booleanValue s.toList = some b →
    Source (typed xsdBoolean s) (.boolean b) s
  | typedString (s : String) : Source (typed xsdString s) (.string s) s

theorem exists_source (h : denotes e = some v) : ∃ s, Source e v s := by
  cases e with
  | nodeOrEdge r => cases h
  | tripleTerm k => cases h
  | graphLiteral lit =>
    cases lit with
    | integerLiteral n => cases h; exact ⟨_, .integerLiteral n⟩
    | booleanLiteral b => cases h; exact ⟨_, .booleanLiteral b⟩
    | literalString s => cases h; exact ⟨_, .literalString s⟩
    | decimalLiteral d =>
      obtain ⟨x, hx, rfl⟩ := Option.map_eq_some_iff.mp h
      exact ⟨_, .decimalLiteral d hx⟩
    | typedLiteral typeIri literal =>
      rw [denotes] at h
      split_ifs at h with hint hdec hbool hstr
      · subst hint
        obtain ⟨n, hn, rfl⟩ := Option.map_eq_some_iff.mp h
        exact ⟨_, .typedInteger hn⟩
      · subst hdec
        obtain ⟨x, hx, rfl⟩ := Option.map_eq_some_iff.mp h
        exact ⟨_, .typedDecimal hx⟩
      · subst hbool
        obtain ⟨b, hb, rfl⟩ := Option.map_eq_some_iff.mp h
        exact ⟨_, .typedBoolean hb⟩
      · subst hstr
        cases h
        exact ⟨_, .typedString literal⟩
    | _ => cases h

variable {s : String}

theorem Source.text (h : Source e v s) : graphElementToString e = some s := by
  cases h <;> rfl

theorem Source.denotes (h : Source e v s) : denotes e = some v := by
  cases h <;> simp [Sparql.denotes, typed, *]

theorem Source.integer {n : ℤ} (h : Source e (.integer n) s) : integerValue s.toList = some n := by
  cases h with
  | integerLiteral => exact integerValue_toString n
  | typedInteger hn => exact hn

theorem Source.decimal {x : ℚ} (h : Source e (.decimal x) s) : decimalValue s.toList = some x := by
  cases h with
  | decimalLiteral d hx => exact hx
  | typedDecimal hx => exact hx

theorem Source.string {t : String} (h : Source e (.string t) s) : s = t := by
  cases h <;> rfl

theorem Source.exactNumber {x : ℚ} (h : Source e v s)
    (hx : v = .decimal x ∨ ∃ n : ℤ, v = .integer n ∧ x = n) :
    ValueReading.exactNumber e = some x := by
  have hne : xsdDecimal ≠ xsdInteger := by decide
  cases h with
  | integerLiteral | decimalLiteral | typedInteger | typedDecimal =>
    simp_all [ValueReading.exactNumber, typed]
  | booleanLiteral | literalString | typedBoolean | typedString => simp at hx

/-- The value that a cast reads from a value and its text. -/
def readAs (reading : DecimalReading N) : ExactType → XsdValue → String → Option XsdValue
  | .integer, .integer n, _ => some (.integer n)
  | .integer, .decimal x, _ => (integerOfNumber (.number (binary64.rounded x))).map .integer
  | .integer, .boolean b, _ => some (.integer (if b then 1 else 0))
  | .integer, .string s, _ => (parseXsdIntegerLexical s).map .integer
  | .decimal, .boolean b, _ => some (.decimal (reading.valueOf (reading.fromU8 b)))
  | .decimal, _, s => (reading.parseTrimmed s).map fun d => .decimal (reading.valueOf d)
  | .boolean, .integer n, _ => some (.boolean (truthOfNumber (.number (binary64.rounded n))))
  | .boolean, .decimal x, _ => some (.boolean (truthOfNumber (.number (binary64.rounded x))))
  | .boolean, .boolean b, _ => some (.boolean b)
  | .boolean, .string s, _ => (parseXsdBooleanLexical s).map .boolean
  | .string, _, s => some (.string s)

theorem literalToF64_of_source {x : ℚ} {lit : RdfLiteral N} (h : Source (.graphLiteral lit) v s)
    (hx : v = .decimal x ∨ ∃ n : ℤ, v = .integer n ∧ x = n) :
    reading.literalToF64 lit = some (.number (binary64.rounded x)) :=
  ValueReading.numberOf_of_exactNumber (h.exactNumber hx)

theorem parseTrimmed_of_decimalValue {x : ℚ} (h : decimalValue s.toList = some x) :
    reading.parseTrimmed s = reading.parseDecimal s := by
  rw [parseTrimmed, trim_of_decimalValue h, String.ofList_toList]

/-- A cast has the value that it reads. -/
theorem denotes_cast (h : Source e v s) (ty : ExactType) :
    (reading.evalXsdCast ty.iri e).map denotes = (reading.readAs ty v s).map some := by
  have hdecimal := reading.denotes_decimal
  rw [evalXsdCast_iri]
  cases h with
  | integerLiteral n =>
    have hread := reading.literalToF64_of_source (.integerLiteral n) (.inr ⟨n, rfl, rfl⟩)
    have htrim : reading.parseTrimmed n.repr = reading.parseDecimal n.repr :=
      parseTrimmed_of_decimalValue (decimalValue_of_integerValue (integerValue_toString n))
    cases ty <;> simp [typed, castToXsdInteger, castToXsdDecimal, castToXsdBoolean, castToXsdString,
      readAs, Function.comp_def, *]
  | decimalLiteral d hx =>
    have hread := reading.literalToF64_of_source (.decimalLiteral d hx) (.inl rfl)
    have htrim := reading.parseTrimmed_of_decimalValue hx
    have htext := reading.parse_text d
    cases ty <;> simp [typed, castToXsdInteger, castToXsdDecimal, castToXsdBoolean, castToXsdString,
      readAs, Function.comp_def, *]
  | typedInteger hn =>
    have hread := reading.literalToF64_of_source (.typedInteger hn) (.inr ⟨_, rfl, rfl⟩)
    have hlexical := (congrArg integerValue (trim_of_integerValue hn)).trans hn
    rw [← parseXsdIntegerLexical] at hlexical
    cases ty <;> simp [typed, castToXsdInteger, castToXsdDecimal, castToXsdBoolean, castToXsdString,
      readAs, Function.comp_def, *]
  | typedDecimal hx =>
    have hread := reading.literalToF64_of_source (.typedDecimal hx) (.inl rfl)
    cases ty <;> simp [typed, castToXsdInteger, castToXsdDecimal, castToXsdBoolean, castToXsdString,
      readAs, Function.comp_def, *]
  | typedBoolean hb =>
    have hread := parseXsdBooleanLexical_of_booleanValue hb
    cases ty <;> simp [typed, castToXsdInteger, castToXsdDecimal, castToXsdBoolean, castToXsdString,
      readAs, *]
  | booleanLiteral | literalString | typedString =>
    cases ty <;> simp [typed, castToXsdInteger, castToXsdDecimal, castToXsdBoolean, castToXsdString,
      readAs, Function.comp_def, *]

end Sources

section Exact

/-- A cast of `e` fails or has the prescribed value. -/
def KeepsValue (reading : DecimalReading N) (ty : ExactType) (e : GraphElement N) : Prop :=
  ∀ r v, reading.evalXsdCast ty.iri e = some r → denotes e = some v →
    ∃ w, denotes r = some w ∧ Prescribes ty v w

variable {s : String}

/-- A cast keeps a value iff it reads what is prescribed. -/
theorem keepsValue_iff (h : Source e v s) : reading.KeepsValue ty e ↔
    ∀ w, reading.readAs ty v s = some w → Prescribes ty v w := by
  have hcast := reading.denotes_cast h ty
  constructor
  · intro hkeeps w hw
    rw [hw] at hcast
    obtain ⟨r, hr, hrw⟩ := Option.map_eq_some_iff.mp hcast
    obtain ⟨w', hw', hprescribed⟩ := hkeeps r v hr h.denotes
    cases hrw.symm.trans hw'
    exact hprescribed
  · intro hread r v' hr hv'
    cases h.denotes.symm.trans hv'
    rw [hr] at hcast
    obtain ⟨w, hw, hrw⟩ := Option.map_eq_some_iff.mp hcast.symm
    exact ⟨w, hrw.symm, hread w hw⟩

theorem evalXsdCast_again (h : reading.evalXsdCast ty.iri e = some r) :
    reading.evalXsdCast ty.iri r = some r := by
  rw [evalXsdCast_iri] at h ⊢
  cases e with
  | nodeOrEdge | tripleTerm => cases ty <;> cases h
  | graphLiteral lit =>
    cases ty with
    | integer =>
      obtain ⟨n, -, rfl⟩ := Option.map_eq_some_iff.mp h
      have htrim := trim_of_integerValue (integerValue_toString n)
      simp only [castToXsdInteger, numericLitToElement, parseXsdIntegerLexical, htrim,
        integerValue_toString]
      simp
    | decimal =>
      obtain ⟨d, -, rfl⟩ := Option.map_eq_some_iff.mp h
      have htrim := reading.parseTrimmed_of_decimalValue (reading.decimalValue_text d)
      simp [castToXsdDecimal, numericLitToElement, htrim, reading.parse_text]
    | boolean =>
      obtain ⟨b, -, rfl⟩ := Option.map_eq_some_iff.mp h
      have hparse := parseXsdBooleanLexical_of_booleanValue (booleanValue_toString b)
      simp [castToXsdBoolean, typed, hparse]
    | string =>
      obtain ⟨s, -, rfl⟩ := Option.map_eq_some_iff.mp h
      rfl

/-- The casts of a literal between the exact types keep its value, repeated casts change nothing,
and an integer comes back from its decimal. -/
structure ExactCasts (reading : DecimalReading N) (e : GraphElement N) : Prop where
  keeps : ∀ ty, reading.KeepsValue ty e
  again : ∀ (ty : ExactType) r, reading.evalXsdCast ty.iri e = some r →
    reading.evalXsdCast ty.iri r = some r
  back : ∀ n d r, denotes e = some (.integer n) → reading.evalXsdCast xsdDecimal e = some d →
    reading.evalXsdCast xsdInteger d = some r → denotes r = some (.integer n)

/-- The integer part of `x` is read from the double next to `x`, cut to 64 bits: it has 64 bits and
`x` is not rounded away from it, or the cut restores it, or there is no such double. -/
def WholeRead (x : ℚ) : Prop :=
  minI64 ≤ truncate x ∧ truncate x ≤ maxI64 ∧ binary64.KeepsWhole x ∨ truncate x = maxI64 ∨
    2 ^ (1024 : ℤ) - 2 ^ (970 : ℤ) ≤ |x|

theorem keepsWhole_of_minI64 {x : ℚ} (h : truncate x = minI64) : binary64.KeepsWhole x := by
  have hfloor : ⌊-x⌋ = 2 ^ 63 := by
    have hneg := truncate_neg x
    have hnonpos : ¬-x < 0 := by
      intro hpos
      rw [truncate, if_pos (neg_neg_iff_pos.mp hpos).le] at h
      have := Int.floor_nonneg.mpr (neg_neg_iff_pos.mp hpos).le
      rw [h] at this
      exact absurd this (by decide)
    rw [truncate, if_pos (not_lt.mp hnonpos), h] at hneg
    exact hneg.trans (by decide)
  have hbounds := Int.floor_eq_iff.mp hfloor
  norm_num at hbounds
  have habs : |x| = -x := abs_of_neg (by linarith [hbounds.1])
  have hunit : binary64.unit x = 2 ^ (63 + 1 - 53 : ℤ) := by
    refine binary64.unit_of_mem (by decide) ?_ ?_
    · rw [habs]
      norm_num
      linarith [hbounds.1]
    · rw [habs]
      norm_num
      linarith [hbounds.2]
  rw [Format.KeepsWhole, hunit, if_neg (by norm_num), habs, hfloor]
  exact ⟨2 ^ 52, by norm_num⟩

theorem maxI64_le_nearest {x : ℚ} (h : truncate x = maxI64) :
    maxI64 ≤ truncate (binary64.nearest x) := by
  have hnonneg : 0 ≤ x := by
    by_contra hneg
    have hle : ⌈x⌉ ≤ 0 := Int.ceil_le.mpr (by exact_mod_cast (not_le.mp hneg).le)
    rw [truncate, if_neg hneg] at h
    rw [h] at hle
    exact absurd hle (by decide)
  have hround : ((maxI64 : ℤ) : ℚ) ≤ binary64.nearest maxI64 := by
    have hunit : binary64.unit maxI64 = 2 ^ (62 + 1 - 53 : ℤ) := by
      refine binary64.unit_of_mem (by decide) ?_ ?_ <;> norm_num [maxI64]
    have hlow : ¬nearestEven (maxI64 / 2 ^ 10) < 2 ^ 53 := by
      rw [nearestEven_lt_iff]
      norm_num [maxI64]
    have hcast : ((2 ^ 53 : ℤ) : ℚ) ≤ nearestEven (maxI64 / 2 ^ 10) :=
      Int.cast_le.mpr (not_lt.mp hlow)
    rw [Format.nearest, hunit]
    norm_num [maxI64] at hcast ⊢
    linarith
  rw [truncate, if_pos hnonneg] at h
  have hle : ((maxI64 : ℤ) : ℚ) ≤ x := by
    rw [← h]
    exact Int.floor_le x
  rw [truncate, if_pos (binary64.nearest_nonneg hnonneg)]
  exact Int.le_floor.mpr (hround.trans (binary64.nearest_mono hle))

theorem clampI64_eq_iff (x : ℚ) : clampI64 (truncate (binary64.nearest x)) = truncate x ↔
    minI64 ≤ truncate x ∧ truncate x ≤ maxI64 ∧ binary64.KeepsWhole x ∨ truncate x = maxI64 := by
  have hmin : minI64 ≤ maxI64 := by decide
  rw [← binary64.truncate_nearest_iff, clampI64]
  constructor
  · intro h
    have hbounds : minI64 ≤ truncate x ∧ truncate x ≤ maxI64 := by omega
    by_cases hlow : truncate x = minI64
    · exact .inl ⟨hbounds.1, hbounds.2, binary64.truncate_nearest_iff x |>.mpr
        (keepsWhole_of_minI64 hlow)⟩
    · omega
  · rintro (⟨hleft, hright, hkeeps⟩ | hmax)
    · omega
    · have := maxI64_le_nearest hmax
      omega

theorem integerOfNumber_exact_iff (x : ℚ) :
    (∀ n, integerOfNumber (.number (binary64.rounded x)) = some n → n = truncate x) ↔
      WholeRead x := by
  rw [WholeRead, ← or_assoc, ← clampI64_eq_iff, integerOfNumber, Value.finite?_rounded]
  change (∀ n, Option.map _ (if 2 ^ (1024 : ℤ) - 2 ^ (970 : ℤ) ≤ |x| then none else _) = _ → _) ↔ _
  split_ifs with h
  · exact iff_of_true (fun n hn => by cases hn) (.inr h)
  · rw [or_iff_left h]
    simp [eq_comm]

/-- The values, with their texts, that every function on the way of a cast reads exactly. -/
def ReadExactly (reading : DecimalReading N) : XsdValue → String → Prop
  | .integer n, s => s = toString n ∧ ((reading.parseDecimal s).isSome → WholeRead n)
  | .decimal x, s => CanonicalNumeral s.toList ∧ WholeRead x ∧
      (|x| ≤ 2 ^ (-1075 : ℤ) → x = 0) ∧ ((reading.parseDecimal s).isSome → Representable x)
  | .boolean b, s => s = toString b
  | .string _, s =>
    let t := trim s.toList
    ((integerValue t).isSome → collapse s = t) ∧ ((booleanValue t).isSome → collapse s = t) ∧
      ((reading.parseDecimal (String.ofList t)).isSome →
        collapse s = t ∧ ∃ x, decimalValue t = some x ∧ Representable x)

theorem truthOfNumber_rounded (x : ℚ) : truthOfNumber (.number (binary64.rounded x)) =
    decide (binary64.rounded x ≠ ((0 : WithTop ℚ) : WithBot _)) := by
  simp [truthOfNumber]

theorem truthOfNumber_intCast (n : ℤ) :
    truthOfNumber (.number (binary64.rounded n)) = decide (n ≠ 0) := by
  rw [truthOfNumber_rounded, decide_eq_decide, not_iff_not]
  constructor
  · intro hzero
    by_contra hne
    have hone : (1 : ℚ) ≤ |(n : ℚ)| := by exact_mod_cast Int.one_le_abs hne
    exact binary64.rounded_ne_zero (by decide) (by decide) hone hzero
  · rintro rfl
    rw [Int.cast_zero]
    exact binary64.rounded_zero

theorem truthOfNumber_eq_iff (x : ℚ) :
    truthOfNumber (.number (binary64.rounded x)) = decide (x ≠ 0) ↔
      (|x| ≤ 2 ^ (-1075 : ℤ) → x = 0) := by
  rw [truthOfNumber_rounded, decide_eq_decide, not_iff_not, binary64.rounded_eq_zero_iff]
  constructor
  · exact Iff.mp
  · refine fun h => ⟨h, ?_⟩
    rintro rfl
    rw [abs_zero]
    exact (zpow_pos two_pos _).le

/-- A decimal text is read exactly iff its number fits, or there is no reading. -/
theorem parseDecimal_exact_iff {x : ℚ} (h : decimalValue s.toList = some x) :
    (∀ d, reading.parseDecimal s = some d → reading.valueOf d = x) ↔
      ((reading.parseDecimal s).isSome → Representable x) := by
  constructor
  · intro hexact hsome
    obtain ⟨d, hd⟩ := Option.isSome_iff_exists.mp hsome
    rw [← hexact d hd]
    exact reading.representable d (reading.decimalValue_text d)
  · intro hfits d hd
    have hvalue := reading.parse_exact h (hfits (by rw [hd]; rfl)) hd
    rw [reading.decimalValue_text] at hvalue
    exact Option.some.inj hvalue

theorem parseTrimmed_exact_iff (s : String) :
    (∀ d, reading.parseTrimmed s = some d →
      decimalValue (collapse s) = some (reading.valueOf d)) ↔
    ((reading.parseDecimal (String.ofList (trim s.toList))).isSome →
      collapse s = trim s.toList ∧ ∃ x, decimalValue (trim s.toList) = some x ∧
        Representable x) := by
  rw [parseTrimmed]
  constructor
  · intro hexact hsome
    obtain ⟨d, hd⟩ := Option.isSome_iff_exists.mp hsome
    have hvalue := hexact d hd
    have hsame := collapse_of_decimalValue hvalue
    rw [hsame] at hvalue
    exact ⟨hsame, _, hvalue, reading.representable d (reading.decimalValue_text d)⟩
  · intro h d hd
    obtain ⟨hsame, x, hx, hfits⟩ := h (by rw [hd]; rfl)
    rw [← String.toList_ofList (l := trim s.toList)] at hx
    have hvalue := reading.parse_exact hx hfits hd
    rw [reading.decimalValue_text] at hvalue
    rw [hsame, ← String.toList_ofList (l := trim s.toList), hx, hvalue]

/-- An integer is read as a decimal exactly, if it is. -/
theorem readAs_decimal_integer {n : ℤ} (hs : integerValue s.toList = some n) :
    reading.readAs .decimal (.integer n) s =
      (reading.parseDecimal s).map fun _ => .decimal n := by
  rw [readAs, parseTrimmed_of_decimalValue (decimalValue_of_integerValue hs)]
  · cases hd : reading.parseDecimal s with
    | none => rfl
    | some d =>
      have hvalue := reading.parse_integer hs hd
      rw [reading.decimalValue_text] at hvalue
      rw [Option.map_some, Option.some.inj hvalue]
      rfl
  · intro b hb
    cases hb

theorem back_iff {n : ℤ} (h : Source e (.integer n) s) :
    (∀ d r, reading.evalXsdCast xsdDecimal e = some d → reading.evalXsdCast xsdInteger d = some r →
      denotes r = some (.integer n)) ↔
    ((reading.parseDecimal s).isSome → WholeRead n) := by
  have hdecimal := reading.denotes_cast h .decimal
  rw [readAs_decimal_integer h.integer] at hdecimal
  have hinteger {d : GraphElement N} (hd : denotes d = some (.decimal n)) :
      (reading.evalXsdCast xsdInteger d).map denotes =
        (integerOfNumber (.number (binary64.rounded n))).map fun k => some (.integer k) := by
    obtain ⟨t, hsource⟩ := exists_source hd
    exact (reading.denotes_cast hsource .integer).trans (Option.map_map ..)
  rw [← integerOfNumber_exact_iff, truncate_intCast]
  constructor
  · intro hback hsome k hk
    obtain ⟨d', hd'⟩ := Option.isSome_iff_exists.mp hsome
    rw [hd'] at hdecimal
    obtain ⟨d, hd, hdv⟩ := Option.map_eq_some_iff.mp hdecimal
    have hcast := hinteger hdv
    rw [hk] at hcast
    obtain ⟨r, hr, hrv⟩ := Option.map_eq_some_iff.mp hcast
    cases hrv.symm.trans (hback d r hd hr)
    rfl
  · intro hexact d r hd hr
    rw [ExactType.iri, hd, Option.map_map] at hdecimal
    obtain ⟨d', hd', hdv⟩ := Option.map_eq_some_iff.mp hdecimal.symm
    have hcast := hinteger hdv.symm
    rw [hr] at hcast
    obtain ⟨k, hk, hrv⟩ := Option.map_eq_some_iff.mp hcast.symm
    rw [← hrv, hexact (by rw [hd']; rfl) k hk]

theorem exactCasts_iff_reads (h : Source e v s) : reading.ExactCasts e ↔
    (∀ ty w, reading.readAs ty v s = some w → Prescribes ty v w) ∧
    ∀ n : ℤ, v = .integer n → (reading.parseDecimal s).isSome → WholeRead n := by
  constructor
  · intro hexact
    refine ⟨fun ty => (keepsValue_iff h).mp (hexact.keeps ty), ?_⟩
    rintro n rfl
    exact (back_iff h).mp fun d r => hexact.back n d r h.denotes
  · rintro ⟨hkeeps, hback⟩
    refine ⟨fun ty => (keepsValue_iff h).mpr (hkeeps ty), fun _ _ => evalXsdCast_again,
      fun n d r hn => ?_⟩
    cases h.denotes.symm.trans hn
    exact (back_iff h).mpr (hback n rfl) d r

theorem exactCasts_of_source (h : Source e v s) :
    reading.ExactCasts e ↔ reading.ReadExactly v s := by
  have htypes {P : ExactType → Prop} :
      (∀ ty, P ty) ↔ P .integer ∧ P .decimal ∧ P .boolean ∧ P .string :=
    ⟨fun h => ⟨h _, h _, h _, h _⟩, fun h ty => by cases ty <;> simp_all⟩
  rw [exactCasts_iff_reads h, htypes]
  cases v with
  | integer n =>
    rw [readAs_decimal_integer h.integer]
    simp [readAs, Prescribes, ReadExactly, truthOfNumber_intCast]
  | decimal x =>
    rw [ReadExactly, ← integerOfNumber_exact_iff x, ← truthOfNumber_eq_iff,
      ← parseDecimal_exact_iff h.decimal, ← parseTrimmed_of_decimalValue h.decimal]
    simp [readAs, Prescribes, h.decimal]
    tauto
  | boolean b =>
    have hvalue := reading.fromU8_value b
    rw [reading.decimalValue_text] at hvalue
    simp [readAs, Prescribes, ReadExactly, Option.some.inj hvalue]
  | string t =>
    cases h.string
    have hi := @read_eq_iff _ integerValue s fun n hn =>
      collapse_of_decimalValue (decimalValue_of_integerValue hn)
    have hb := @read_eq_iff _ booleanValue s fun b => collapse_of_booleanValue
    simp only [ReadExactly, ← hi, ← hb, ← parseTrimmed_exact_iff]
    simp [readAs, Prescribes, parseXsdIntegerLexical, parseXsdBooleanLexical_eq,
      -Bool.forall_bool, -Bool.exists_bool]
    tauto

/-- The casts of a literal are exact exactly when its text is canonical, its number is read
exactly, and the blanks around a string are blanks of XML. -/
theorem exactCasts_iff (reading : DecimalReading N) (e : GraphElement N) :
    reading.ExactCasts e ↔ ∀ v s, denotes e = some v → graphElementToString e = some s →
      reading.ReadExactly v s := by
  cases hv : denotes e with
  | none =>
    constructor
    · intro _ v s hv'
      cases hv'
    · intro _
      refine ⟨fun ty r v _ hv' => ?_, fun _ _ => evalXsdCast_again, fun n d r hn => ?_⟩
      · cases hv.symm.trans hv'
      · cases hv.symm.trans hn
  | some v =>
    obtain ⟨s, hsource⟩ := exists_source hv
    rw [exactCasts_of_source hsource]
    constructor
    · intro h v' s' hv' hs'
      cases hv'
      cases hsource.text.symm.trans hs'
      exact h
    · exact fun h => h v s rfl hsource.text

end Exact

section Numerals

instance (x : ℚ) : Decidable (Representable x) :=
  inferInstanceAs (Decidable (∃ k < 29, (x * 10 ^ k).isInt = true ∧ |x * 10 ^ k| < 2 ^ 96))

theorem representable_intCast {n : ℤ} (h : |n| < 2 ^ 96) : Representable n := by
  refine ⟨0, by decide, ?_, ?_⟩
  · rw [pow_zero, mul_one]
    rfl
  · rw [pow_zero, mul_one]
    exact_mod_cast h

/-- Whether a text is a numeral within the range of the decimals. -/
def isNumeral (s : String) : Bool :=
  match decimalValue s.toList with
  | some x => decide (Representable x)
  | none => false

theorem isNumeral_iff {s : String} :
    isNumeral s ↔ ∃ x, decimalValue s.toList = some x ∧ Representable x := by
  unfold isNumeral
  split <;> simp_all

/-- Decimals kept as numerals. -/
abbrev Numeral : Type := { s : String // isNumeral s = true }

def numeralTypes : NativeTypes :=
  { NativeTypes.text with
    Decimal := Numeral
    decimalText := Subtype.val
    decimalEq := inferInstanceAs (DecidableEq Numeral) }

def readNumeral (s : String) : Option Numeral :=
  if h : isNumeral s = true then some ⟨s, h⟩ else none

theorem readNumeral_eq_some {s : String} {d : Numeral} : readNumeral s = some d ↔ d.val = s := by
  unfold readNumeral
  split_ifs with h
  · rw [Option.some.injEq, Subtype.ext_iff]
    exact eq_comm
  · constructor
    · intro hd
      cases hd
    · rintro rfl
      exact absurd d.property h

def numeralBit : Bool → Numeral
  | true => ⟨"1", isNumeral_iff.mpr ⟨_, rfl, representable_intCast (n := 1) (by decide)⟩⟩
  | false => ⟨"0", isNumeral_iff.mpr ⟨_, rfl, representable_intCast (n := 0) (by decide)⟩⟩

def ofNumerals : DecimalReading numeralTypes where
  Naive := String
  floatValue f := (parseF64 f).getD .nan
  parseNaiveDate _ := none
  parseDateTime _ := none
  parseNaiveDateTime _ := none
  dateOrder := inferInstanceAs (LinearOrder String)
  dateTimeOrder := inferInstanceAs (LinearOrder String)
  naiveOrder := inferInstanceAs (LinearOrder String)
  parseDecimal := readNumeral
  fromU8 := numeralBit
  f64Text f := toString (truncate (f.finite?.getD 0))
  parseDatetimeOrDateLexical _ := none
  toRfc3339 := id
  prints d := by
    obtain ⟨x, hx, -⟩ := isNumeral_iff.mp d.property
    exact Option.isSome_iff_exists.mpr ⟨x, hx⟩
  representable d x hx := by
    obtain ⟨y, hy, hfits⟩ := isNumeral_iff.mp d.property
    cases hx.symm.trans hy
    exact hfits
  parse_text d := readNumeral_eq_some.mpr rfl
  fromU8_value b := by cases b <;> decide
  parse_integer {s n d} hn hd := by
    have htext : d.val = s := readNumeral_eq_some.mp hd
    change decimalValue d.val.toList = _
    rw [htext]
    exact decimalValue_of_integerValue hn
  parse_exact {s x d} hx _ hd := by
    have htext : d.val = s := readNumeral_eq_some.mp hd
    change decimalValue d.val.toList = _
    rw [htext, hx]

theorem rounded_ten_pow : binary64.rounded (10 ^ 19 : ℚ) =
    (((10 ^ 19 : ℚ) : WithTop ℚ) : WithBot (WithTop ℚ)) := by
  have hbits : binary64.nearest (10 ^ 19 : ℚ) = 10 ^ 19 := by
    refine binary64.nearest_of_bits (n := 5 ^ 19) (e := 19) ?_ (by decide) ?_
    · norm_num
    · rw [abs_of_nonneg (by norm_num)]
      norm_num [binary64]
  have hrange : |(10 ^ 19 : ℚ)| < 2 ^ binary64.maxExponent := by
    have hpow : (2 : ℚ) ^ (64 : ℤ) ≤ 2 ^ binary64.maxExponent :=
      zpow_le_zpow_right₀ (by norm_num) (by decide)
    rw [abs_of_nonneg (by norm_num)]
    refine lt_of_lt_of_le ?_ hpow
    norm_num
  rw [Format.rounded, hbits, binary64.clamp_of_abs_lt hrange]

theorem truncate_ten_pow : truncate (10 ^ 19 : ℚ) = 10 ^ 19 := by
  have hcast : (10 ^ 19 : ℚ) = ((10 ^ 19 : ℤ) : ℚ) := by norm_num
  rw [hcast, truncate_intCast]

/-- `xsd:integer("10000000000000000000"^^xsd:decimal)` is cut to the largest 64-bit integer. -/
theorem not_exactCasts_decimal :
    let e : GraphElement numeralTypes := typed xsdDecimal "10000000000000000000"
    ofNumerals.evalXsdCast xsdInteger e = some (typed xsdInteger "9223372036854775807") ∧
      ¬ ofNumerals.ExactCasts e := by
  have hvalue : decimalValue "10000000000000000000".toList = some (10 ^ 19) := by decide
  have hdenotes : denotes (typed xsdDecimal "10000000000000000000" : GraphElement numeralTypes) =
      some (.decimal (10 ^ 19)) := by
    have hne : xsdDecimal ≠ xsdInteger := by decide
    rw [typed, denotes, if_neg hne, if_pos rfl, hvalue]
    rfl
  have hinteger : integerOfNumber (.number (binary64.rounded (10 ^ 19 : ℚ))) = some maxI64 := by
    rw [rounded_ten_pow]
    change some (clampI64 (truncate (10 ^ 19))) = _
    rw [truncate_ten_pow]
    decide
  have htext : toString maxI64 = "9223372036854775807" := by decide
  have hcast : ofNumerals.evalXsdCast ExactType.integer.iri
      (typed xsdDecimal "10000000000000000000") = some (typed xsdInteger (toString maxI64)) := by
    have hread := ofNumerals.literalToF64_of_source (.typedDecimal hvalue) (.inl rfl)
    rw [evalXsdCast_iri]
    simp [castToXsdInteger, typed, hread, hinteger, numericLitToElement]
  refine ⟨htext ▸ hcast, fun h => ?_⟩
  obtain ⟨w, hw, hprescribed⟩ := h.keeps .integer _ _ hcast hdenotes
  cases hprescribed
  rw [truncate_ten_pow] at hw
  cases (denotes_integer maxI64).symm.trans hw

end Numerals

end DecimalReading

end RdfDatalog.Sparql
