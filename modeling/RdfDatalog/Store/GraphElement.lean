import Mathlib.Tactic.SplitIfs

namespace RdfDatalog

theorem toString_injective : Function.Injective (toString : Nat → String) := by
  intro i j h
  have hdigits : Nat.toDigits 10 i = Nat.toDigits 10 j := by
    rw [← Nat.toList_repr, ← Nat.toList_repr]
    exact congrArg String.toList h
  rw [← Nat.ofDigitChars_ten_toDigits (n := i), hdigits, Nat.ofDigitChars_ten_toDigits]

/-- The characters with the Unicode White_Space property. -/
def isWhitespace (c : Char) : Bool :=
  let n := c.toNat
  decide ((0x9 ≤ n ∧ n ≤ 0xD) ∨ n = 0x20 ∨ n = 0x85 ∨ n = 0xA0 ∨ n = 0x1680 ∨
    (0x2000 ≤ n ∧ n ≤ 0x200A) ∨ n = 0x2028 ∨ n = 0x2029 ∨ n = 0x202F ∨ n = 0x205F ∨
    n = 0x3000)

/-- The value types of the number and date libraries, with their printers. -/
structure NativeTypes where
  Decimal : Type
  Float : Type
  Duration : Type
  DateTime : Type
  Time : Type
  Date : Type
  decimalText : Decimal → String
  floatText : Float → String
  durationText : Duration → String
  dateTimeText : DateTime → String
  timeText : Time → String
  dateText : Date → String
  [decimalEq : DecidableEq Decimal]
  [floatEq : DecidableEq Float]
  [durationEq : DecidableEq Duration]
  [dateTimeEq : DecidableEq DateTime]
  [timeEq : DecidableEq Time]
  [dateEq : DecidableEq Date]

attribute [instance] NativeTypes.decimalEq NativeTypes.floatEq NativeTypes.durationEq
  NativeTypes.dateTimeEq NativeTypes.timeEq NativeTypes.dateEq

/-- Values kept as their printed text. -/
def NativeTypes.text : NativeTypes where
  Decimal := String
  Float := String
  Duration := String
  DateTime := String
  Time := String
  Date := String
  decimalText := id
  floatText := id
  durationText := id
  dateTimeText := id
  timeText := id
  dateText := id

abbrev IriReference := String

inductive RdfResource where
  | iri (iri : IriReference)
  | anonymousBlankNode (id : Nat)
  deriving DecidableEq

inductive RdfLiteral (N : NativeTypes) where
  | literalString (s : String)
  | booleanLiteral (b : Bool)
  | decimalLiteral (d : N.Decimal)
  | floatLiteral (f : N.Float)
  | doubleLiteral (d : N.Float)
  | durationLiteral (d : N.Duration)
  | integerLiteral (i : Int)
  | dateTimeLiteral (dt : N.DateTime)
  | timeLiteral (t : N.Time)
  | dateLiteral (d : N.Date)
  | langLiteral (lang literal : String)
  | typedLiteral (typeIri : IriReference) (literal : String)
  deriving DecidableEq

/-- An embedded triple, by the ids of its components. -/
structure TripleTermKey where
  subject : Nat
  predicate : Nat
  obj : Nat
  deriving DecidableEq

inductive GraphElement (N : NativeTypes) where
  | nodeOrEdge (r : RdfResource)
  | graphLiteral (l : RdfLiteral N)
  | tripleTerm (k : TripleTermKey)
  deriving DecidableEq

def xsdString : IriReference := "http://www.w3.org/2001/XMLSchema#string"
def xsdBoolean : IriReference := "http://www.w3.org/2001/XMLSchema#boolean"
def xsdDecimal : IriReference := "http://www.w3.org/2001/XMLSchema#decimal"
def xsdFloat : IriReference := "http://www.w3.org/2001/XMLSchema#float"
def xsdDouble : IriReference := "http://www.w3.org/2001/XMLSchema#double"
def xsdDuration : IriReference := "http://www.w3.org/2001/XMLSchema#duration"
def xsdInteger : IriReference := "http://www.w3.org/2001/XMLSchema#integer"
def xsdDateTime : IriReference := "http://www.w3.org/2001/XMLSchema#dateTime"
def xsdTime : IriReference := "http://www.w3.org/2001/XMLSchema#time"
def xsdDate : IriReference := "http://www.w3.org/2001/XMLSchema#date"

def defaultGraphIri : IriReference := "urn:x-arq:DefaultGraph"

variable {N : NativeTypes}

abbrev GraphElement.iri (iri : IriReference) : GraphElement N := .nodeOrEdge (.iri iri)

/-- A literal as the Turtle parser library hands it over. -/
structure OxLiteral where
  value : String
  language : Option String
  datatype : IriReference
  deriving DecidableEq

/-- The literal the parsers store: never one of the native variants. -/
def convertLiteral (lit : OxLiteral) : RdfLiteral N :=
  match lit.language with
  | some lang => .langLiteral lang lit.value
  | none =>
    if lit.datatype = xsdString then .literalString lit.value
    else .typedLiteral lit.datatype lit.value

/-- The variants with a value type of their own. -/
def RdfLiteral.isNative : RdfLiteral N → Bool
  | .literalString _ | .langLiteral _ _ | .typedLiteral _ _ => false
  | _ => true

theorem convertLiteral_isNative (lit : OxLiteral) :
    (convertLiteral lit : RdfLiteral N).isNative = false := by
  unfold convertLiteral
  cases lit.language with
  | some lang => rfl
  | none => simp only; split_ifs <;> rfl

end RdfDatalog
