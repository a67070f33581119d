import RdfDatalog.Store.GraphElement
import Mathlib.Data.Set.Function

namespace RdfDatalog.Endpoint

variable {N : NativeTypes}

/-- Serialisable representation of one RDF term. -/
inductive ElementRepr where
  | iri (iri : String)
  | blank (n : Nat)
  | literalPlain (s : String)
  | literalLang (lexical lang : String)
  | literalTyped (lexical datatype : String)
  deriving DecidableEq

def litToRepr : RdfLiteral N → ElementRepr
  | .literalString s => .literalPlain s
  | .langLiteral lang literal => .literalLang literal lang
  | .typedLiteral typeIri literal => .literalTyped literal typeIri
  | .booleanLiteral b => .literalTyped (toString b) xsdBoolean
  | .decimalLiteral d => .literalTyped (N.decimalText d) xsdDecimal
  | .floatLiteral f => .literalTyped (N.floatText f) xsdFloat
  | .doubleLiteral d => .literalTyped (N.floatText d) xsdDouble
  | .durationLiteral d => .literalTyped (N.durationText d) xsdDuration
  | .integerLiteral i => .literalTyped (toString i) xsdInteger
  | .dateTimeLiteral dt => .literalTyped (N.dateTimeText dt) xsdDateTime
  | .timeLiteral t => .literalTyped (N.timeText t) xsdTime
  | .dateLiteral d => .literalTyped (N.dateText d) xsdDate

def toRepr : GraphElement N → ElementRepr
  | .nodeOrEdge (.iri iri) => .iri iri
  | .nodeOrEdge (.anonymousBlankNode n) => .blank n
  | .graphLiteral lit => litToRepr lit
  | .tripleTerm k => .blank k.subject

def fromRepr : ElementRepr → GraphElement N
  | .iri iri => .nodeOrEdge (.iri iri)
  | .blank n => .nodeOrEdge (.anonymousBlankNode n)
  | .literalPlain s => .graphLiteral (.literalString s)
  | .literalLang lexical lang => .graphLiteral (.langLiteral lang lexical)
  | .literalTyped lexical datatype => .graphLiteral (.typedLiteral datatype lexical)

/-- The terms built by the parsers: resources and non-native literals. -/
def parserForm : GraphElement N → Bool
  | .nodeOrEdge _ => true
  | .graphLiteral lit => !lit.isNative
  | .tripleTerm _ => false

theorem toRepr_fromRepr (r : ElementRepr) : toRepr (fromRepr r : GraphElement N) = r := by
  cases r <;> rfl

theorem fromRepr_parserForm (r : ElementRepr) : parserForm (fromRepr r : GraphElement N) := by
  cases r <;> rfl

theorem fromRepr_toRepr {e : GraphElement N} (h : parserForm e) : fromRepr (toRepr e) = e := by
  cases e with
  | nodeOrEdge r => cases r <;> rfl
  | graphLiteral lit =>
    cases lit with
    | literalString s => rfl
    | langLiteral lang literal => rfl
    | typedLiteral typeIri literal => rfl
    | _ => simp [parserForm, RdfLiteral.isNative] at h
  | tripleTerm k => simp [parserForm] at h

theorem fromRepr_toRepr_iff (e : GraphElement N) :
    fromRepr (toRepr e) = e ↔ parserForm e := by
  constructor
  · intro h
    rw [← h]
    exact fromRepr_parserForm (toRepr e)
  · exact fromRepr_toRepr

theorem toRepr_injOn : Set.InjOn (toRepr (N := N)) {e | parserForm e} := by
  intro e he f hf h
  rw [← fromRepr_toRepr he, ← fromRepr_toRepr hf, h]

/-- A native literal is written with a lexical form and a datatype, and read back as the literal
the parser builds from the two. -/
theorem native_decodes {lit : RdfLiteral N} (h : lit.isNative) :
    ∃ lexical datatype, litToRepr lit = .literalTyped lexical datatype ∧
      (fromRepr (litToRepr lit) : GraphElement N) =
        .graphLiteral (convertLiteral ⟨lexical, none, datatype⟩) := by
  have hne : ∀ d ∈ [xsdBoolean, xsdDecimal, xsdFloat, xsdDouble, xsdDuration, xsdInteger,
      xsdDateTime, xsdTime, xsdDate], d ≠ xsdString := by decide
  have key {lexical datatype : String} (hd : datatype ≠ xsdString)
      (hl : litToRepr lit = .literalTyped lexical datatype) :
      ∃ lexical datatype, litToRepr lit = .literalTyped lexical datatype ∧
        (fromRepr (litToRepr lit) : GraphElement N) =
          .graphLiteral (convertLiteral ⟨lexical, none, datatype⟩) := by
    refine ⟨lexical, datatype, hl, ?_⟩
    rw [hl, fromRepr, convertLiteral]
    exact congrArg GraphElement.graphLiteral (if_neg hd).symm
  cases lit with
  | literalString | langLiteral | typedLiteral => simp [RdfLiteral.isNative] at h
  | _ => exact key (hne _ (by simp)) rfl

/-- What survives the changelog: exactly the parser-built terms come back unchanged, and distinct
ones stay distinct; native literals come back as the parser builds them. -/
theorem changelog_terms (N : NativeTypes) :
    (∀ e : GraphElement N, fromRepr (toRepr e) = e ↔ parserForm e) ∧
    (∀ lit, parserForm (.graphLiteral (convertLiteral lit) : GraphElement N)) ∧
    (∀ lit : RdfLiteral N, lit.isNative →
      ∃ lexical datatype, litToRepr lit = .literalTyped lexical datatype ∧
        (fromRepr (litToRepr lit) : GraphElement N) =
          .graphLiteral (convertLiteral ⟨lexical, none, datatype⟩)) ∧
    (∀ k, fromRepr (toRepr (.tripleTerm k : GraphElement N)) =
      (.nodeOrEdge (.anonymousBlankNode k.subject) : GraphElement N)) ∧
    (∀ r, toRepr (fromRepr r : GraphElement N) = r) ∧
    Set.InjOn (toRepr (N := N)) {e | parserForm e} := by
  refine ⟨fromRepr_toRepr_iff, ?_, fun _ => native_decodes, fun _ => rfl, toRepr_fromRepr,
    toRepr_injOn⟩
  intro lit
  simp [parserForm, convertLiteral_isNative]

/-- A native boolean comes back as another element, and shares its representation with it. -/
theorem boolean_not_lossless :
    fromRepr (toRepr (N := NativeTypes.text) (.graphLiteral (.booleanLiteral true))) ≠
        (.graphLiteral (.booleanLiteral true) : GraphElement NativeTypes.text) ∧
      ¬ Function.Injective (toRepr (N := NativeTypes.text)) := by
  refine ⟨by decide, fun h => ?_⟩
  have heq : toRepr (N := NativeTypes.text) (.graphLiteral (.booleanLiteral true)) =
      toRepr (N := NativeTypes.text) (.graphLiteral (.typedLiteral xsdBoolean "true")) := by decide
  exact absurd (h heq) (by decide)

end RdfDatalog.Endpoint
