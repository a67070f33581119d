import RdfDatalog.Math.BinaryFloat
import RdfDatalog.Math.Numerals
import RdfDatalog.Sparql.Expressions
import Mathlib.Data.String.Basic

namespace RdfDatalog.Sparql

open BinaryFloat Numerals

variable {N : NativeTypes}

def trim (s : List Char) : List Char := (s.dropWhile isWhitespace).rdropWhile isWhitespace

/-- `f64::from_str`. -/
def parseF64 (s : String) : Option BinaryFloat.Value :=
  match scientificValue s.toList with
  | some x => some (.number (binary64.rounded x))
  | none =>
    let (negative, name) := splitSign s.toList
    match String.ofList (name.map Char.toLower) with
    | "inf" | "infinity" => some (.number (if negative then ⊥ else ((⊤ : WithTop ℚ) : WithBot _)))
    | "nan" => some .nan
    | _ => none

def parseXsdBooleanLexical (s : String) : Option Bool :=
  match String.ofList (trim s.toList) with
  | "true" | "1" => some true
  | "false" | "0" => some false
  | _ => none

/-- Coerce a boolean from either `BooleanLiteral` or `TypedLiteral(xsd:boolean)`. -/
def elementToBool (el : GraphElement N) : Option Bool := booleanOf el

/-- The bytes of a text. -/
def utf8 (s : List Char) : List UInt8 := s.flatMap String.utf8EncodeChar

/-- How the number and date libraries read a native float and a text. -/
structure ValueReading (N : NativeTypes) where
  Naive : Type
  floatValue : N.Float → BinaryFloat.Value
  parseNaiveDate : String → Option N.Date
  parseDateTime : String → Option N.DateTime
  parseNaiveDateTime : String → Option Naive
  [dateOrder : LinearOrder N.Date]
  [dateTimeOrder : LinearOrder N.DateTime]
  [naiveOrder : LinearOrder Naive]

/-- A literal classified for the relational operators. -/
inductive ComparableKind (N : NativeTypes) (Naive : Type) where
  | numeric (f : BinaryFloat.Value)
  | str (s : String)
  | bool (b : Bool)
  | date (d : N.Date)
  | dateTime (dt : N.DateTime)
  | dateTimeNaive (dt : Naive)

def ComparableKind.IsMoment {Naive : Type} : ComparableKind N Naive → Prop
  | .date _ | .dateTime _ | .dateTimeNaive _ => True
  | _ => False

def simpleOrXsdStringValue : RdfLiteral N → Option String
  | .literalString s => some s
  | .typedLiteral typeIri literal => if typeIri = xsdString then some literal else none
  | _ => none

namespace ValueReading

variable (reading : ValueReading N)

/-- Extract a numeric value from a literal of a numeric datatype. -/
def literalToF64 : RdfLiteral N → Option BinaryFloat.Value
  | .integerLiteral i => parseF64 (toString i)
  | .doubleLiteral d => some (reading.floatValue d)
  | .decimalLiteral d => parseF64 (N.decimalText d)
  | .floatLiteral f => some (reading.floatValue f)
  | .typedLiteral typeIri literal =>
    if typeIri = xsdInteger ∨ typeIri = xsdDecimal ∨ typeIri = xsdDouble ∨ typeIri = xsdFloat then
      parseF64 literal
    else none
  | _ => none

/-- Equality for `=`, `!=`, `IN` and `NOT IN`. -/
def valuesEqual (a b : GraphElement N) : Bool :=
  let otherwise : Bool :=
    match elementToBool a, elementToBool b with
    | some aBool, some bBool => aBool = bBool
    | _, _ => a = b
  match a, b with
  | .graphLiteral aLit, .graphLiteral bLit =>
    match reading.literalToF64 aLit, reading.literalToF64 bLit with
    | some af, some bf => af.partialCmp bf = some .eq
    | _, _ =>
      match simpleOrXsdStringValue aLit, simpleOrXsdStringValue bLit with
      | some aS, some bS => aS = bS
      | _, _ => otherwise
  | _, _ => otherwise

/-- Parse an `xsd:date` lexical form, with a time zone behind it or not. -/
def parseXsdDateLexical (s : String) : Option N.Date :=
  match reading.parseNaiveDate s with
  | some d => some d
  | none =>
    let cs := s.toList
    if cs.getLast? = some 'Z' then reading.parseNaiveDate (String.ofList cs.dropLast)
    else if 6 < (utf8 cs).length then
      match cs.tails.find? fun tail => (utf8 tail).length = 6 with
      | none => none
      | some tail =>
        if (tail.head? = some '+' ∨ tail.head? = some '-') ∧ (utf8 tail)[3]? = some 58 then
          reading.parseNaiveDate (String.ofList (cs.take (cs.length - tail.length)))
        else none
    else none

def classifyLexical : RdfLiteral N → Option (ComparableKind N reading.Naive)
  | .literalString s => some (.str s)
  | .booleanLiteral b => some (.bool b)
  | .dateLiteral d => some (.date d)
  | .dateTimeLiteral dt => some (.dateTime dt)
  | .typedLiteral typeIri literal =>
    if typeIri = xsdString then some (.str literal)
    else if typeIri = xsdBoolean then (parseXsdBooleanLexical literal).map .bool
    else if typeIri = xsdDate then (reading.parseXsdDateLexical literal).map .date
    else if typeIri = xsdDateTime then
      match reading.parseDateTime literal with
      | some dt => some (.dateTime dt)
      | none => (reading.parseNaiveDateTime literal).map .dateTimeNaive
    else none
  | _ => none

def classifyComparable (lit : RdfLiteral N) : Option (ComparableKind N reading.Naive) :=
  match reading.literalToF64 lit with
  | some f => some (.numeric f)
  | none => reading.classifyLexical lit

/-- The order of two classified literals of one class. -/
def compareKinds : ComparableKind N reading.Naive → ComparableKind N reading.Naive → Option Ordering
  | .numeric x, .numeric y => x.partialCmp y
  | .str x, .str y => some (compare x y)
  | .bool x, .bool y => some (compare x y)
  | .date x, .date y => some (reading.dateOrder.compare x y)
  | .dateTime x, .dateTime y => some (reading.dateTimeOrder.compare x y)
  | .dateTimeNaive x, .dateTimeNaive y => some (reading.naiveOrder.compare x y)
  | _, _ => none

def orderSign : Ordering → ℤ
  | .lt => -1
  | .eq => 0
  | .gt => 1

/-- Compare graph elements for the relational operators of a filter. -/
def compareGraphElements : GraphElement N → GraphElement N → Option ℤ
  | .graphLiteral aLit, .graphLiteral bLit => do
    let a ← reading.classifyComparable aLit
    let b ← reading.classifyComparable bLit
    (reading.compareKinds a b).map orderSign
  | _, _ => none

section Equality

variable {a b c : GraphElement N}

def numberOf : GraphElement N → Option BinaryFloat.Value
  | .graphLiteral lit => reading.literalToF64 lit
  | _ => none

def textOf : GraphElement N → Option String
  | .graphLiteral lit => simpleOrXsdStringValue lit
  | _ => none

/-- What `valuesEqual` compares of a term. -/
inductive EqualityKey (N : NativeTypes) where
  | number (f : BinaryFloat.Value)
  | text (s : String)
  | truth (b : Bool)
  | term (e : GraphElement N)

/-- The key of a term: it has at most one of a number, a string and a truth. -/
inductive HasKey : GraphElement N → EqualityKey N → Prop
  | number {e : GraphElement N} {f : BinaryFloat.Value} : reading.numberOf e = some f →
    textOf e = none → elementToBool e = none → HasKey e (.number f)
  | text {e : GraphElement N} {s : String} : reading.numberOf e = none → textOf e = some s →
    elementToBool e = none → HasKey e (.text s)
  | truth {e : GraphElement N} {b : Bool} : reading.numberOf e = none → textOf e = none →
    elementToBool e = some b → HasKey e (.truth b)
  | term {e : GraphElement N} : reading.numberOf e = none → textOf e = none →
    elementToBool e = none → HasKey e (.term e)

theorem exists_key (e : GraphElement N) : ∃ k, reading.HasKey e k := by
  cases e with
  | nodeOrEdge | tripleTerm => exact ⟨_, .term rfl rfl rfl⟩
  | graphLiteral lit =>
    cases lit with
    | literalString s => exact ⟨_, .text rfl rfl rfl⟩
    | booleanLiteral b => exact ⟨_, .truth rfl rfl rfl⟩
    | floatLiteral | doubleLiteral => exact ⟨_, .number rfl rfl rfl⟩
    | decimalLiteral d =>
      cases hn : parseF64 (N.decimalText d) with
      | none => exact ⟨_, .term hn rfl rfl⟩
      | some f => exact ⟨_, .number hn rfl rfl⟩
    | integerLiteral i =>
      cases hn : parseF64 (toString i) with
      | none => exact ⟨_, .term hn rfl rfl⟩
      | some f => exact ⟨_, .number hn rfl rfl⟩
    | typedLiteral typeIri literal =>
      by_cases hs : typeIri = xsdString
      · subst hs
        have hnumber :
            reading.numberOf (.graphLiteral (.typedLiteral xsdString literal)) = none := by
          simp [numberOf, literalToF64, xsdString, xsdInteger, xsdDecimal, xsdDouble, xsdFloat]
        have htext : textOf (.graphLiteral (.typedLiteral xsdString literal) : GraphElement N) =
            some literal := by simp [textOf, simpleOrXsdStringValue]
        have htruth : elementToBool (.graphLiteral (.typedLiteral xsdString literal) :
            GraphElement N) = none := by
          simp [elementToBool, booleanOf, xsdString, xsdBoolean]
        exact ⟨_, .text hnumber htext htruth⟩
      · by_cases hb : typeIri = xsdBoolean
        · subst hb
          have hnumber : reading.numberOf (.graphLiteral (.typedLiteral xsdBoolean literal)) =
              none := by
            simp [numberOf, literalToF64, xsdBoolean, xsdInteger, xsdDecimal, xsdDouble, xsdFloat]
          have htruth : elementToBool (.graphLiteral (.typedLiteral xsdBoolean literal) :
              GraphElement N) = some (decide (literal = "true")) := by
            simp [elementToBool, booleanOf]
          have htext : textOf (.graphLiteral (.typedLiteral xsdBoolean literal) :
              GraphElement N) = none := by simp [textOf, simpleOrXsdStringValue, hs]
          exact ⟨_, .truth hnumber htext htruth⟩
        · cases hn : reading.numberOf (.graphLiteral (.typedLiteral typeIri literal)) with
          | none => exact ⟨_, .term hn (if_neg hs) (if_neg hb)⟩
          | some f => exact ⟨_, .number hn (if_neg hs) (if_neg hb)⟩
    | _ => exact ⟨_, .term rfl rfl rfl⟩

theorem valuesEqual_eq (a b : GraphElement N) : reading.valuesEqual a b =
    match reading.numberOf a, reading.numberOf b with
    | some af, some bf => decide (af.partialCmp bf = some .eq)
    | _, _ =>
      match textOf a, textOf b with
      | some aS, some bS => decide (aS = bS)
      | _, _ =>
        match elementToBool a, elementToBool b with
        | some aBool, some bBool => decide (aBool = bBool)
        | _, _ => decide (a = b) := by
  unfold valuesEqual
  cases a with
  | graphLiteral al =>
    cases b with
    | graphLiteral bl => rfl
    | _ =>
      simp only [numberOf, textOf]
      cases reading.literalToF64 al <;> cases simpleOrXsdStringValue al <;> rfl
  | nodeOrEdge r => rfl
  | tripleTerm k => rfl

variable {reading} {k l : EqualityKey N}

theorem HasKey.unique (h : reading.HasKey a k) (h' : reading.HasKey a l) : k = l := by
  cases h <;> cases h' <;> simp_all

theorem valuesEqual_iff (ha : reading.HasKey a k) (hb : reading.HasKey b l) :
    reading.valuesEqual a b = true ↔ k = l ∧ k ≠ .number .nan := by
  have hkeys : a = b → k = l := by
    rintro rfl
    exact ha.unique hb
  rw [valuesEqual_eq]
  cases ha <;> cases hb <;> simp_all [BinaryFloat.Value.partialCmp_eq_iff]

end Equality

section Order

variable {a b : GraphElement N} {o : ℤ}

/-- The class of a term for the relational operators. -/
def kindOf : GraphElement N → Option (ComparableKind N reading.Naive)
  | .graphLiteral lit => reading.classifyComparable lit
  | _ => none

def exactNumber : GraphElement N → Option ℚ
  | .graphLiteral (.integerLiteral i) => some i
  | .graphLiteral (.decimalLiteral d) => decimalValue (N.decimalText d).toList
  | .graphLiteral (.typedLiteral typeIri literal) =>
    if typeIri = xsdInteger then (integerValue literal.toList).map Int.cast
    else if typeIri = xsdDecimal then decimalValue literal.toList
    else none
  | _ => none

theorem compareGraphElements_eq (a b : GraphElement N) : reading.compareGraphElements a b =
    (reading.kindOf a).bind fun x => (reading.kindOf b).bind fun y =>
      (reading.compareKinds x y).map orderSign := by
  cases a with
  | graphLiteral al =>
    cases b with
    | graphLiteral bl => rfl
    | _ => cases hk : reading.kindOf (.graphLiteral al) <;> rfl
  | _ => rfl

variable {reading}

theorem parseF64_of_decimalValue {s : String} {x : ℚ} (h : decimalValue s.toList = some x) :
    parseF64 s = some (.number (binary64.rounded x)) := by
  rw [parseF64, scientificValue_of_decimalValue h]

theorem numberOf_of_exactNumber {x : ℚ} (h : exactNumber a = some x) :
    reading.numberOf a = some (.number (binary64.rounded x)) := by
  cases a with
  | nodeOrEdge r => cases h
  | tripleTerm k => cases h
  | graphLiteral lit =>
    cases lit with
    | integerLiteral i =>
      cases h
      exact parseF64_of_decimalValue (decimalValue_of_integerValue (integerValue_toString i))
    | decimalLiteral d => exact parseF64_of_decimalValue h
    | typedLiteral typeIri literal =>
      rw [exactNumber] at h
      split_ifs at h with hint hdec
      · obtain ⟨n, hn, rfl⟩ := Option.map_eq_some_iff.mp h
        have hread := parseF64_of_decimalValue (decimalValue_of_integerValue hn)
        rw [← hread]
        exact if_pos (.inl hint)
      · rw [← parseF64_of_decimalValue h]
        exact if_pos (.inr (.inl hdec))
    | _ => cases h

variable {f : BinaryFloat.Value} {k l : ComparableKind N reading.Naive} {ord : Ordering}

theorem kindOf_of_numberOf (h : reading.numberOf a = some f) :
    reading.kindOf a = some (.numeric f) := by
  cases a with
  | graphLiteral lit =>
    have hread : reading.literalToF64 lit = some f := h
    simp only [kindOf, classifyComparable, hread]
  | nodeOrEdge r => cases h
  | tripleTerm k => cases h

/-- How the class of a term for the order goes with its key for equality. -/
inductive Corresponds (a : GraphElement N) : ComparableKind N reading.Naive → EqualityKey N → Prop
  | number (f : BinaryFloat.Value) : Corresponds a (.numeric f) (.number f)
  | text (s : String) : Corresponds a (.str s) (.text s)
  | truth {x y : Bool} : elementToBool a = some y → (y → x) → Corresponds a (.bool x) (.truth y)
  | moment {k : ComparableKind N reading.Naive} : k.IsMoment → Corresponds a k (.term a)

theorem parseXsdBooleanLexical_true : parseXsdBooleanLexical "true" = some true := by decide

theorem kindOf_of_no_number {lit : RdfLiteral N}
    (h : reading.numberOf (.graphLiteral lit) = none) :
    reading.kindOf (.graphLiteral lit) = reading.classifyLexical lit := by
  rw [numberOf] at h
  rw [kindOf, classifyComparable, h]

theorem exists_corresponds (h : reading.kindOf a = some k) :
    ∃ l, reading.HasKey a l ∧ reading.Corresponds a k l := by
  obtain ⟨l, hl⟩ := reading.exists_key a
  refine ⟨l, hl, ?_⟩
  cases a with
  | nodeOrEdge r => cases h
  | tripleTerm t => cases h
  | graphLiteral lit =>
    cases hl with
    | number hn ht hb =>
      cases (kindOf_of_numberOf hn).symm.trans h
      exact .number _
    | text hn ht hb =>
      rw [kindOf_of_no_number hn] at h
      cases lit with
      | literalString s =>
        cases h
        cases ht
        exact .text _
      | typedLiteral typeIri literal =>
        obtain ⟨hs, hliteral⟩ := Option.ite_none_right_eq_some.mp ht
        rw [classifyLexical, if_pos hs] at h
        cases h
        cases hliteral
        exact .text _
      | _ => cases ht
    | truth hn ht hb =>
      rw [kindOf_of_no_number hn] at h
      cases lit with
      | booleanLiteral b =>
        cases h
        exact .truth hb fun hy => by cases hb; exact hy
      | typedLiteral typeIri literal =>
        obtain ⟨hbool, hliteral⟩ := Option.ite_none_right_eq_some.mp hb
        have hstring : typeIri ≠ xsdString := by
          rw [hbool]
          decide
        rw [classifyLexical, if_neg hstring, if_pos hbool] at h
        obtain ⟨x, hx, rfl⟩ := Option.map_eq_some_iff.mp h
        refine .truth hb fun hy => ?_
        have htrue : literal = "true" := of_decide_eq_true ((Option.some.inj hliteral).trans hy)
        rw [htrue, parseXsdBooleanLexical_true] at hx
        cases hx
        rfl
      | _ => cases hb
    | term hn ht hb =>
      rw [kindOf_of_no_number hn] at h
      cases lit with
      | dateLiteral | dateTimeLiteral =>
        cases h
        exact .moment trivial
      | typedLiteral typeIri literal =>
        have hs : typeIri ≠ xsdString :=
          fun hs => by simp [textOf, simpleOrXsdStringValue, hs] at ht
        have hbool : typeIri ≠ xsdBoolean := fun hbool => by
          simp [elementToBool, booleanOf, hbool] at hb
        rw [classifyLexical, if_neg hs, if_neg hbool] at h
        split_ifs at h with hdate htime
        · obtain ⟨d, -, rfl⟩ := Option.map_eq_some_iff.mp h
          exact .moment trivial
        · cases hparse : reading.parseDateTime literal with
          | some dt =>
            rw [hparse] at h
            cases h
            exact .moment trivial
          | none =>
            rw [hparse] at h
            obtain ⟨dt, -, rfl⟩ := Option.map_eq_some_iff.mp h
            exact .moment trivial
      | literalString s => cases ht
      | booleanLiteral b => cases hb
      | _ => cases h

theorem compareKinds_eq_iff (h : reading.compareKinds k l = some ord) : ord = .eq ↔ k = l := by
  cases k <;> cases l <;> try cases h
  case numeric.numeric x y =>
    cases x <;> cases y <;> cases h
    simp
  case date.date x y =>
    let := reading.dateOrder
    rw [compare_eq_iff_eq, ComparableKind.date.injEq]
  case dateTime.dateTime x y =>
    let := reading.dateTimeOrder
    rw [compare_eq_iff_eq, ComparableKind.dateTime.injEq]
  case dateTimeNaive.dateTimeNaive x y =>
    let := reading.naiveOrder
    rw [compare_eq_iff_eq, ComparableKind.dateTimeNaive.injEq]
  all_goals simp

theorem compareKinds_moment (h : k.IsMoment) :
    reading.compareKinds k k = some .eq := by
  cases k with
  | date d =>
    let := reading.dateOrder
    exact congrArg some (compare_eq_iff_eq.mpr rfl)
  | dateTime dt =>
    let := reading.dateTimeOrder
    exact congrArg some (compare_eq_iff_eq.mpr rfl)
  | dateTimeNaive dt =>
    let := reading.naiveOrder
    exact congrArg some (compare_eq_iff_eq.mpr rfl)
  | _ => exact h.elim

theorem compareKinds_mixed (h : reading.compareKinds k l = some ord) : k.IsMoment ↔ l.IsMoment := by
  cases k <;> cases l <;> try cases h
  all_goals exact Iff.rfl

theorem orderSign_eq_zero : orderSign ord = 0 ↔ ord = .eq := by
  cases ord <;> decide

theorem compareGraphElements_eq_some : reading.compareGraphElements a b = some o ↔
    ∃ k l ord, reading.kindOf a = some k ∧ reading.kindOf b = some l ∧
      reading.compareKinds k l = some ord ∧ orderSign ord = o := by
  rw [compareGraphElements_eq]
  simp only [Option.bind_eq_some_iff, Option.map_eq_some_iff]
  constructor
  · rintro ⟨k, hk, l, hl, ord, hord, ho⟩
    exact ⟨k, l, ord, hk, hl, hord, ho⟩
  · rintro ⟨k, l, ord, hk, hl, hord, ho⟩
    exact ⟨k, hk, l, hl, ord, hord, ho⟩

theorem compareGraphElements_numbers {x y : ℚ} (hx : exactNumber a = some x)
    (hy : exactNumber b = some y) : reading.compareGraphElements a b =
      some (orderSign (compare (binary64.rounded x) (binary64.rounded y))) := by
  have ha : reading.kindOf a = _ := kindOf_of_numberOf (numberOf_of_exactNumber hx)
  have hb : reading.kindOf b = _ := kindOf_of_numberOf (numberOf_of_exactNumber hy)
  rw [compareGraphElements_eq, ha, hb]
  rfl

/-- Equality of terms is an equivalence, the order agrees with it, and both are exact. -/
structure Consistent (reading : ValueReading N) (a b c : GraphElement N) : Prop where
  refl : reading.valuesEqual a a
  symm : reading.valuesEqual a b → reading.valuesEqual b a
  trans : reading.valuesEqual a b → reading.valuesEqual b c → reading.valuesEqual a c
  agree : ∀ o, reading.compareGraphElements a b = some o → (o = 0 ↔ reading.valuesEqual a b)
  exact : ∀ x y, exactNumber a = some x → exactNumber b = some y →
    reading.compareGraphElements a b = some (orderSign (compare x y)) ∧
      (reading.valuesEqual a b ↔ x = y)

/-- A true boolean that is not spelt `true`. -/
def Misread (reading : ValueReading N) (a : GraphElement N) : Prop :=
  reading.kindOf a = some (.bool true) ∧ elementToBool a = some false

structure Unambiguous (reading : ValueReading N) (a b : GraphElement N) : Prop where
  ordered : reading.numberOf a ≠ some .nan
  truths : ∀ x y, reading.kindOf a = some (.bool x) → reading.kindOf b = some (.bool y) →
    (reading.Misread a ↔ reading.Misread b)
  moments : ∀ k, k.IsMoment → reading.kindOf a = some k → reading.kindOf b = some k → a = b
  numbers : ∀ x y, exactNumber a = some x → exactNumber b = some y →
    binary64.rounded x = binary64.rounded y → x = y

theorem truths_agree {x y x' y' : Bool} (ha : reading.kindOf a = some (.bool x))
    (hb : reading.kindOf b = some (.bool y)) (ha' : elementToBool a = some x')
    (hb' : elementToBool b = some y') (hx : x' → x) (hy : y' → y) :
    (x = y ↔ x' = y') ↔ (reading.Misread a ↔ reading.Misread b) := by
  rw [Misread, Misread, ha, hb, ha', hb']
  revert hx hy
  cases x <;> cases y <;> cases x' <;> cases y' <;> simp

theorem agree_iff : (∀ o, reading.compareGraphElements a b = some o →
      (o = 0 ↔ reading.valuesEqual a b)) ↔
    (∀ x y, reading.kindOf a = some (.bool x) → reading.kindOf b = some (.bool y) →
      (reading.Misread a ↔ reading.Misread b)) ∧
    ∀ k, k.IsMoment → reading.kindOf a = some k → reading.kindOf b = some k → a = b := by
  constructor
  · intro h
    refine ⟨fun x y ha hb => ?_, fun k hk ha hb => ?_⟩
    · obtain ⟨ka, hka, hca⟩ := exists_corresponds ha
      obtain ⟨kb, hkb, hcb⟩ := exists_corresponds hb
      have hiff := h _ (compareGraphElements_eq_some.mpr ⟨_, _, _, ha, hb, rfl, rfl⟩)
      rw [orderSign_eq_zero, compare_eq_iff_eq, valuesEqual_iff hka hkb] at hiff
      cases hca with
      | moment hk => exact hk.elim
      | truth hx' hx =>
        cases hcb with
        | moment hk => exact hk.elim
        | truth hy' hy =>
          refine (truths_agree ha hb hx' hy' hx hy).mp ?_
          simpa using hiff
    · obtain ⟨ka, hka, hca⟩ := exists_corresponds ha
      obtain ⟨kb, hkb, hcb⟩ := exists_corresponds hb
      have hcmp := compareGraphElements_eq_some.mpr
        ⟨_, _, _, ha, hb, compareKinds_moment hk, rfl⟩
      have hequal := (valuesEqual_iff hka hkb).mp ((h _ hcmp).mp rfl)
      cases hca with
      | moment =>
        cases hcb with
        | moment => exact EqualityKey.term.inj hequal.1
        | _ => exact hk.elim
      | _ => exact hk.elim
  · rintro ⟨htruths, hmoments⟩ o ho
    obtain ⟨k, l, ord, ha, hb, hord, rfl⟩ := compareGraphElements_eq_some.mp ho
    obtain ⟨ka, hka, hca⟩ := exists_corresponds ha
    obtain ⟨kb, hkb, hcb⟩ := exists_corresponds hb
    rw [orderSign_eq_zero, compareKinds_eq_iff hord, valuesEqual_iff hka hkb]
    have hmixed := compareKinds_mixed hord
    cases hca with
    | moment hk =>
      have hl := hmixed.mp hk
      cases hcb with
      | moment =>
        constructor
        · rintro rfl
          have hab := hmoments k hk ha hb
          exact ⟨congrArg _ hab, by simp⟩
        · rintro ⟨hterm, -⟩
          cases EqualityKey.term.inj hterm
          exact Option.some.inj (ha.symm.trans hb)
      | _ => exact hl.elim
    | number f =>
      cases hcb with
      | number g =>
        cases f <;> cases g <;> cases hord
        simp
      | text s => cases hord
      | truth => cases hord
      | moment hl => exact (hmixed.mpr hl).elim
    | text s =>
      cases hcb with
      | number g => cases hord
      | text t => simp
      | truth => cases hord
      | moment hl => exact (hmixed.mpr hl).elim
    | truth hx' hx =>
      cases hcb with
      | number g => cases hord
      | text t => cases hord
      | truth hy' hy =>
        have hiff := (truths_agree ha hb hx' hy' hx hy).mpr (htruths _ _ ha hb)
        simpa using hiff
      | moment hl => exact (hmixed.mpr hl).elim

theorem HasKey.of_numberOf {k : EqualityKey N} (h : reading.HasKey a k)
    (hf : reading.numberOf a = some f) : k = .number f := by
  cases h <;> simp_all

theorem exact_iff {x y : ℚ} (hx : exactNumber a = some x) (hy : exactNumber b = some y) :
    (reading.compareGraphElements a b = some (orderSign (compare x y)) ∧
      (reading.valuesEqual a b ↔ x = y)) ↔
    (binary64.rounded x = binary64.rounded y → x = y) := by
  obtain ⟨ka, hka⟩ := reading.exists_key a
  obtain ⟨kb, hkb⟩ := reading.exists_key b
  have hequal : reading.valuesEqual a b ↔ binary64.rounded x = binary64.rounded y := by
    rw [valuesEqual_iff hka hkb, hka.of_numberOf (numberOf_of_exactNumber hx),
      hkb.of_numberOf (numberOf_of_exactNumber hy)]
    simp
  rw [compareGraphElements_numbers hx hy, hequal, Option.some.injEq]
  constructor
  · rintro ⟨-, hiff⟩
    exact hiff.mp
  · intro h
    refine ⟨congrArg orderSign ((binary64.compare_rounded_iff).mpr h), h, ?_⟩
    exact congrArg _

/-- Equality and order are consistent exactly on terms that are not a NaN, are no booleans of which
one is misread, no two spellings of one moment, and no two numbers that round to one. -/
theorem consistent_iff (reading : ValueReading N) (a b c : GraphElement N) :
    reading.Consistent a b c ↔ reading.Unambiguous a b := by
  obtain ⟨ka, hka⟩ := reading.exists_key a
  obtain ⟨kb, hkb⟩ := reading.exists_key b
  obtain ⟨kc, hkc⟩ := reading.exists_key c
  have hexact : (∀ x y, exactNumber a = some x → exactNumber b = some y →
      reading.compareGraphElements a b = some (orderSign (compare x y)) ∧
        (reading.valuesEqual a b ↔ x = y)) ↔
      ∀ x y, exactNumber a = some x → exactNumber b = some y →
        binary64.rounded x = binary64.rounded y → x = y :=
    forall₂_congr fun x y => forall₂_congr fun hx hy => exact_iff hx hy
  have hrefl : reading.valuesEqual a a ↔ reading.numberOf a ≠ some .nan := by
    rw [valuesEqual_iff hka hka]
    cases hka <;> simp_all
  constructor
  · intro h
    obtain ⟨htruths, hmoments⟩ := agree_iff.mp h.agree
    exact ⟨hrefl.mp h.refl, htruths, hmoments, hexact.mp h.exact⟩
  · intro h
    refine ⟨hrefl.mpr h.ordered, ?_, ?_, agree_iff.mpr ⟨h.truths, h.moments⟩,
      hexact.mpr h.numbers⟩
    · rw [valuesEqual_iff hka hkb, valuesEqual_iff hkb hka]
      rintro ⟨rfl, hne⟩
      exact ⟨rfl, hne⟩
    · rw [valuesEqual_iff hka hkb, valuesEqual_iff hkb hkc, valuesEqual_iff hka hkc]
      rintro ⟨rfl, hne⟩ ⟨rfl, -⟩
      exact ⟨rfl, hne⟩

end Order

def ofText : ValueReading NativeTypes.text where
  Naive := String
  floatValue f := (parseF64 f).getD .nan
  parseNaiveDate _ := none
  parseDateTime _ := none
  parseNaiveDateTime _ := none
  dateOrder := inferInstanceAs (LinearOrder String)
  dateTimeOrder := inferInstanceAs (LinearOrder String)
  naiveOrder := inferInstanceAs (LinearOrder String)

/-- `"1"^^xsd:boolean <= true` and the converse hold, and `"1"^^xsd:boolean = true` does not. -/
theorem not_consistent_booleans :
    let one : GraphElement NativeTypes.text := .graphLiteral (.typedLiteral xsdBoolean "1")
    let true' : GraphElement NativeTypes.text := .graphLiteral (.typedLiteral xsdBoolean "true")
    ofText.compareGraphElements one true' = some 0 ∧ ofText.valuesEqual one true' = false ∧
      ¬ ofText.Consistent one true' one := by
  have hcmp : ofText.compareGraphElements (.graphLiteral (.typedLiteral xsdBoolean "1"))
      (.graphLiteral (.typedLiteral xsdBoolean "true")) = some 0 := by decide
  have hequal : ofText.valuesEqual (.graphLiteral (.typedLiteral xsdBoolean "1"))
      (.graphLiteral (.typedLiteral xsdBoolean "true")) = false := by decide
  refine ⟨hcmp, hequal, fun h => ?_⟩
  have htrue := (h.agree 0 hcmp).mp rfl
  rw [hequal] at htrue
  cases htrue

end ValueReading

end RdfDatalog.Sparql
