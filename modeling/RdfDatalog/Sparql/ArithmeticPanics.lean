import RdfDatalog.Sparql.AggregateSubstitution
import RdfDatalog.Math.BinaryFloat
import RdfDatalog.Math.Numerals

namespace RdfDatalog.Sparql

open BinaryFloat Numerals

variable {N : NativeTypes}

/-- What an operator on decimals aborts the request with. -/
inductive ArithmeticPanic where
  | overflow
  | divisionByZero
  deriving DecidableEq

/-- One more than the largest 96-bit coefficient. -/
def decimalLimit : ℚ := 2 ^ 96

/-- The exact result of an arithmetic operator. -/
def BinaryOp.exact : BinaryOp → ℚ → ℚ → ℚ
  | .add, x, y => x + y
  | .sub, x, y => x - y
  | .mul, x, y => x * y
  | .div, x, y => x / y
  | _, _, _ => 0

/-- The decimal library. An operation has a result exactly if its exact result fits 96 bits, and
the result is off by the fraction that is cut. -/
structure DecimalOps (N : NativeTypes) extends NumericOps N where
  value : N.Decimal → ℚ
  fits : ℚ → Prop
  checkedOp : BinaryOp → N.Decimal → N.Decimal → Option N.Decimal
  zero : N.Decimal
  ofCount : ℕ → N.Decimal
  floatOfCount : ℕ → N.Float
  floatSum : List N.Float → N.Float
  fits_of_abs_lt {x : ℚ} : |x| < decimalLimit - 1 → fits x
  abs_lt_of_fits {x : ℚ} : fits x → |x| < decimalLimit
  fits_value (d : N.Decimal) : fits (value d)
  fits_of_abs_le {x y : ℚ} : |x| ≤ |y| → fits y → fits x
  decimalIsZero_iff (d : N.Decimal) : decimalIsZero d = true ↔ value d = 0
  checkedOp_isSome {op : BinaryOp} {a b : N.Decimal} : op.isArithmetic → (op = .div → value b ≠ 0) →
    ((checkedOp op a b).isSome ↔ fits (op.exact (value a) (value b)))
  rounds {op : BinaryOp} {a b c : N.Decimal} : checkedOp op a b = some c →
    |value c - op.exact (value a) (value b)| ≤ 1
  decimalOp_of_checkedOp {op : BinaryOp} {a b c : N.Decimal} : checkedOp op a b = some c →
    decimalOp op a b = c
  value_zero : value zero = 0
  one_le_ofCount {n : ℕ} : n ≠ 0 → 1 ≤ value (ofCount n)
  value_parse {i : ℤ} {d : N.Decimal} : parseDecimal (toString i) = some d → value d = i

namespace DecimalOps

variable (ops : DecimalOps N)

def decimalOperator (op : BinaryOp) (a b : N.Decimal) : Except ArithmeticPanic N.Decimal :=
  if op = .div ∧ ops.decimalIsZero b then .error .divisionByZero
  else
    match ops.checkedOp op a b with
    | some c => .ok c
    | none => .error .overflow

/-- Evaluate an operator between two numbers. -/
def binaryNumbers (op : BinaryOp) (ln rn : NumericLit N) :
    Except ArithmeticPanic (Option (NumericLit N)) :=
  let ops' := ops.toNumericOps
  if ln.isDouble || rn.isDouble then
    .ok ((applyF64Op ops' op (numericLitToF64 ops' ln) (numericLitToF64 ops' rn)).map .double)
  else if ln.isFloat || rn.isFloat then
    .ok ((applyF64Op ops' op (numericLitToF64 ops' ln) (numericLitToF64 ops' rn)).map .float)
  else
    match ln, rn with
    | .integer a, .integer b =>
      match op with
      | .add => .ok (some (.integer (a + b)))
      | .sub => .ok (some (.integer (a - b)))
      | .mul => .ok (some (.integer (a * b)))
      | .div =>
        if b = 0 then .ok none
        else
          match numericLitToDecimal ops' ln, numericLitToDecimal ops' rn with
          | some ad, some bd => do
            let result ← ops.decimalOperator .div ad bd
            pure (some (.decimal result))
          | _, _ => .ok none
      | _ => .ok none
    | _, _ =>
      match numericLitToDecimal ops' ln, numericLitToDecimal ops' rn with
      | some ad, some bd =>
        match op with
        | .add | .sub | .mul => do
          let result ← ops.decimalOperator op ad bd
          pure (some (.decimal result))
        | .div =>
          if ops.decimalIsZero bd then .ok none
          else do
            let result ← ops.decimalOperator .div ad bd
            pure (some (.decimal result))
        | _ => .ok none
      | _, _ => .ok none

/-- The number of a value, if it is a numeric literal. -/
def classifyElement : GraphElement N → Option (NumericLit N)
  | .graphLiteral lit => classifyNumeric ops.toNumericOps lit
  | _ => none

/-- Evaluate a binary operation between two already-resolved values. -/
def evalBinaryValue (op : BinaryOp) (l r : GraphElement N) :
    Except ArithmeticPanic (Option (GraphElement N)) :=
  match ops.classifyElement l, ops.classifyElement r with
  | some ln, some rn => do
    let result ← ops.binaryNumbers op ln rn
    pure (result.map numericLitToElement)
  | _, _ => .ok none

def addDecimals (total : N.Decimal) : List (NumericLit N) →
    Except ArithmeticPanic (Option N.Decimal)
  | [] => .ok (some total)
  | n :: ns =>
    match numericLitToDecimal ops.toNumericOps n with
    | none => .ok none
    | some d => do
      let total ← ops.decimalOperator .add total d
      addDecimals total ns

/-- The integer of a number that is one. -/
def integer? : NumericLit N → Option ℤ
  | .integer i => some i
  | _ => none

/-- Sum a list of numbers, in the widest of their types. -/
def sumNumbers (numbers : List (NumericLit N)) : Except ArithmeticPanic (Option (NumericLit N)) :=
  let floats := numbers.map (numericLitToF64 ops.toNumericOps)
  if numbers.any NumericLit.isDouble then .ok (some (.double (ops.floatSum floats)))
  else if numbers.any NumericLit.isFloat then .ok (some (.float (ops.floatSum floats)))
  else if numbers.all fun n => (integer? n).isSome then
    .ok (some (.integer (numbers.filterMap integer?).sum))
  else do
    let total ← ops.addDecimals ops.zero numbers
    pure (total.map .decimal)

def sumValues (values : List (GraphElement N)) : Except ArithmeticPanic (Option (GraphElement N)) :=
  if values.isEmpty then .ok (some (numericLitToElement (.integer 0)))
  else
    match values.mapM ops.classifyElement with
    | none => .ok none
    | some numbers => do
      let sum ← ops.sumNumbers numbers
      pure (sum.map numericLitToElement)

/-- Divide a sum by the number of its values. -/
def divideByCount (sum : NumericLit N) (count : ℕ) :
    Except ArithmeticPanic (Option (GraphElement N)) :=
  match sum with
  | .double f =>
    .ok (some (numericLitToElement (.double (ops.floatOp .div f (ops.floatOfCount count)))))
  | .float f =>
    .ok (some (numericLitToElement (.float (ops.floatOp .div f (ops.floatOfCount count)))))
  | _ =>
    match numericLitToDecimal ops.toNumericOps sum with
    | none => .ok none
    | some sumD => do
      let average ← ops.decimalOperator .div sumD (ops.ofCount count)
      pure (some (numericLitToElement (.decimal average)))

/-- `AVG` over a list of values. -/
def averageValues (values : List (GraphElement N)) :
    Except ArithmeticPanic (Option (GraphElement N)) :=
  if values.isEmpty then .ok none
  else do
    match ← ops.sumValues values with
    | none => pure none
    | some sum =>
      match ops.classifyElement sum with
      | none => pure none
      | some sumN => ops.divideByCount sumN values.length

section Returns

variable {ops} {α β : Type} {op : BinaryOp} {a b total : N.Decimal} {ln rn : NumericLit N}

/-- A computation that does not abort. -/
def Returns (x : Except ArithmeticPanic α) : Prop := ∃ r, x = .ok r

theorem returns_ok (r : α) : Returns (.ok r : Except ArithmeticPanic α) := ⟨r, rfl⟩

theorem returns_bind {x : Except ArithmeticPanic α} {f : α → β} :
    Returns (do let r ← x; pure (f r)) ↔ Returns x := by
  constructor
  · rintro ⟨r, hr⟩
    cases x with
    | error e => cases hr
    | ok y => exact ⟨y, rfl⟩
  · rintro ⟨r, rfl⟩
    exact ⟨f r, rfl⟩

theorem decimalOperator_returns (hop : op.isArithmetic) : Returns (ops.decimalOperator op a b) ↔
    (op = .div → ops.value b ≠ 0) ∧ ops.fits (op.exact (ops.value a) (ops.value b)) := by
  unfold decimalOperator
  by_cases hzero : op = .div ∧ ops.decimalIsZero b
  · rw [if_pos hzero]
    constructor
    · rintro ⟨r, hr⟩
      cases hr
    · rintro ⟨hne, -⟩
      exact absurd ((ops.decimalIsZero_iff b).mp hzero.2) (hne hzero.1)
  · have hne : op = .div → ops.value b ≠ 0 := fun hdiv hb =>
      hzero ⟨hdiv, (ops.decimalIsZero_iff b).mpr hb⟩
    rw [if_neg hzero, and_iff_right hne, ← ops.checkedOp_isSome hop hne]
    cases ops.checkedOp op a b with
    | none | some => simp [Returns]

theorem decimalOperator_add : ops.decimalOperator .add a b =
    (ops.checkedOp .add a b).elim (.error .overflow) .ok := by
  rw [decimalOperator, if_neg (by simp)]
  cases ops.checkedOp .add a b <;> rfl

theorem division_returns (h : 1 ≤ |ops.value b|) : Returns (ops.decimalOperator .div a b) := by
  have hne : ops.value b ≠ 0 := by
    intro hb
    rw [hb, abs_zero] at h
    linarith
  refine (decimalOperator_returns rfl).mpr ⟨fun _ => hne, ?_⟩
  refine ops.fits_of_abs_le ?_ (ops.fits_value a)
  rw [BinaryOp.exact, abs_div]
  exact div_le_self (abs_nonneg _) h

/-- The exact result of two numbers of which one is a decimal and none a float fits 96 bits. -/
def NumbersFit (ops : DecimalOps N) (op : BinaryOp) (ln rn : NumericLit N) : Prop :=
  ∀ ad bd, numericLitToDecimal ops.toNumericOps ln = some ad →
    numericLitToDecimal ops.toNumericOps rn = some bd → (integer? ln = none ∨ integer? rn = none) →
    op.isArithmetic → (op = .div → ops.value bd ≠ 0) →
    ops.fits (op.exact (ops.value ad) (ops.value bd))

theorem numericLitToDecimal_float (h : ln.isDouble || ln.isFloat) :
    numericLitToDecimal ops.toNumericOps ln = none := by
  cases ln <;> first | rfl | cases h

/-- The decimal arithmetic of `binaryNumbers`. -/
def decimalNumbers (ops : DecimalOps N) (op : BinaryOp) (ln rn : NumericLit N) :
    Except ArithmeticPanic (Option (NumericLit N)) :=
  match numericLitToDecimal ops.toNumericOps ln, numericLitToDecimal ops.toNumericOps rn with
  | some ad, some bd =>
    match op with
    | .add | .sub | .mul => do
      let result ← ops.decimalOperator op ad bd
      pure (some (.decimal result))
    | .div =>
      if ops.decimalIsZero bd then .ok none
      else do
        let result ← ops.decimalOperator .div ad bd
        pure (some (.decimal result))
    | _ => .ok none
  | _, _ => .ok none

theorem decimalNumbers_returns (h : integer? ln = none ∨ integer? rn = none) :
    Returns (ops.decimalNumbers op ln rn) ↔ ops.NumbersFit op ln rn := by
  unfold decimalNumbers NumbersFit
  cases hl : numericLitToDecimal ops.toNumericOps ln with
  | none => simp [Returns]
  | some ad =>
    cases hr : numericLitToDecimal ops.toNumericOps rn with
    | none => simp [Returns]
    | some bd =>
      have hfit : (∀ ad' bd', some ad = some ad' → some bd = some bd' →
          (integer? ln = none ∨ integer? rn = none) → op.isArithmetic →
          (op = .div → ops.value bd' ≠ 0) →
          ops.fits (op.exact (ops.value ad') (ops.value bd'))) ↔
          (op.isArithmetic → (op = .div → ops.value bd ≠ 0) →
            ops.fits (op.exact (ops.value ad) (ops.value bd))) := by
        constructor
        · exact fun hfit => hfit ad bd rfl rfl h
        · intro hfit ad' bd' had hbd _
          cases had
          cases hbd
          exact hfit
      rw [hfit]
      cases op with
      | add | sub | mul =>
        simp only [returns_bind]
        rw [decimalOperator_returns rfl]
        simp [BinaryOp.isArithmetic]
      | div =>
        by_cases hzero : ops.decimalIsZero bd
        · have hvalue := (ops.decimalIsZero_iff bd).mp hzero
          simp [hzero, hvalue, Returns]
        · have hvalue : ops.value bd ≠ 0 := fun hb => hzero ((ops.decimalIsZero_iff bd).mpr hb)
          simp only [if_neg hzero, returns_bind]
          rw [decimalOperator_returns rfl]
          simp [BinaryOp.isArithmetic, hvalue]
      | _ => simp [Returns, BinaryOp.isArithmetic]

theorem binaryNumbers_div (i j : ℤ) : ops.binaryNumbers .div (.integer i) (.integer j) =
    if j = 0 then .ok none
    else
      match numericLitToDecimal ops.toNumericOps (.integer i),
        numericLitToDecimal ops.toNumericOps (.integer j) with
      | some ad, some bd => do
        let result ← ops.decimalOperator .div ad bd
        pure (some (.decimal result))
      | _, _ => .ok none := rfl

theorem integerDivision_returns (i j : ℤ) :
    Returns (ops.binaryNumbers .div (.integer i) (.integer j)) := by
  rw [binaryNumbers_div]
  by_cases hj : j = 0
  · rw [if_pos hj]
    exact returns_ok _
  · rw [if_neg hj]
    cases numericLitToDecimal ops.toNumericOps (.integer i) with
    | none => exact returns_ok _
    | some ad =>
      cases hr : numericLitToDecimal ops.toNumericOps (.integer j) with
      | none => exact returns_ok _
      | some bd =>
        have hone : 1 ≤ |ops.value bd| := by
          rw [ops.value_parse hr]
          exact_mod_cast Int.one_le_abs hj
        exact returns_bind.mpr (division_returns hone)

theorem binaryNumbers_returns (op : BinaryOp) (ln rn : NumericLit N) :
    Returns (ops.binaryNumbers op ln rn) ↔ ops.NumbersFit op ln rn := by
  by_cases hfloat : (ln.isDouble || ln.isFloat) || (rn.isDouble || rn.isFloat)
  · have hreturns : Returns (ops.binaryNumbers op ln rn) := by
      unfold binaryNumbers
      cases ln <;> cases rn <;> first | exact returns_ok _ | cases hfloat
    refine iff_of_true hreturns fun ad bd had hbd => ?_
    rcases Bool.or_eq_true _ _ ▸ hfloat with h | h
    · rw [numericLitToDecimal_float h] at had
      cases had
    · rw [numericLitToDecimal_float h] at hbd
      cases hbd
  · cases ln with
    | integer i =>
      cases rn with
      | integer j =>
        have hreturns : Returns (ops.binaryNumbers op (.integer i) (.integer j)) := by
          cases op with
          | div => exact integerDivision_returns i j
          | _ => exact returns_ok _
        refine iff_of_true hreturns fun ad bd _ _ h => ?_
        rcases h with h | h <;> cases h
      | decimal d => exact decimalNumbers_returns (.inr rfl)
      | float | double => exact absurd rfl hfloat
    | decimal d =>
      have hdecimal (rn : NumericLit N) : Returns (ops.decimalNumbers op (.decimal d) rn) ↔
          ops.NumbersFit op (.decimal d) rn := decimalNumbers_returns (.inl rfl)
      cases rn with
      | integer j => exact hdecimal (.integer j)
      | decimal d' => exact hdecimal (.decimal d')
      | float | double => exact absurd rfl hfloat
    | float f => exact absurd rfl hfloat
    | double f => exact absurd rfl hfloat

/-- The result of an operator between two values fits 96 bits, if it is a decimal. -/
def OperatorFits (ops : DecimalOps N) (op : BinaryOp) (l r : GraphElement N) : Prop :=
  ∀ ln rn, ops.classifyElement l = some ln → ops.classifyElement r = some rn →
    ops.NumbersFit op ln rn

theorem evalBinaryValue_returns (op : BinaryOp) (l r : GraphElement N) :
    Returns (ops.evalBinaryValue op l r) ↔ ops.OperatorFits op l r := by
  unfold evalBinaryValue OperatorFits
  cases ops.classifyElement l with
  | none => simp [Returns]
  | some ln =>
    cases ops.classifyElement r with
    | none => simp [Returns]
    | some rn =>
      simp only [returns_bind]
      rw [binaryNumbers_returns]
      simp

def TotalsFit (ops : DecimalOps N) (total : N.Decimal) : List (NumericLit N) → Prop
  | [] => True
  | n :: ns => ∀ d, numericLitToDecimal ops.toNumericOps n = some d →
    ops.fits (ops.value total + ops.value d) ∧
      ∀ next, ops.checkedOp .add total d = some next → TotalsFit ops next ns

theorem addDecimals_returns (total : N.Decimal) (ns : List (NumericLit N)) :
    Returns (ops.addDecimals total ns) ↔ ops.TotalsFit total ns := by
  induction ns generalizing total with
  | nil => exact iff_of_true (returns_ok _) trivial
  | cons n ns ih =>
    unfold addDecimals TotalsFit
    cases hn : numericLitToDecimal ops.toNumericOps n with
    | none => simp [Returns]
    | some d =>
      have hsome : (ops.checkedOp .add total d).isSome ↔ ops.fits (ops.value total + ops.value d) :=
        ops.checkedOp_isSome rfl (by simp)
      dsimp only
      rw [decimalOperator_add]
      cases hc : ops.checkedOp .add total d with
      | none =>
        rw [hc] at hsome
        refine iff_of_false ?_ fun h => ?_
        · rintro ⟨r, hr⟩
          cases hr
        · cases hsome.mpr (h d rfl).1
      | some next =>
        rw [hc] at hsome
        refine (ih next).trans ?_
        constructor
        · intro h d' hd'
          cases hd'
          refine ⟨hsome.mp rfl, fun next' hnext => ?_⟩
          cases hc.symm.trans hnext
          exact h
        · exact fun h => (h d rfl).2 next hc

def SummedAsDecimals (numbers : List (NumericLit N)) : Prop :=
  ¬ numbers.any NumericLit.isDouble ∧ ¬ numbers.any NumericLit.isFloat ∧
    ¬ numbers.all fun n => (integer? n).isSome

/-- The totals of a group fit 96 bits, if its sum is a decimal. -/
def SumFits (ops : DecimalOps N) (values : List (GraphElement N)) : Prop :=
  ∀ numbers, values.mapM ops.classifyElement = some numbers → SummedAsDecimals numbers →
    ops.TotalsFit ops.zero numbers

theorem sumNumbers_returns (numbers : List (NumericLit N)) : Returns (ops.sumNumbers numbers) ↔
    (SummedAsDecimals numbers → ops.TotalsFit ops.zero numbers) := by
  unfold sumNumbers SummedAsDecimals
  dsimp only
  split_ifs with hdouble hfloat hint
  · simp [Returns, hdouble]
  · simp [Returns, hfloat]
  · simp only [hint, not_true_eq_false, and_false, false_implies, iff_true]
    exact returns_ok _
  · rw [returns_bind, addDecimals_returns]
    exact ⟨fun h _ => h, fun h => h ⟨hdouble, hfloat, hint⟩⟩

theorem sumValues_returns (values : List (GraphElement N)) :
    Returns (ops.sumValues values) ↔ ops.SumFits values := by
  unfold sumValues SumFits
  by_cases hempty : values.isEmpty
  · rw [if_pos hempty, List.isEmpty_iff.mp hempty]
    refine iff_of_true (returns_ok _) fun numbers hnumbers hdecimals => ?_
    cases hnumbers
    exact absurd rfl hdecimals.2.2
  · rw [if_neg hempty]
    cases values.mapM ops.classifyElement with
    | none => simp [Returns]
    | some numbers =>
      dsimp only
      rw [returns_bind, sumNumbers_returns]
      simp

theorem divideByCount_returns (sum : NumericLit N) {count : ℕ} (h : count ≠ 0) :
    Returns (ops.divideByCount sum count) := by
  have hone : 1 ≤ |ops.value (ops.ofCount count)| :=
    (ops.one_le_ofCount h).trans (le_abs_self _)
  have hdivision (a : N.Decimal) : Returns (do
      let average ← ops.decimalOperator .div a (ops.ofCount count)
      pure (some (numericLitToElement (.decimal average) : GraphElement N))) :=
    returns_bind.mpr (division_returns hone)
  cases sum with
  | double | float => exact returns_ok _
  | decimal d => exact hdivision d
  | integer i =>
    unfold divideByCount
    cases numericLitToDecimal ops.toNumericOps (.integer i) with
    | none => exact returns_ok _
    | some d => exact hdivision d

theorem averageValues_returns (values : List (GraphElement N)) :
    Returns (ops.averageValues values) ↔ Returns (ops.sumValues values) := by
  unfold averageValues
  by_cases hempty : values.isEmpty
  · rw [if_pos hempty, sumValues, if_pos hempty]
    exact iff_of_true (returns_ok _) (returns_ok _)
  · have hcount : values.length ≠ 0 := by simpa using hempty
    rw [if_neg hempty]
    cases ops.sumValues values with
    | error e =>
      refine iff_of_false ?_ ?_
      · rintro ⟨r, hr⟩
        cases hr
      · rintro ⟨r, hr⟩
        cases hr
    | ok sum? =>
      refine iff_of_true ?_ (returns_ok _)
      cases sum? with
      | none => exact returns_ok _
      | some sum =>
        change Returns (match ops.classifyElement sum with
          | none => pure none
          | some sumN => ops.divideByCount sumN values.length)
        cases ops.classifyElement sum with
        | none => exact returns_ok _
        | some sumN => exact divideByCount_returns sumN hcount

/-- `SUM` and `AVG` over a group and an operator between two values do not abort. -/
structure NeverPanics (ops : DecimalOps N) (values : List (GraphElement N)) (op : BinaryOp)
    (l r : GraphElement N) : Prop where
  sum : Returns (ops.sumValues values)
  average : Returns (ops.averageValues values)
  binary : Returns (ops.evalBinaryValue op l r)

/-- Query arithmetic aborts exactly where a running decimal total of a group, or the exact result
of an operator with a decimal operand, does not fit 96 bits. -/
theorem neverPanics_iff (ops : DecimalOps N) (values : List (GraphElement N)) (op : BinaryOp)
    (l r : GraphElement N) :
    ops.NeverPanics values op l r ↔ ops.SumFits values ∧ ops.OperatorFits op l r := by
  rw [← sumValues_returns, ← evalBinaryValue_returns]
  constructor
  · exact fun h => ⟨h.sum, h.binary⟩
  · exact fun ⟨hsum, hbinary⟩ => ⟨hsum, (averageValues_returns values).mpr hsum, hbinary⟩

end Returns

end DecimalOps

/-- Decimals without a fraction. -/
abbrev Whole : Type := { n : ℤ // |(n : ℚ)| < decimalLimit }

abbrev wholeTypes : NativeTypes :=
  { NativeTypes.text with
    Decimal := Whole
    decimalText := fun d => toString d.val
    decimalEq := inferInstanceAs (DecidableEq Whole) }

def whole? (n : ℤ) : Option Whole := if h : |(n : ℚ)| < decimalLimit then some ⟨n, h⟩ else none

theorem whole?_eq_some {n : ℤ} {d : Whole} : whole? n = some d ↔ d.val = n := by
  unfold whole?
  split_ifs with h
  · rw [Option.some.injEq, Subtype.ext_iff]
    exact eq_comm
  · refine iff_of_false (fun hd => by cases hd) ?_
    rintro rfl
    exact h d.property

theorem isSome_whole? {n : ℤ} : (whole? n).isSome ↔ |(n : ℚ)| < decimalLimit := by
  unfold whole?
  split_ifs with h <;> simp [h]

/-- The whole number next to zero, if the exact result is in range. -/
def wholeOp (op : BinaryOp) (a b : Whole) : Option Whole :=
  if |op.exact a.val b.val| < decimalLimit then whole? (truncate (op.exact a.val b.val)) else none

def wholeOne : Whole := ⟨1, by norm_num [decimalLimit]⟩

def wholeNumbers : DecimalOps wholeTypes where
  parseInteger s := integerValue s.toList
  parseDecimal s := (integerValue s.toList).bind whole?
  parseFloat _ := none
  nan := "NaN"
  decimalOp op a b := (wholeOp op a b).getD a
  floatOp _ a _ := a
  decimalIsZero d := d.val = 0
  floatIsZero _ := false
  parseDecimal_isZero {i d} h := by
    rw [integerValue_toString] at h
    have hd : d.val = i := whole?_eq_some.mp h
    simp [hd]
  value d := (d.val : ℚ)
  fits x := |x| < decimalLimit
  checkedOp := wholeOp
  zero := ⟨0, by norm_num [decimalLimit]⟩
  ofCount n := (whole? n).getD wholeOne
  floatOfCount _ := "NaN"
  floatSum _ := "NaN"
  fits_of_abs_lt h := by linarith
  abs_lt_of_fits h := h
  fits_value d := d.property
  fits_of_abs_le h h' := lt_of_le_of_lt h h'
  decimalIsZero_iff d := by simp
  checkedOp_isSome {op a b} _ _ := by
    unfold wholeOp
    split_ifs with h
    · refine iff_of_true (isSome_whole?.mpr ?_) h
      exact (abs_truncate_le _).trans_lt h
    · exact iff_of_false Bool.false_ne_true h
  rounds {op a b c} h := by
    unfold wholeOp at h
    split_ifs at h
    have hc : c.val = truncate _ := whole?_eq_some.mp h
    rw [hc]
    exact abs_truncate_sub_le _
  decimalOp_of_checkedOp h := by rw [h]; rfl
  value_zero := by norm_num
  one_le_ofCount {n} hn := by
    cases hw : whole? n with
    | none => norm_num [wholeOne]
    | some d =>
      have hd : d.val = n := whole?_eq_some.mp hw
      simpa [hd] using Nat.one_le_iff_ne_zero.mpr hn
  value_parse {i d} h := by
    rw [integerValue_toString] at h
    have hd : d.val = i := whole?_eq_some.mp h
    rw [hd]

def largest : Whole := ⟨79228162514264337593543950335, by norm_num [decimalLimit]⟩

def largestDecimal : GraphElement wholeTypes :=
  .graphLiteral (.typedLiteral xsdDecimal "79228162514264337593543950335")

/-- `SUM` over the largest decimal, stored in two solutions, aborts the request. -/
theorem not_neverPanics_largest :
    wholeNumbers.sumValues [largestDecimal, largestDecimal] = .error .overflow ∧
      ¬ wholeNumbers.NeverPanics [largestDecimal, largestDecimal] .add largestDecimal
        largestDecimal := by
  have hsum : wholeNumbers.sumValues [largestDecimal, largestDecimal] = .error .overflow := by
    have hclass : wholeNumbers.classifyElement largestDecimal = some (.decimal largest) := by
      have hvalue : integerValue "79228162514264337593543950335".toList =
          some 79228162514264337593543950335 := by decide
      have hread : (integerValue "79228162514264337593543950335".toList).bind whole? =
          some largest := by
        rw [hvalue]
        exact whole?_eq_some.mpr rfl
      rw [largestDecimal, DecimalOps.classifyElement, classifyNumeric,
        if_neg (by decide), if_pos rfl]
      exact Option.map_eq_some_iff.mpr ⟨largest, hread, rfl⟩
    have hfirst : wholeNumbers.decimalOperator .add wholeNumbers.zero largest = .ok largest := by
      have hop : wholeOp .add wholeNumbers.zero largest = some largest := by
        unfold wholeOp
        rw [if_pos (by norm_num [BinaryOp.exact, wholeNumbers, largest, decimalLimit])]
        refine whole?_eq_some.mpr ?_
        norm_num [BinaryOp.exact, wholeNumbers, largest, truncate]
      have hchecked : wholeNumbers.checkedOp .add wholeNumbers.zero largest = some largest := hop
      rw [DecimalOps.decimalOperator_add, hchecked, Option.elim_some]
    have hsecond : wholeNumbers.decimalOperator .add largest largest = .error .overflow := by
      have hop : wholeOp .add largest largest = none :=
        if_neg (by norm_num [BinaryOp.exact, largest, decimalLimit])
      have hchecked : wholeNumbers.checkedOp .add largest largest = none := hop
      rw [DecimalOps.decimalOperator_add, hchecked, Option.elim_none]
    have hnumbers : [largestDecimal, largestDecimal].mapM wholeNumbers.classifyElement =
        some [.decimal largest, .decimal largest] := by
      rw [List.mapM_cons, List.mapM_cons, List.mapM_nil, hclass]
      rfl
    have htotal : wholeNumbers.addDecimals wholeNumbers.zero [.decimal largest, .decimal largest] =
        .error .overflow := by
      rw [DecimalOps.addDecimals, numericLitToDecimal]
      dsimp only
      rw [hfirst]
      change wholeNumbers.addDecimals largest [.decimal largest] = _
      rw [DecimalOps.addDecimals, numericLitToDecimal]
      dsimp only
      rw [hsecond]
      rfl
    have hmixed : wholeNumbers.sumNumbers [.decimal largest, .decimal largest] =
        .error .overflow := by
      change (do
        let total ← wholeNumbers.addDecimals wholeNumbers.zero [.decimal largest, .decimal largest]
        pure (total.map NumericLit.decimal)) = _
      rw [htotal]
      rfl
    rw [DecimalOps.sumValues, if_neg (by decide), hnumbers]
    dsimp only
    rw [hmixed]
    rfl
  refine ⟨hsum, fun h => ?_⟩
  obtain ⟨r, hr⟩ := h.sum
  rw [hsum] at hr
  cases hr

end RdfDatalog.Sparql
