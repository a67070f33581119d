import Mathlib.Data.List.DropRight
import Mathlib.Tactic.Positivity
import Mathlib.Tactic.FieldSimp
import Mathlib.Tactic.Linarith

namespace Numerals

/-- Whether a numeral is negative, and what follows its sign. -/
def splitSign : List Char → Bool × List Char
  | '+' :: s => (false, s)
  | '-' :: s => (true, s)
  | s => (false, s)

def signed {α : Type} [Neg α] (negative : Bool) (x : α) : α := if negative then -x else x

def digitsValue (digits : List Char) : ℕ := Nat.ofDigitChars 10 digits 0

/-- The integer that `[+-]?[0-9]+` denotes. -/
def integerValue (s : List Char) : Option ℤ :=
  let (negative, digits) := splitSign s
  if digits ≠ [] ∧ digits.all Char.isDigit then some (signed negative (digitsValue digits : ℤ))
  else none

/-- The number that `[+-]?([0-9]+(\.[0-9]*)?|\.[0-9]+)` denotes. -/
def decimalValue (s : List Char) : Option ℚ :=
  let (negative, digits) := splitSign s
  let whole := digits.takeWhile Char.isDigit
  match digits.dropWhile Char.isDigit with
  | [] => if whole = [] then none else some (signed negative (digitsValue whole : ℚ))
  | c :: fraction =>
    if c = '.' ∧ fraction.all Char.isDigit ∧ (whole ≠ [] ∨ fraction ≠ []) then
      some (signed negative (digitsValue (whole ++ fraction) / 10 ^ fraction.length : ℚ))
    else none

/-- The number that a decimal numeral denotes, with an exponent after it or not. -/
def scientificValue (s : List Char) : Option ℚ :=
  let isMark (c : Char) : Bool := c = 'e' ∨ c = 'E'
  match s.dropWhile (!isMark ·) with
  | [] => decimalValue s
  | _ :: exponent => do
    let mantissa ← decimalValue (s.takeWhile (!isMark ·))
    let e ← integerValue exponent
    pure (mantissa * 10 ^ e)

section Digits

theorem isDigit_toDigits (n : ℕ) : ∀ c ∈ Nat.toDigits 10 n, c.isDigit :=
  fun _ hc => Nat.isDigit_of_mem_toDigits (by decide) (by decide) hc

variable {s : List Char}

theorem splitSign_of_isDigit (h : ∀ c ∈ s, c.isDigit) : splitSign s = (false, s) := by
  unfold splitSign
  split
  · exact absurd (h '+' (.head _)) (by decide)
  · exact absurd (h '-' (.head _)) (by decide)
  · rfl

theorem digitsValue_toDigits (n : ℕ) : digitsValue (Nat.toDigits 10 n) = n :=
  Nat.ofDigitChars_ten_toDigits

theorem integerValue_toString (n : ℤ) : integerValue (toString n).toList = some n := by
  cases n with
  | ofNat m =>
    have htext : (toString (Int.ofNat m)).toList = Nat.toDigits 10 m := Nat.toList_repr
    have hdigits := isDigit_toDigits m
    rw [integerValue, htext, splitSign_of_isDigit hdigits]
    simp [List.all_eq_true.mpr hdigits, signed, digitsValue_toDigits]
  | negSucc m =>
    have htext : (toString (Int.negSucc m)).toList = '-' :: Nat.toDigits 10 (m + 1) := by
      change ("-" ++ (m + 1).repr).toList = _
      rw [String.toList_append, Nat.toList_repr]
      rfl
    have hdigits := isDigit_toDigits (m + 1)
    rw [integerValue, htext]
    simp [splitSign, List.all_eq_true.mpr hdigits, signed, digitsValue_toDigits]
    omega

theorem integerValue_eq_some {n : ℤ} :
    integerValue s = some n ↔ (splitSign s).2 ≠ [] ∧ (∀ c ∈ (splitSign s).2, c.isDigit) ∧
      signed (splitSign s).1 (digitsValue (splitSign s).2 : ℤ) = n := by
  rw [integerValue]
  simp only [Option.ite_none_right_eq_some, Option.some.injEq, List.all_eq_true, and_assoc]

theorem decimalValue_of_integerValue {n : ℤ} (h : integerValue s = some n) :
    decimalValue s = some (n : ℚ) := by
  obtain ⟨hne, hdigits, hvalue⟩ := integerValue_eq_some.mp h
  have hwhole : (splitSign s).2.takeWhile Char.isDigit = (splitSign s).2 :=
    List.takeWhile_eq_self_iff.mpr hdigits
  have hrest : (splitSign s).2.dropWhile Char.isDigit = [] :=
    List.dropWhile_eq_nil_iff.mpr hdigits
  have hcast : signed (splitSign s).1 (digitsValue (splitSign s).2 : ℚ) = n := by
    rw [← hvalue, signed, signed]
    split_ifs <;> push_cast <;> rfl
  rw [decimalValue]
  simp only [hrest, hwhole, if_neg hne, hcast]

theorem mem_of_decimalValue {x : ℚ} (h : decimalValue s = some x) :
    ∀ c ∈ s, c.isDigit ∨ c = '.' ∨ c = '+' ∨ c = '-' := by
  have hsign : ∀ c ∈ s, c ∈ (splitSign s).2 ∨ c = '+' ∨ c = '-' := by
    intro c hc
    unfold splitSign
    split
    · exact (List.mem_cons.mp hc).symm.imp id .inl
    · exact (List.mem_cons.mp hc).symm.imp id .inr
    · exact .inl hc
  intro c hc
  rcases hsign c hc with hc | hc
  · rw [← List.takeWhile_append_dropWhile (p := Char.isDigit) (l := (splitSign s).2)] at hc
    rcases List.mem_append.mp hc with hc | hc
    · exact .inl (List.mem_takeWhile_imp hc)
    · rw [decimalValue] at h
      simp only at h
      split at h
      · rename_i hnil
        rw [hnil] at hc
        cases hc
      · rename_i d fraction hcons
        rw [hcons] at hc
        obtain ⟨hdot, hall, -⟩ := (Option.ite_none_right_eq_some.mp h).1
        rcases List.mem_cons.mp hc with hc | hc
        · exact .inr (.inl (hc.trans hdot))
        · exact .inl (List.all_eq_true.mp hall c hc)
  · exact .inr (.inr hc)

theorem scientificValue_of_decimalValue {x : ℚ} (h : decimalValue s = some x) :
    scientificValue s = some x := by
  have hmarks : s.dropWhile (fun c => !decide (c = 'e' ∨ c = 'E')) = [] := by
    refine List.dropWhile_eq_nil_iff.mpr fun c hc => ?_
    rcases mem_of_decimalValue h c hc with hc | hc | hc | hc
    · have hne : c ≠ 'e' ∧ c ≠ 'E' := by
        constructor <;> (rintro rfl; exact absurd hc (by decide))
      simp [hne.1, hne.2]
    all_goals simp [hc]
  rw [scientificValue]
  simp only [hmarks, h]

end Digits

section Padded

/-- A number with at least `w` digits. -/
def padded (w n : ℕ) : List Char :=
  List.replicate (w - (Nat.toDigits 10 n).length) '0' ++ Nat.toDigits 10 n

theorem isDigit_padded {w n : ℕ} : ∀ c ∈ padded w n, c.isDigit := by
  intro c hc
  rcases List.mem_append.mp hc with hc | hc
  · rw [List.eq_of_mem_replicate hc]
    rfl
  · exact isDigit_toDigits n c hc

theorem digitsValue_padded (w n : ℕ) : digitsValue (padded w n) = n := by
  rw [digitsValue, padded, Nat.ofDigitChars_append, Nat.ofDigitChars_replicate_zero, Nat.mul_zero]
  exact digitsValue_toDigits n

theorem padded_inj {w w' n n' : ℕ} (h : padded w n = padded w' n') : n = n' := by
  rw [← digitsValue_padded w n, h, digitsValue_padded]

theorem length_padded {w n : ℕ} (hw : 0 < w) (h : n < 10 ^ w) : (padded w n).length = w := by
  have hlen : (Nat.toDigits 10 n).length ≤ w :=
    (Nat.length_toDigits_le_iff (by decide) hw).mpr h
  rw [padded, List.length_append, List.length_replicate]
  omega

/-- Digits end at the first character that is none. -/
theorem digits_append_inj {xs ys r r' : List Char} {c c' : Char}
    (hx : ∀ d ∈ xs, d.isDigit) (hy : ∀ d ∈ ys, d.isDigit) (hc : ¬ c.isDigit) (hc' : ¬ c'.isDigit)
    (h : xs ++ c :: r = ys ++ c' :: r') : xs = ys ∧ c = c' ∧ r = r' := by
  have htake := congrArg (List.takeWhile Char.isDigit) h
  rw [List.takeWhile_append_of_pos hx, List.takeWhile_append_of_pos hy,
    List.takeWhile_cons_of_neg hc, List.takeWhile_cons_of_neg hc', List.append_nil,
    List.append_nil] at htake
  subst htake
  exact ⟨rfl, List.cons.inj (List.append_cancel_left h)⟩

end Padded

end Numerals
