import RdfDatalog.Sparql.Functions

namespace RdfDatalog.Endpoint

open BinaryFloat Sparql

section Duration

/-- The product of an `f64` and a positive constant. -/
def scale (k : ℚ) : BinaryFloat.Value → BinaryFloat.Value
  | .number (some (some x)) => .number (binary64.rounded (x * k))
  | v => v

/-- `value - value.trunc()`, which loses no digit. -/
def fraction : BinaryFloat.Value → BinaryFloat.Value
  | .number (some (some x)) => .number (some (some (x - truncate x)))
  | _ => .nan

/-- `as i64` of a float rounded to an integer. -/
def asI64 (round : ℚ → ℤ) : BinaryFloat.Value → ℤ
  | .number (some (some x)) => max (-2 ^ 63) (min (2 ^ 63 - 1) (round x))
  | .number (some none) => 2 ^ 63 - 1
  | .number none => -2 ^ 63
  | .nan => 0

/-- `f64::round` -/
def roundAway (x : ℚ) : ℤ := truncate (if 0 ≤ x then x + 1 / 2 else x - 1 / 2)

def component (value : BinaryFloat.Value) : Char → (inTime : Bool) → Option (ℤ × ℤ)
  | 'D', false => some (asI64 roundAway (scale 86400 value), 0)
  | 'W', false => some (asI64 roundAway (scale 604800 value), 0)
  | 'H', true => some (asI64 roundAway (scale 3600 value), 0)
  | 'M', true => some (asI64 roundAway (scale 60 value), 0)
  | 'S', true =>
    some (asI64 truncate value, asI64 roundAway (scale (10 ^ 9) (fraction value)))
  | _, _ => none

/-- `i64::MAX` milliseconds, in nanoseconds. -/
def maxDuration : ℤ := (2 ^ 63 - 1) * 10 ^ 6

/-- A `chrono::Duration` of so many nanoseconds; `none` where it panics. -/
def checkedDuration (nanos : ℤ) : Option ℤ := if |nanos| ≤ maxDuration then some nanos else none

/-- `none` where the source panics. -/
def durationLoop : List Char → (total : ℤ) → (inTime : Bool) → (num : List Char) →
    (sawAny : Bool) → Option (Option ℤ)
  | [], total, _, num, sawAny => some (if num ≠ [] ∨ sawAny = false then none else some total)
  | c :: s, total, inTime, num, sawAny =>
    if c = 'T' then durationLoop s total true num sawAny
    else if c.isDigit ∨ c = '.' then durationLoop s total inTime (num ++ [c]) sawAny
    else match (parseF64 (String.ofList num)).bind fun value => component value c inTime with
      | none => some none
      | some (seconds, nanos) => do
        let delta ← checkedDuration (seconds * 10 ^ 9)
        let delta ← checkedDuration (delta + nanos)
        let total ← checkedDuration (total + delta)
        durationLoop s total inTime [] true

def durationSign (s : String) : Bool × List Char :=
  match s.toList with
  | '-' :: rest => (true, rest)
  | rest => (false, rest)

def parseXsdDuration (s : String) : Option (Option ℤ) :=
  match (durationSign s).2 with
  | 'P' :: rest => (durationLoop rest 0 false [] false).map fun total =>
    total.map (Numerals.signed (durationSign s).1)
  | _ => some none

/-- The components in nanoseconds, up to the first part that is malformed. -/
def durationComponents : List Char → (inTime : Bool) → (num : List Char) → List ℤ
  | [], _, _ => []
  | c :: s, inTime, num =>
    if c = 'T' then durationComponents s true num
    else if c.isDigit ∨ c = '.' then durationComponents s inTime (num ++ [c])
    else match (parseF64 (String.ofList num)).bind fun value => component value c inTime with
      | none => []
      | some (seconds, nanos) => (seconds * 10 ^ 9 + nanos) :: durationComponents s inTime []

/-- The components add up to a duration. -/
def DurationFits (s : String) : Prop :=
  match (durationSign s).2 with
  | 'P' :: rest => (durationComponents rest false []).sum ≤ maxDuration
  | _ => True

/-- No negative number. -/
def NotNegative : BinaryFloat.Value → Prop
  | .number x => ((0 : WithTop ℚ) : WithBot (WithTop ℚ)) ≤ x
  | .nan => True

theorem splitSign_nonneg {s : List Char} (hs : '-' ∉ s) : (Numerals.splitSign s).1 = false := by
  unfold Numerals.splitSign
  split
  · rfl
  · exact absurd (.head _) hs
  · rfl

theorem decimalValue_nonneg {s : List Char} {x : ℚ} (hs : '-' ∉ s)
    (h : Numerals.decimalValue s = some x) : 0 ≤ x := by
  unfold Numerals.decimalValue at h
  dsimp only at h
  rw [splitSign_nonneg hs] at h
  split at h
  · split_ifs at h
    cases h
    exact Nat.cast_nonneg _
  · split_ifs at h
    cases h
    exact div_nonneg (Nat.cast_nonneg _) (by positivity)

theorem rounded_nonneg {x : ℚ} (h : 0 ≤ x) : NotNegative (.number (binary64.rounded x)) := by
  rw [NotNegative, ← binary64.rounded_zero]
  exact binary64.rounded_mono h

theorem parseF64_notNegative {s : List Char} {v : BinaryFloat.Value}
    (hs : ∀ c ∈ s, c.isDigit ∨ c = '.') (h : parseF64 (String.ofList s) = some v) :
    NotNegative v := by
  have hminus : '-' ∉ s := fun hmem => by simpa using hs '-' hmem
  have hplain : Numerals.scientificValue s = Numerals.decimalValue s := by
    unfold Numerals.scientificValue
    dsimp only
    rw [List.dropWhile_eq_nil_iff.mpr]
    intro c hc
    rcases hs c hc with hdigit | rfl
    · have he : c ≠ 'e' := fun h => by simp [h] at hdigit
      have hE : c ≠ 'E' := fun h => by simp [h] at hdigit
      simp [he, hE]
    · simp
  rw [parseF64, String.toList_ofList, hplain] at h
  cases hx : Numerals.decimalValue s with
  | some x =>
    rw [hx] at h
    cases h
    exact rounded_nonneg (decimalValue_nonneg hminus hx)
  | none =>
    rw [hx] at h
    dsimp only at h
    rw [splitSign_nonneg hminus] at h
    split at h
    · cases h
      exact WithBot.coe_le_coe.mpr le_top
    · cases h
      exact WithBot.coe_le_coe.mpr le_top
    · cases h
      trivial
    · cases h

theorem scale_notNegative {k : ℚ} (hk : 0 ≤ k) {v : BinaryFloat.Value} (h : NotNegative v) :
    NotNegative (scale k v) := by
  unfold scale
  split
  · rename_i x
    have hx : 0 ≤ x := WithTop.coe_le_coe.mp (WithBot.coe_le_coe.mp h)
    exact rounded_nonneg (mul_nonneg hx hk)
  · exact h

theorem truncate_nonneg {x : ℚ} (h : 0 ≤ x) : 0 ≤ truncate x := by
  rw [truncate, if_pos h]
  exact Int.floor_nonneg.mpr h

theorem roundAway_nonneg {x : ℚ} (h : 0 ≤ x) : 0 ≤ roundAway x := by
  rw [roundAway, if_pos h]
  exact truncate_nonneg (by linarith)

theorem asI64_nonneg {round : ℚ → ℤ} (hround : ∀ x, 0 ≤ x → 0 ≤ round x) {v : BinaryFloat.Value}
    (h : NotNegative v) : 0 ≤ asI64 round v := by
  unfold asI64
  split
  · rename_i x
    have hx := hround x (WithTop.coe_le_coe.mp (WithBot.coe_le_coe.mp h))
    omega
  · omega
  · exact absurd h (WithBot.not_coe_le_bot _)
  · exact le_rfl

theorem fraction_notNegative {v : BinaryFloat.Value} (h : NotNegative v) :
    NotNegative (fraction v) := by
  unfold fraction
  split
  · rename_i x
    have hx : 0 ≤ x := WithTop.coe_le_coe.mp (WithBot.coe_le_coe.mp h)
    refine WithBot.coe_le_coe.mpr (WithTop.coe_le_coe.mpr (sub_nonneg.mpr ?_))
    rw [truncate, if_pos hx]
    exact Int.floor_le x
  · trivial

theorem component_nonneg {v : BinaryFloat.Value} {c : Char} {inTime : Bool} {seconds nanos : ℤ}
    (hv : NotNegative v) (h : component v c inTime = some (seconds, nanos)) :
    0 ≤ seconds ∧ 0 ≤ nanos := by
  have hscaled {k : ℚ} (hk : 0 ≤ k) {w : BinaryFloat.Value} (hw : NotNegative w) :
      0 ≤ asI64 roundAway (scale k w) :=
    asI64_nonneg (fun _ => roundAway_nonneg) (scale_notNegative hk hw)
  unfold component at h
  split at h <;> cases h
  case h_5 => exact ⟨asI64_nonneg (fun _ => truncate_nonneg) hv,
    hscaled (by norm_num) (fraction_notNegative hv)⟩
  all_goals exact ⟨hscaled (by norm_num) hv, le_rfl⟩

theorem checkedDuration_of_nonneg {nanos : ℤ} (h : 0 ≤ nanos) :
    checkedDuration nanos = if nanos ≤ maxDuration then some nanos else none := by
  rw [checkedDuration, abs_of_nonneg h]

/-- The three checks of a component come to one check of the new total. -/
theorem checkedTotal_eq {total scaled nanos : ℤ} (htotal : 0 ≤ total) (hscaled : 0 ≤ scaled)
    (hnanos : 0 ≤ nanos) : (do
      let delta ← checkedDuration scaled
      let delta ← checkedDuration (delta + nanos)
      checkedDuration (total + delta)) = checkedDuration (total + (scaled + nanos)) := by
  have hdelta : 0 ≤ scaled + nanos := by omega
  have hnext : 0 ≤ total + (scaled + nanos) := by omega
  by_cases hfits : total + (scaled + nanos) ≤ maxDuration
  · have hscaled' : scaled ≤ maxDuration := by omega
    have hdelta' : scaled + nanos ≤ maxDuration := by omega
    simp [checkedDuration_of_nonneg, *]
  · simp only [checkedDuration_of_nonneg hscaled, checkedDuration_of_nonneg hnext, if_neg hfits]
    split_ifs
    · simp only [Option.bind_eq_bind, Option.bind_some, checkedDuration_of_nonneg hdelta]
      split_ifs
      · simp only [Option.bind_some, checkedDuration_of_nonneg hnext, if_neg hfits]
      · rfl
    · rfl

theorem durationComponents_nonneg (s : List Char) (inTime : Bool) (num : List Char)
    (hnum : ∀ c ∈ num, c.isDigit ∨ c = '.') :
    0 ≤ (durationComponents s inTime num).sum := by
  fun_induction durationComponents s inTime num with
  | case1 | case4 => exact le_rfl
  | case2 _ _ _ ih => exact ih hnum
  | case3 _ _ _ _ hT hc ih =>
    refine ih fun c' hc' => ?_
    rcases List.mem_append.mp hc' with hc' | hc'
    · exact hnum c' hc'
    · rw [List.mem_singleton.mp hc']
      exact hc
  | case5 _ _ _ _ hT hc seconds nanos hcomponent ih =>
    obtain ⟨v, hv, hcomponent⟩ := Option.bind_eq_some_iff.mp hcomponent
    obtain ⟨hseconds, hnanos⟩ := component_nonneg (parseF64_notNegative hnum hv) hcomponent
    have hrest := ih (by simp)
    rw [List.sum_cons]
    omega

/-- From a total in range, the loop panics iff the total of all components is out of range. -/
theorem durationLoop_isSome_iff (s : List Char) (total : ℤ) (inTime : Bool) (num : List Char)
    (sawAny : Bool) (hnum : ∀ c ∈ num, c.isDigit ∨ c = '.') (htotal : 0 ≤ total)
    (hmax : total ≤ maxDuration) : (durationLoop s total inTime num sawAny).isSome ↔
      total + (durationComponents s inTime num).sum ≤ maxDuration := by
  induction s generalizing total inTime num sawAny with
  | nil => simpa [durationLoop, durationComponents] using hmax
  | cons c s ih =>
    rw [durationLoop, durationComponents]
    split_ifs with hT hc
    · exact ih total true num sawAny hnum htotal hmax
    · refine ih total inTime (num ++ [c]) sawAny (fun c' hc' => ?_) htotal hmax
      rcases List.mem_append.mp hc' with hc' | hc'
      · exact hnum c' hc'
      · rw [List.mem_singleton.mp hc']
        exact hc
    · cases hcomponent : (parseF64 (String.ofList num)).bind
        fun value => component value c inTime with
      | none => simpa using hmax
      | some parts =>
        obtain ⟨seconds, nanos⟩ := parts
        obtain ⟨v, hv, hparts⟩ := Option.bind_eq_some_iff.mp hcomponent
        obtain ⟨hseconds, hnanos⟩ := component_nonneg (parseF64_notNegative hnum hv) hparts
        have hrest := durationComponents_nonneg s inTime [] (by simp)
        have hstep := congrArg (· >>= fun total => durationLoop s total inTime [] true)
          (checkedTotal_eq htotal (by omega : 0 ≤ seconds * 10 ^ 9) hnanos)
        simp only [bind_assoc] at hstep
        dsimp only
        rw [hstep, List.sum_cons, checkedDuration_of_nonneg (by omega)]
        split_ifs with hfits
        · refine (ih _ _ _ _ (by simp) (by omega) hfits).trans ?_
          rw [add_assoc]
        · simp only [Option.bind_eq_bind, Option.bind_none, Option.isSome_none, Bool.false_eq_true,
            false_iff]
          omega

theorem parseXsdDuration_isSome_iff (s : String) :
    (parseXsdDuration s).isSome ↔ DurationFits s := by
  unfold parseXsdDuration DurationFits
  split
  · rw [Option.isSome_map, durationLoop_isSome_iff _ _ _ _ _ (by simp) le_rfl (by decide), zero_add]
  · simp

end Duration

end RdfDatalog.Endpoint
