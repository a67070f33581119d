import Mathlib.Data.Int.Log
import Mathlib.Data.Rat.Floor

namespace BinaryFloat

section NearestEven

/-- The nearest integer, and of two that are equally near the even one. -/
def nearestEven (x : ℚ) : ℤ :=
  if Int.fract x < 1 / 2 then ⌊x⌋
  else if 1 / 2 < Int.fract x then ⌊x⌋ + 1
  else if ⌊x⌋ % 2 = 0 then ⌊x⌋ else ⌊x⌋ + 1

@[simp] theorem nearestEven_intCast (n : ℤ) : nearestEven n = n := by
  have hfract : Int.fract (n : ℚ) < 1 / 2 := by
    rw [Int.fract_intCast]
    norm_num
  rw [nearestEven, if_pos hfract, Int.floor_intCast]

theorem floor_le_nearestEven (x : ℚ) : ⌊x⌋ ≤ nearestEven x := by
  unfold nearestEven
  split_ifs <;> omega

theorem nearestEven_le_floor_succ (x : ℚ) : nearestEven x ≤ ⌊x⌋ + 1 := by
  unfold nearestEven
  split_ifs <;> omega

theorem nearestEven_mono {x y : ℚ} (h : x ≤ y) : nearestEven x ≤ nearestEven y := by
  have hfloor : ⌊x⌋ ≤ ⌊y⌋ := Int.floor_mono h
  rcases hfloor.lt_or_eq with hlt | heq
  · have hx := nearestEven_le_floor_succ x
    have hy := floor_le_nearestEven y
    omega
  · have hfract : Int.fract x ≤ Int.fract y := by
      rw [Int.fract, Int.fract, heq]
      linarith
    unfold nearestEven
    rw [heq]
    split_ifs <;> first | omega | (exfalso; linarith)

theorem nearestEven_neg (x : ℚ) : nearestEven (-x) = -nearestEven x := by
  by_cases hint : Int.fract x = 0
  · obtain ⟨n, hn⟩ : ∃ n : ℤ, x = n := ⟨⌊x⌋, by rw [← sub_eq_zero]; exact hint⟩
    rw [hn, ← Int.cast_neg, nearestEven_intCast, nearestEven_intCast]
  · have hfract : Int.fract (-x) = 1 - Int.fract x := Int.fract_neg hint
    have hfloor : ⌊-x⌋ = -⌊x⌋ - 1 := by
      have hx := Int.self_sub_floor x
      have hy := Int.self_sub_floor (-x)
      have hcast : ((⌊-x⌋ : ℤ) : ℚ) = ((-⌊x⌋ - 1 : ℤ) : ℚ) := by
        push_cast
        linarith
      exact_mod_cast hcast
    unfold nearestEven
    rw [hfract, hfloor]
    split_ifs <;> first | omega | (exfalso; linarith)

/-- Where a number is rounded below an integer: before the middle of the step to it, and in the
middle if the integer is odd. -/
theorem nearestEven_lt_iff {x : ℚ} {n : ℤ} :
    nearestEven x < n ↔ x < n - 1 / 2 ∨ x = n - 1 / 2 ∧ n % 2 = 1 := by
  have hx := Int.self_sub_floor x
  have hpos := Int.fract_nonneg x
  have hlt := Int.fract_lt_one x
  have hcast {m : ℤ} : ((⌊x⌋ : ℤ) : ℚ) < m ↔ ⌊x⌋ < m := Int.cast_lt
  have hsucc {m : ℤ} : ((⌊x⌋ : ℤ) : ℚ) + 1 < m ↔ ⌊x⌋ + 1 < m := by
    rw [← Int.cast_lt (R := ℚ)]
    push_cast
    exact Iff.rfl
  unfold nearestEven
  split_ifs with hlow hhigh heven
  · constructor
    · intro h
      have hle : ((⌊x⌋ : ℤ) : ℚ) + 1 ≤ n := by exact_mod_cast h
      exact .inl (by linarith)
    · intro h
      refine hcast.mp ?_
      rcases h with h | ⟨h, -⟩ <;> linarith
  · constructor
    · intro h
      have hle : ((⌊x⌋ + 2 : ℤ) : ℚ) ≤ n := Int.cast_le.mpr (by omega)
      push_cast at hle
      exact .inl (by linarith)
    · rintro (h | ⟨h, -⟩)
      · have hle : ((⌊x⌋ : ℤ) : ℚ) < (n - 1 : ℤ) := by
          push_cast
          linarith
        have := Int.cast_lt.mp hle
        omega
      · have hleft : ((⌊x⌋ : ℤ) : ℚ) < (n - 1 : ℤ) := by
          push_cast
          linarith
        have hright : ((n - 2 : ℤ) : ℚ) < ⌊x⌋ := by
          push_cast
          linarith
        have h₁ := Int.cast_lt.mp hleft
        have h₂ := Int.cast_lt.mp hright
        omega
  all_goals
    have hmid : x = ⌊x⌋ + 1 / 2 := by linarith
    have hbefore : x < n - 1 / 2 ↔ ⌊x⌋ + 1 < n := by
      rw [← hsucc]
      constructor <;> intro h <;> linarith
    have hat : x = n - 1 / 2 ↔ ⌊x⌋ + 1 = n := by
      rw [← Int.cast_inj (α := ℚ)]
      push_cast
      constructor <;> intro h <;> linarith
    rw [hbefore, hat]
    omega

end NearestEven

/-- A binary format: the bits of its significands, the exponent of its least unit, and the least
power of two that it cannot hold. -/
structure Format where
  precision : ℕ
  minExponent : ℤ
  maxExponent : ℤ
  precision_pos : 0 < precision
  normal : minExponent < maxExponent - precision

def binary64 : Format where
  precision := 53
  minExponent := -1074
  maxExponent := 1024
  precision_pos := by decide
  normal := by decide

namespace Format

variable (F : Format) {x y : ℚ}

/-- The exponent of the unit in the last place of the numbers around `x`. -/
def unitExponent (x : ℚ) : ℤ := max F.minExponent (Int.log 2 |x| + 1 - F.precision)

def unit (x : ℚ) : ℚ := 2 ^ F.unitExponent x

/-- The number of the format, its range left unbounded, that is nearest to `x`. -/
def nearest (x : ℚ) : ℚ := nearestEven (x / F.unit x) * F.unit x

theorem unit_pos (x : ℚ) : 0 < F.unit x := zpow_pos (by norm_num) _

@[simp] theorem nearest_zero : F.nearest 0 = 0 := by
  rw [nearest, zero_div]
  simpa using Or.inl (nearestEven_intCast 0)

theorem unit_neg (x : ℚ) : F.unit (-x) = F.unit x := by
  rw [unit, unit, unitExponent, unitExponent, abs_neg]

theorem nearest_neg (x : ℚ) : F.nearest (-x) = -F.nearest x := by
  rw [nearest, nearest, unit_neg, neg_div, nearestEven_neg, Int.cast_neg, neg_mul]

theorem nearest_of_multiple {n : ℤ} (h : x = n * F.unit x) : F.nearest x = x := by
  have hne := (F.unit_pos x).ne'
  have hdiv : x / F.unit x = n := by
    rw [div_eq_iff hne]
    exact h
  rw [nearest, hdiv, nearestEven_intCast]
  exact h.symm

theorem nearest_of_bits {n e : ℤ} (hx : x = n * 2 ^ e) (he : F.minExponent ≤ e)
    (hn : |n| < 2 ^ F.precision) : F.nearest x = x := by
  by_cases hzero : n = 0
  · rw [hx, hzero]
    simp
  have hpos : 0 < |x| := by
    rw [hx, abs_pos]
    exact mul_ne_zero (by exact_mod_cast hzero) (zpow_ne_zero _ (by norm_num))
  have hlt : |x| < 2 ^ (e + F.precision) := by
    rw [hx, abs_mul, abs_of_pos (zpow_pos (by norm_num : (0 : ℚ) < 2) e), zpow_add₀ (by norm_num),
      mul_comm]
    refine mul_lt_mul_of_pos_left ?_ (zpow_pos (by norm_num) e)
    rw [zpow_natCast]
    exact_mod_cast hn
  have hlog : Int.log 2 |x| < e + F.precision := by
    have h := (Int.lt_zpow_iff_log_lt (b := 2) (x := e + F.precision) one_lt_two hpos).mp
    exact h (by exact_mod_cast hlt)
  have hunit : F.unitExponent x ≤ e := by
    rw [unitExponent]
    omega
  obtain ⟨k, hk⟩ := Int.eq_ofNat_of_zero_le (sub_nonneg.mpr hunit)
  refine F.nearest_of_multiple (n := n * 2 ^ k) ?_
  have hsplit : (2 : ℚ) ^ e = 2 ^ k * F.unit x := by
    rw [unit, ← zpow_natCast, ← zpow_add₀ (by norm_num)]
    congr 1
    omega
  calc x = n * 2 ^ e := hx
    _ = n * (2 ^ k * F.unit x) := by rw [hsplit]
    _ = ((n * 2 ^ k : ℤ) : ℚ) * F.unit x := by push_cast; ring

theorem nearest_intCast {n : ℤ} (hmin : F.minExponent ≤ 0) (hn : |n| < 2 ^ F.precision) :
    F.nearest n = n :=
  F.nearest_of_bits (e := 0) (by simp) hmin hn

theorem nearest_le_multiple {n : ℤ} (h : x ≤ n * F.unit x) : F.nearest x ≤ n * F.unit x := by
  have hdiv : x / F.unit x ≤ n := (div_le_iff₀ (F.unit_pos x)).mpr h
  have hround : nearestEven (x / F.unit x) ≤ n := by
    rw [← nearestEven_intCast n]
    exact nearestEven_mono hdiv
  exact mul_le_mul_of_nonneg_right (by exact_mod_cast hround) (F.unit_pos x).le

theorem multiple_le_nearest {n : ℤ} (h : n * F.unit x ≤ x) : n * F.unit x ≤ F.nearest x := by
  have hdiv : (n : ℚ) ≤ x / F.unit x := (le_div_iff₀ (F.unit_pos x)).mpr h
  have hround : n ≤ nearestEven (x / F.unit x) := by
    rw [← nearestEven_intCast n]
    exact nearestEven_mono hdiv
  exact mul_le_mul_of_nonneg_right (by exact_mod_cast hround) (F.unit_pos x).le

theorem nearest_nonneg (h : 0 ≤ x) : 0 ≤ F.nearest x := by
  have hzero := F.multiple_le_nearest (n := 0) (x := x) (by simpa using h)
  simpa using hzero

theorem unitExponent_mono (hx : 0 < x) (h : x ≤ y) : F.unitExponent x ≤ F.unitExponent y := by
  have hlog : Int.log 2 x ≤ Int.log 2 y := Int.log_mono_right hx h
  rw [unitExponent, unitExponent, abs_of_pos hx, abs_of_pos (hx.trans_le h)]
  omega

theorem nearest_mono_pos (hx : 0 < x) (h : x ≤ y) : F.nearest x ≤ F.nearest y := by
  have hy : 0 < y := hx.trans_le h
  rcases (F.unitExponent_mono hx h).eq_or_lt with heq | hlt
  · have hunit : F.unit x = F.unit y := by rw [unit, unit, heq]
    have hdiv : x / F.unit y ≤ y / F.unit y := div_le_div_of_nonneg_right h (F.unit_pos y).le
    rw [nearest, nearest, hunit]
    exact mul_le_mul_of_nonneg_right (by exact_mod_cast nearestEven_mono hdiv) (F.unit_pos y).le
  · have hexps := hlt
    rw [unitExponent, unitExponent, abs_of_pos hx, abs_of_pos hy] at hexps
    have hprecision := F.precision_pos
    have hmultiple {z : ℚ} (hz : F.unitExponent z ≤ Int.log 2 y) :
        ∃ n : ℤ, (2 : ℚ) ^ Int.log 2 y = n * F.unit z := by
      obtain ⟨k, hk⟩ := Int.eq_ofNat_of_zero_le (sub_nonneg.mpr hz)
      refine ⟨2 ^ k, ?_⟩
      rw [unit]
      push_cast
      rw [← zpow_natCast, ← zpow_add₀ (by norm_num)]
      congr 1
      omega
    have hyexp : F.unitExponent y ≤ Int.log 2 y := by
      rw [unitExponent, abs_of_pos hy]
      omega
    obtain ⟨m, hm⟩ := hmultiple (hlt.le.trans hyexp)
    obtain ⟨n, hn⟩ := hmultiple hyexp
    have hxpow : x ≤ 2 ^ Int.log 2 y := by
      have hlog : Int.log 2 x < Int.log 2 y := by omega
      have hpow := (Int.lt_zpow_iff_log_lt (b := 2) one_lt_two hx).mpr hlog
      exact_mod_cast hpow.le
    have hypow : (2 : ℚ) ^ Int.log 2 y ≤ y := by
      exact_mod_cast Int.zpow_log_le_self (b := 2) one_lt_two hy
    calc F.nearest x ≤ m * F.unit x := F.nearest_le_multiple (by rw [← hm]; exact hxpow)
      _ = n * F.unit y := by rw [← hm, hn]
      _ ≤ F.nearest y := F.multiple_le_nearest (by rw [← hn]; exact hypow)

theorem nearest_mono (h : x ≤ y) : F.nearest x ≤ F.nearest y := by
  rcases lt_or_ge 0 x with hx | hx
  · exact F.nearest_mono_pos hx h
  · have hleft : F.nearest x ≤ 0 := by
      have hneg := F.nearest_nonneg (neg_nonneg.mpr hx)
      rw [nearest_neg] at hneg
      linarith
    rcases lt_or_ge y 0 with hy | hy
    · have hneg := F.nearest_mono_pos (neg_pos.mpr hy) (neg_le_neg h)
      rw [nearest_neg, nearest_neg] at hneg
      linarith
    · exact hleft.trans (F.nearest_nonneg hy)

theorem nearest_ne_zero (hmin : F.minExponent ≤ 0) (hbits : 1 < F.precision) (h : 1 ≤ |x|) :
    F.nearest x ≠ 0 := by
  have hone : F.nearest 1 = 1 := by
    have hlt : |(1 : ℤ)| < 2 ^ F.precision := by
      rw [abs_one]
      exact one_lt_pow₀ one_lt_two (by omega)
    have hcast := F.nearest_intCast hmin hlt
    simpa using hcast
  rcases le_abs.mp h with h | h
  · have hle := F.nearest_mono h
    linarith
  · have hle := F.nearest_mono h
    rw [nearest_neg] at hle
    linarith

theorem unit_of_lt (h : |x| < 2 ^ (F.minExponent + F.precision)) (hx : x ≠ 0) :
    F.unit x = 2 ^ F.minExponent := by
  have hlog := (Int.lt_zpow_iff_log_lt (b := 2) (x := F.minExponent + F.precision) one_lt_two
    (abs_pos.mpr hx)).mp (by exact_mod_cast h)
  rw [unit, unitExponent, max_eq_left (by omega)]

theorem unit_of_mem {e : ℤ} (he : F.minExponent ≤ e + 1 - F.precision) (hle : 2 ^ e ≤ |x|)
    (hlt : |x| < 2 ^ (e + 1)) : F.unit x = 2 ^ (e + 1 - F.precision) := by
  have hpos : 0 < |x| := (zpow_pos two_pos e).trans_le hle
  have hupper := (Int.lt_zpow_iff_log_lt (b := 2) (x := e + 1) one_lt_two hpos).mp
    (by exact_mod_cast hlt)
  have hlower := (Int.zpow_le_iff_le_log (b := 2) (x := e) one_lt_two hpos).mp
    (by exact_mod_cast hle)
  have hlog : Int.log 2 |x| = e := by omega
  rw [unit, unitExponent, hlog, max_eq_right he]

theorem abs_nearest (x : ℚ) : |F.nearest x| = F.nearest |x| := by
  rcases le_total 0 x with h | h
  · rw [abs_of_nonneg h, abs_of_nonneg (F.nearest_nonneg h)]
  · have hneg := F.nearest_nonneg (neg_nonneg.mpr h)
    rw [nearest_neg] at hneg
    rw [abs_of_nonpos h, nearest_neg, abs_of_nonpos (neg_nonneg.mp hneg)]

theorem nearest_two_zpow {e : ℤ} (h : F.minExponent ≤ e) : F.nearest (2 ^ e) = 2 ^ e := by
  refine F.nearest_of_bits (n := 1) (by simp) h ?_
  rw [abs_one]
  exact one_lt_pow₀ one_lt_two F.precision_pos.ne'

/-- What is rounded to zero: up to half the least unit. -/
theorem nearest_eq_zero_iff : F.nearest x = 0 ↔ |x| ≤ 2 ^ (F.minExponent - 1) := by
  have hhalf : (2 : ℚ) ^ (F.minExponent - 1) = 2 ^ F.minExponent / 2 := by
    rw [zpow_sub_one₀ two_ne_zero, div_eq_mul_inv]
  have hleast : (0 : ℚ) < 2 ^ F.minExponent := zpow_pos two_pos _
  rw [← abs_eq_zero, abs_nearest, hhalf]
  have hpos := abs_nonneg x
  generalize |x| = y at hpos
  rcases hpos.eq_or_lt with rfl | hpos
  · rw [nearest_zero]
    exact iff_of_true rfl (half_pos hleast).le
  by_cases hsmall : y < 2 ^ (F.minExponent + F.precision)
  · have hunit := F.unit_of_lt (x := y) (by rwa [abs_of_pos hpos]) hpos.ne'
    have hnonneg : 0 ≤ nearestEven (y / 2 ^ F.minExponent) := by
      have hmono := nearestEven_mono (div_nonneg hpos.le hleast.le)
      rwa [← Int.cast_zero, nearestEven_intCast] at hmono
    have hzero : F.nearest y = 0 ↔ nearestEven (y / 2 ^ F.minExponent) < 1 := by
      rw [nearest, hunit, mul_eq_zero, or_iff_left hleast.ne', Int.cast_eq_zero]
      omega
    rw [hzero, nearestEven_lt_iff, div_lt_iff₀ hleast, div_eq_iff hleast.ne', le_iff_lt_or_eq]
    norm_num
    ring_nf
  · have hprecision := F.precision_pos
    have hle : (2 : ℚ) ^ F.minExponent < 2 ^ (F.minExponent + F.precision) :=
      zpow_lt_zpow_right₀ one_lt_two (by omega)
    have hmono := F.nearest_mono (hle.le.trans (not_lt.mp hsmall))
    rw [F.nearest_two_zpow le_rfl] at hmono
    refine iff_of_false (hleast.trans_le hmono).ne' (not_le.mpr ?_)
    linarith [not_lt.mp hsmall]

/-- What is rounded out of the range: from the middle of the step to its end on. -/
theorem le_abs_nearest_iff : 2 ^ F.maxExponent ≤ |F.nearest x| ↔
    2 ^ F.maxExponent - 2 ^ (F.maxExponent - F.precision - 1) ≤ |x| := by
  rw [abs_nearest]
  have hpos := abs_nonneg x
  generalize |x| = y at hpos
  have hnormal := F.normal
  have hprecision := F.precision_pos
  have hhalf : (2 : ℚ) ^ F.maxExponent = 2 ^ (F.maxExponent - 1) + 2 ^ (F.maxExponent - 1) := by
    rw [zpow_sub_one₀ two_ne_zero]
    ring
  have hgap : (2 : ℚ) ^ (F.maxExponent - F.precision - 1) ≤ 2 ^ (F.maxExponent - 1) :=
    zpow_le_zpow_right₀ one_le_two (by omega)
  have hgappos : (0 : ℚ) < 2 ^ (F.maxExponent - F.precision - 1) := zpow_pos two_pos _
  rcases lt_or_ge y (2 ^ (F.maxExponent - 1)) with hlow | hlow
  · have hmono := F.nearest_mono hlow.le
    rw [F.nearest_two_zpow (by omega)] at hmono
    refine iff_of_false (fun h => ?_) (fun h => ?_) <;> linarith
  rcases lt_or_ge y (2 ^ F.maxExponent) with hhigh | hhigh
  · have hypos : 0 < y := (zpow_pos two_pos _).trans_le hlow
    have hunit : F.unit y = 2 ^ (F.maxExponent - F.precision) := by
      have hstep := F.unit_of_mem (x := y) (e := F.maxExponent - 1) (by omega)
      rw [abs_of_pos hypos, sub_add_cancel] at hstep
      exact hstep hlow hhigh
    have hunitpos := F.unit_pos y
    have hend : (2 : ℚ) ^ F.maxExponent = ((2 ^ F.precision : ℤ) : ℚ) * F.unit y := by
      rw [hunit, Int.cast_pow, Int.cast_ofNat, ← zpow_natCast, ← zpow_add₀ two_ne_zero]
      congr 1
      omega
    have hmiddle : (2 : ℚ) ^ (F.maxExponent - F.precision - 1) = F.unit y / 2 := by
      rw [hunit, zpow_sub_one₀ two_ne_zero, div_eq_mul_inv]
    have heven : (2 : ℤ) ^ F.precision % 2 ≠ 1 := by
      obtain ⟨k, hk⟩ := Nat.exists_eq_succ_of_ne_zero hprecision.ne'
      rw [hk, pow_succ]
      omega
    have hround : 2 ^ F.maxExponent ≤ F.nearest y ↔
        ¬nearestEven (y / F.unit y) < 2 ^ F.precision := by
      rw [hend, nearest, mul_le_mul_iff_left₀ hunitpos, Int.cast_le, not_lt]
    rw [hround, nearestEven_lt_iff, or_iff_left fun h => heven h.2, not_lt, le_div_iff₀ hunitpos,
      sub_mul, ← hend, hmiddle]
    ring_nf
  · have hmono := F.nearest_mono hhigh
    rw [F.nearest_two_zpow (by omega)] at hmono
    exact iff_of_true hmono (by linarith)

/-- A number beyond the range of the format is infinite. -/
def clamp (x : ℚ) : WithBot (WithTop ℚ) :=
  if 2 ^ F.maxExponent ≤ x then ((⊤ : WithTop ℚ) : WithBot (WithTop ℚ))
  else if x ≤ -2 ^ F.maxExponent then ⊥
  else ((x : WithTop ℚ) : WithBot (WithTop ℚ))

theorem clamp_mono (h : x ≤ y) : F.clamp x ≤ F.clamp y := by
  have hpos : (0 : ℚ) < 2 ^ F.maxExponent := zpow_pos (by norm_num) _
  unfold clamp
  split_ifs
  all_goals first
    | exact le_rfl
    | exact bot_le
    | exact WithBot.coe_le_coe.mpr le_top
    | exact WithBot.coe_le_coe.mpr (WithTop.coe_le_coe.mpr h)
    | (exfalso; linarith)

theorem clamp_of_abs_lt (h : |x| < 2 ^ F.maxExponent) :
    F.clamp x = ((x : WithTop ℚ) : WithBot (WithTop ℚ)) := by
  obtain ⟨hleft, hright⟩ := abs_lt.mp h
  rw [clamp, if_neg (not_le.mpr hright), if_neg (not_le.mpr hleft)]

theorem eq_of_clamp_eq (h : F.clamp x = ((y : WithTop ℚ) : WithBot (WithTop ℚ))) : x = y := by
  unfold clamp at h
  split_ifs at h
  · exact absurd (WithBot.coe_injective h) WithTop.top_ne_coe
  · exact absurd h WithBot.bot_ne_coe
  · exact WithTop.coe_injective (WithBot.coe_injective h)

/-- The value of the format that is nearest to `x`. -/
def rounded (x : ℚ) : WithBot (WithTop ℚ) := F.clamp (F.nearest x)

theorem rounded_mono (h : x ≤ y) : F.rounded x ≤ F.rounded y := F.clamp_mono (F.nearest_mono h)

theorem rounded_zero : F.rounded 0 = ((0 : WithTop ℚ) : WithBot (WithTop ℚ)) := by
  have hlt : |(0 : ℚ)| < 2 ^ F.maxExponent := by
    rw [abs_zero]
    exact zpow_pos (by norm_num) _
  rw [rounded, nearest_zero, F.clamp_of_abs_lt hlt]
  rfl

theorem rounded_eq_zero_iff : F.rounded x = ((0 : WithTop ℚ) : WithBot (WithTop ℚ)) ↔
    |x| ≤ 2 ^ (F.minExponent - 1) := by
  rw [← nearest_eq_zero_iff]
  constructor
  · exact F.eq_of_clamp_eq
  · intro hzero
    rw [rounded, hzero, ← F.nearest_zero]
    exact F.rounded_zero

theorem rounded_ne_zero (hmin : F.minExponent ≤ 0) (hbits : 1 < F.precision) (h : 1 ≤ |x|) :
    F.rounded x ≠ ((0 : WithTop ℚ) : WithBot (WithTop ℚ)) := by
  intro hzero
  exact F.nearest_ne_zero hmin hbits h (F.eq_of_clamp_eq hzero)

theorem compare_rounded_iff :
    compare (F.rounded x) (F.rounded y) = compare x y ↔ (F.rounded x = F.rounded y → x = y) := by
  constructor
  · intro h heq
    rw [compare_eq_iff_eq.mpr heq] at h
    exact compare_eq_iff_eq.mp h.symm
  · intro h
    rcases lt_trichotomy x y with hlt | heq | hlt
    · have hne : F.rounded x ≠ F.rounded y := fun heq => hlt.ne (h heq)
      have hlt' : F.rounded x < F.rounded y := (F.rounded_mono hlt.le).lt_of_ne hne
      rw [compare_lt_iff_lt.mpr hlt, compare_lt_iff_lt.mpr hlt']
    · rw [heq, compare_eq_iff_eq.mpr rfl, compare_eq_iff_eq.mpr rfl]
    · have hne : F.rounded x ≠ F.rounded y := fun heq => hlt.ne' (h heq)
      have hlt' : F.rounded y < F.rounded x := (F.rounded_mono hlt.le).lt_of_ne hne.symm
      rw [compare_gt_iff_gt.mpr hlt, compare_gt_iff_gt.mpr hlt']

end Format

/-- What a floating-point variable holds; the two zeros, equal in every comparison, are one. -/
inductive Value where
  | nan
  | number (x : WithBot (WithTop ℚ))
  deriving DecidableEq

namespace Value

/-- The order of two values; a NaN has none. -/
def partialCmp : Value → Value → Option Ordering
  | number x, number y => some (compare x y)
  | _, _ => none

theorem partialCmp_eq_iff {a b : Value} : a.partialCmp b = some .eq ↔ a = b ∧ a ≠ nan := by
  cases a with
  | nan => simp [partialCmp]
  | number x =>
    cases b with
    | nan | number => simp [partialCmp]

def finite? : Value → Option ℚ
  | number (some (some x)) => some x
  | _ => none

theorem finite?_rounded (F : Format) (x : ℚ) : (Value.number (F.rounded x)).finite? =
    if 2 ^ F.maxExponent - 2 ^ (F.maxExponent - F.precision - 1) ≤ |x| then none
    else some (F.nearest x) := by
  rw [if_congr F.le_abs_nearest_iff.symm rfl rfl, Format.rounded]
  split_ifs with h
  · rcases le_abs.mp h with h | h
    · rw [Format.clamp, if_pos h]
      rfl
    · have hpos : (0 : ℚ) < 2 ^ F.maxExponent := zpow_pos two_pos _
      rw [Format.clamp, if_neg (by linarith), if_pos (by linarith)]
      rfl
  · rw [F.clamp_of_abs_lt (not_le.mp h)]
    rfl

end Value

/-- The integer part of a number. -/
def truncate (x : ℚ) : ℤ := if 0 ≤ x then ⌊x⌋ else ⌈x⌉

@[simp] theorem truncate_intCast (n : ℤ) : truncate n = n := by
  unfold truncate
  split_ifs <;> simp

theorem abs_truncate_le (x : ℚ) : |(truncate x : ℚ)| ≤ |x| := by
  unfold truncate
  split_ifs with h
  · have hfloor : (0 : ℚ) ≤ (⌊x⌋ : ℚ) := by exact_mod_cast Int.floor_nonneg.mpr h
    rw [abs_of_nonneg h, abs_of_nonneg hfloor]
    exact Int.floor_le x
  · have hx : x ≤ 0 := (not_le.mp h).le
    have hceil : (⌈x⌉ : ℚ) ≤ 0 := by exact_mod_cast Int.ceil_le.mpr (by exact_mod_cast hx)
    rw [abs_of_nonpos hx, abs_of_nonpos hceil]
    exact neg_le_neg (Int.le_ceil x)

theorem abs_truncate_sub_le (x : ℚ) : |(truncate x : ℚ) - x| ≤ 1 := by
  unfold truncate
  split_ifs
  · rw [abs_le]
    have hlt := Int.lt_floor_add_one x
    have hle := Int.floor_le x
    constructor <;> linarith
  · rw [abs_le]
    have hlt := Int.ceil_lt_add_one x
    have hle := Int.le_ceil x
    constructor <;> linarith

theorem truncate_neg (x : ℚ) : truncate (-x) = -truncate x := by
  unfold truncate
  rw [Int.floor_neg, Int.ceil_neg]
  rcases lt_trichotomy x 0 with h | rfl | h
  · rw [if_pos (by linarith), if_neg (by linarith)]
  · simp
  · rw [if_neg (by linarith), if_pos h.le]

namespace Format

variable (F : Format) {x : ℚ}

/-- `x` is not rounded away from its integer part. Where the format has a number for each integer,
`x` comes before the middle of the last step to the next one; further out its integer part is a
number of the format. -/
def KeepsWhole (x : ℚ) : Prop :=
  if F.unit x ≤ 1 then |x| < ⌊|x|⌋ + 1 - F.unit x / 2 ∨
    |x| = ⌊|x|⌋ + 1 - F.unit x / 2 ∧ F.unit x = 1 ∧ ⌊|x|⌋ % 2 = 0
  else ∃ m : ℤ, (⌊|x|⌋ : ℚ) = m * F.unit x

/-- Where the steps are no longer than one, an integer is a number of them. -/
theorem exists_mul_unit_eq_one (hle : F.unit x ≤ 1) :
    ∃ k : ℕ, (1 : ℚ) = (2 ^ k : ℤ) * F.unit x := by
  have hexp : F.unitExponent x ≤ 0 := by
    by_contra hpos
    have hone := one_lt_zpow₀ (one_lt_two (α := ℚ)) (not_le.mp hpos)
    exact absurd hle (not_le.mpr hone)
  obtain ⟨k, hk⟩ := Int.eq_ofNat_of_zero_le (neg_nonneg.mpr hexp)
  refine ⟨k, ?_⟩
  rw [unit, Int.cast_pow, Int.cast_ofNat, ← zpow_natCast, ← zpow_add₀ two_ne_zero, ← hk,
    neg_add_cancel, zpow_zero]

/-- A longer step is an even number. -/
theorem exists_unit_eq_two_pow (hone : 1 < F.unit x) :
    ∃ k : ℕ, F.unit x = (2 ^ (k + 1) : ℤ) := by
  have hexp : 0 < F.unitExponent x := by
    by_contra hneg
    have hle := zpow_le_one_of_nonpos₀ (one_le_two (α := ℚ)) (not_lt.mp hneg)
    exact absurd hone (not_lt.mpr hle)
  obtain ⟨k, hk⟩ := Int.eq_ofNat_of_zero_le (show 0 ≤ F.unitExponent x - 1 by omega)
  refine ⟨k, ?_⟩
  have hsucc : F.unitExponent x = ((k + 1 : ℕ) : ℤ) := by
    push_cast
    omega
  rw [unit, hsucc, zpow_natCast]
  push_cast
  rfl

theorem floor_nearest_iff_of_le (hle : F.unit x ≤ 1) :
    ⌊F.nearest x⌋ = ⌊x⌋ ↔ x < ⌊x⌋ + 1 - F.unit x / 2 ∨
      x = ⌊x⌋ + 1 - F.unit x / 2 ∧ F.unit x = 1 ∧ ⌊x⌋ % 2 = 0 := by
  have hunit := F.unit_pos x
  obtain ⟨k, hk⟩ := F.exists_mul_unit_eq_one hle
  have hsteps (m : ℤ) : (m : ℚ) = ((m * 2 ^ k : ℤ) : ℚ) * F.unit x := by
    rw [Int.cast_mul, mul_assoc, ← hk, mul_one]
  have hkeeps : (⌊x⌋ : ℚ) ≤ F.nearest x := by
    rw [hsteps]
    refine F.multiple_le_nearest ?_
    rw [← hsteps]
    exact Int.floor_le x
  have hbelow : F.nearest x < ⌊x⌋ + 1 ↔
      nearestEven (x / F.unit x) < (⌊x⌋ + 1) * 2 ^ k := by
    have hnext : (⌊x⌋ : ℚ) + 1 = (((⌊x⌋ + 1) * 2 ^ k : ℤ) : ℚ) * F.unit x := by
      rw [← hsteps]
      push_cast
      rfl
    rw [nearest, hnext, mul_lt_mul_iff_left₀ hunit, Int.cast_lt]
  have hmid : x / F.unit x < ((⌊x⌋ + 1) * 2 ^ k : ℤ) - 1 / 2 ↔
      x < ⌊x⌋ + 1 - F.unit x / 2 := by
    rw [div_lt_iff₀ hunit, sub_mul, ← hsteps]
    push_cast
    constructor <;> intro h <;> linarith
  have hat : x / F.unit x = ((⌊x⌋ + 1) * 2 ^ k : ℤ) - 1 / 2 ↔
      x = ⌊x⌋ + 1 - F.unit x / 2 := by
    rw [div_eq_iff hunit.ne', sub_mul, ← hsteps]
    push_cast
    constructor <;> intro h <;> linarith
  have hodd : (⌊x⌋ + 1) * 2 ^ k % 2 = 1 ↔ F.unit x = 1 ∧ ⌊x⌋ % 2 = 0 := by
    cases k with
    | zero =>
      have hone : F.unit x = 1 := by simpa using hk.symm
      rw [pow_zero, mul_one]
      simp only [hone, true_and]
      omega
    | succ k =>
      have hne : F.unit x ≠ 1 := by
        intro hone
        rw [hone, mul_one] at hk
        have htwo : (1 : ℤ) = 2 ^ (k + 1) := by exact_mod_cast hk
        rw [pow_succ] at htwo
        omega
      have heven : (⌊x⌋ + 1) * 2 ^ (k + 1) % 2 = 0 := by
        rw [pow_succ, ← mul_assoc]
        exact Int.mul_emod_left _ _
      simp [heven, hne]
  rw [Int.floor_eq_iff, and_iff_right hkeeps, hbelow, nearestEven_lt_iff, hmid, hat, hodd]

theorem floor_nearest_iff_of_lt (hone : 1 < F.unit x) :
    ⌊F.nearest x⌋ = ⌊x⌋ ↔ ∃ m : ℤ, (⌊x⌋ : ℚ) = m * F.unit x := by
  have hunit := F.unit_pos x
  have hfloor := Int.floor_le x
  have hlt := Int.lt_floor_add_one x
  obtain ⟨k, hk⟩ := F.exists_unit_eq_two_pow hone
  have hwhole : F.nearest x = ((nearestEven (x / F.unit x) * 2 ^ (k + 1) : ℤ) : ℚ) := by
    rw [nearest, Int.cast_mul, ← hk]
  constructor
  · intro heq
    rw [hwhole, Int.floor_intCast] at heq
    exact ⟨nearestEven (x / F.unit x), by rw [← heq, hk, Int.cast_mul]⟩
  · rintro ⟨m, hm⟩
    have hquot : m ≤ x / F.unit x ∧ x / F.unit x < m + 1 / 2 := by
      rw [le_div_iff₀ hunit, div_lt_iff₀ hunit, add_mul, ← hm]
      have htwo : (2 : ℚ) ≤ F.unit x := by
        rw [hk, pow_succ]
        push_cast
        have := one_le_pow₀ (one_le_two (α := ℚ)) (n := k)
        linarith
      constructor <;> linarith
    have hround : nearestEven (x / F.unit x) = m := by
      have hhigh : nearestEven (x / F.unit x) < m + 1 := by
        refine nearestEven_lt_iff.mpr (.inl ?_)
        push_cast
        linarith [hquot.2]
      have hlow := nearestEven_mono hquot.1
      rw [nearestEven_intCast] at hlow
      omega
    rw [nearest, hround, ← hm, Int.floor_intCast]

theorem floor_nearest_iff (h : 0 ≤ x) : ⌊F.nearest x⌋ = ⌊x⌋ ↔ F.KeepsWhole x := by
  rw [KeepsWhole, abs_of_nonneg h]
  split_ifs with hle
  · exact F.floor_nearest_iff_of_le hle
  · exact F.floor_nearest_iff_of_lt (not_le.mp hle)

theorem keepsWhole_neg (x : ℚ) : F.KeepsWhole (-x) ↔ F.KeepsWhole x := by
  rw [KeepsWhole, KeepsWhole, unit_neg, abs_neg]

theorem truncate_nearest_iff (x : ℚ) : truncate (F.nearest x) = truncate x ↔ F.KeepsWhole x := by
  have hpos {x : ℚ} (h : 0 ≤ x) : truncate (F.nearest x) = truncate x ↔ F.KeepsWhole x := by
    rw [truncate, truncate, if_pos (F.nearest_nonneg h), if_pos h]
    exact F.floor_nearest_iff h
  rcases le_total 0 x with h | h
  · exact hpos h
  · have hneg := hpos (neg_nonneg.mpr h)
    rwa [nearest_neg, truncate_neg, truncate_neg, neg_inj, keepsWhole_neg] at hneg

end Format

end BinaryFloat
