import DealerPay.Decimal.Arithmetic
import Mathlib.Data.Rat.Floor
import Mathlib.Tactic

/-!
# The value of a decimal number

A decimal number is written with a sign, digits and an exponent; what it is worth is a rational.

* `Decimal.digits` are the digits with their sign, `Decimal.value` is the rational number.
* `Decimal.tenPow_adjusted_le_abs_value` and `Decimal.abs_value_lt` locate a number by the place of
  its first digit.
* `Decimal.lt_iff` and `Decimal.le_iff`: the order of decimal numbers, which compares first digits
  before it aligns anything, is the order of their values. So are the tests for signs and zero, and
  `Decimal.least` and `Decimal.greatest` are the minimum and the maximum.
-/

namespace DealerPay

/-! ## Powers of ten and counts of digits -/

/-- The power of ten, as the algebra library writes it. -/
theorem tenTo_eq (k : ℕ) : tenTo k = 10 ^ k := by
  induction k with
  | zero => rfl
  | succ k ih => rw [tenTo_succ, ih, pow_succ]

/-- The power of ten as a rational. -/
@[simp] theorem cast_tenTo (k : ℕ) : (tenTo k : ℚ) = (10 : ℚ) ^ k := by
  rw [tenTo_eq]
  push_cast
  rfl

/-- A number has at most `k` digits exactly when it is below the power of ten with exponent `k`. -/
theorem digitCount_le_iff {n k : ℕ} (hn : 0 < n) : digitCount n ≤ k ↔ n < 10 ^ k := by
  constructor
  · intro h
    have hlt := lt_tenTo_digitCount n
    rw [tenTo_eq] at hlt
    exact hlt.trans_le (Nat.pow_le_pow_right (by norm_num) h)
  · intro h
    have hle := tenTo_le_of_pos hn
    rw [tenTo_eq] at hle
    have hpow : 10 ^ (digitCount n - 1) < 10 ^ k := hle.trans_lt h
    have := (Nat.pow_lt_pow_iff_right (by norm_num : 1 < 10)).1 hpow
    omega

/-- A power of ten with any exponent is positive. -/
theorem tenPow_pos (e : ℤ) : (0 : ℚ) < (10 : ℚ) ^ e := zpow_pos (by norm_num) e

/-- Powers of ten multiply by adding exponents. -/
theorem tenPow_add (a b : ℤ) : (10 : ℚ) ^ (a + b) = (10 : ℚ) ^ a * (10 : ℚ) ^ b :=
  zpow_add₀ (by norm_num) a b

/-- A power of ten is a natural power times the one below it. -/
theorem tenPow_eq_of_le {a b : ℤ} (h : a ≤ b) :
    (10 : ℚ) ^ b = (10 : ℚ) ^ (b - a).toNat * (10 : ℚ) ^ a := by
  rw [← zpow_natCast, ← tenPow_add]
  congr 1
  omega

/-- A power of ten is the one so many places below it, times ten for each place. -/
theorem tenPow_eq_mul_sub (e : ℤ) (k : ℕ) :
    (10 : ℚ) ^ e = (10 : ℚ) ^ k * (10 : ℚ) ^ (e - k) := by
  have hback : (e - (e - k)).toNat = k := by omega
  rw [tenPow_eq_of_le (by omega : e - k ≤ e), hback]

/-- Powers of ten grow with the exponent. -/
theorem tenPow_le {a b : ℤ} (h : a ≤ b) : (10 : ℚ) ^ a ≤ (10 : ℚ) ^ b :=
  zpow_le_zpow_right₀ (by norm_num) h

/-- The exponents of powers of ten are ordered as the powers are. -/
theorem lt_of_tenPow_lt {a b : ℤ} (h : (10 : ℚ) ^ a < (10 : ℚ) ^ b) : a < b :=
  (zpow_lt_zpow_iff_right₀ (by norm_num)).1 h

namespace Decimal

/-! ## Values -/

/-- The digits with the sign of the number. -/
def digits (d : Decimal) : ℤ := if d.negative then -(d.coefficient : ℤ) else d.coefficient

/-- The rational number that a decimal number stands for. -/
def value (d : Decimal) : ℚ := d.digits * (10 : ℚ) ^ d.exponent

/-- The size of the signed digits is the coefficient. -/
@[simp] theorem abs_digits (d : Decimal) : |d.digits| = d.coefficient := by
  unfold digits
  split <;> simp

/-- The size of a number without its sign. -/
theorem abs_value (d : Decimal) : |d.value| = d.coefficient * (10 : ℚ) ^ d.exponent := by
  have h : |(d.digits : ℚ)| = (d.coefficient : ℚ) := by exact_mod_cast d.abs_digits
  rw [value, abs_mul, h, abs_of_pos (tenPow_pos _)]

/-- A number is worth nothing exactly when it has no digits. -/
@[simp] theorem value_eq_zero_iff {d : Decimal} : d.value = 0 ↔ d.coefficient = 0 := by
  rw [← abs_eq_zero, abs_value, mul_eq_zero, or_iff_left (tenPow_pos _).ne', Nat.cast_eq_zero]

/-- The value of a number without a minus sign. -/
theorem value_of_not_negative {d : Decimal} (h : d.negative = false) :
    d.value = d.coefficient * (10 : ℚ) ^ d.exponent := by
  simp [value, digits, h]

/-- The value of a number with a minus sign. -/
theorem value_of_negative {d : Decimal} (h : d.negative = true) :
    d.value = -(d.coefficient * (10 : ℚ) ^ d.exponent) := by
  simp [value, digits, h]

/-- A number above zero has no minus sign. -/
theorem negative_of_pos {d : Decimal} (h : 0 < d.value) : d.negative = false := by
  rw [← Bool.not_eq_true]
  intro hnegative
  rw [value_of_negative hnegative, neg_pos] at h
  exact absurd h (not_lt.2 (by positivity))

/-- The other sign gives the negative value. -/
@[simp] theorem value_neg (d : Decimal) : d.neg.value = -d.value := by
  cases h : d.negative <;> simp [neg, value, digits, h]

/-- The number zero is worth zero. -/
@[simp] theorem value_zero : zero.value = 0 := by simp [zero]

/-- A natural number is worth itself. -/
@[simp] theorem value_ofNat (n : ℕ) : (ofNat n).value = n := by simp [ofNat, value, digits]

/-- The number one is worth one. -/
@[simp] theorem value_one : one.value = 1 := by simp [one]

/-- One half is worth one half. -/
@[simp] theorem value_half : half.value = 1 / 2 := by
  simp [half, value, digits]
  norm_num

/-- A number without its sign is worth its size. -/
theorem value_abs (d : Decimal) : value { d with negative := false } = |d.value| := by
  rw [value_of_not_negative rfl, abs_value]

/-! ## The place of the first digit -/

/-- A number other than zero reaches the power of ten that its first digit counts. -/
theorem tenPow_adjusted_le_abs_value {d : Decimal} (h : d.coefficient ≠ 0) :
    (10 : ℚ) ^ d.adjusted ≤ |d.value| := by
  have hle := tenTo_le_of_pos (Nat.pos_of_ne_zero h)
  have hpos := digitCount_pos d.coefficient
  have hcast : (10 : ℚ) ^ (digitCount d.coefficient - 1) ≤ d.coefficient := by
    rw [← cast_tenTo]
    exact_mod_cast hle
  have hsplit : d.adjusted = ((digitCount d.coefficient - 1 : ℕ) : ℤ) + d.exponent := by
    unfold adjusted
    omega
  rw [hsplit, tenPow_add, zpow_natCast, abs_value]
  exact mul_le_mul_of_nonneg_right hcast (tenPow_pos _).le

/-- A number stays below the power of ten next to the one that its first digit counts. -/
theorem abs_value_lt (d : Decimal) : |d.value| < (10 : ℚ) ^ (d.adjusted + 1) := by
  have hlt := lt_tenTo_digitCount d.coefficient
  have hcast : (d.coefficient : ℚ) < (10 : ℚ) ^ digitCount d.coefficient := by
    rw [← cast_tenTo]
    exact_mod_cast hlt
  have hsplit : d.adjusted + 1 = (digitCount d.coefficient : ℤ) + d.exponent := by
    unfold adjusted
    omega
  rw [hsplit, tenPow_add, zpow_natCast, abs_value]
  exact mul_lt_mul_of_pos_right hcast (tenPow_pos _)

/-- A number below a power of ten has its first digit below that place. -/
theorem adjusted_lt {d : Decimal} (hd : d.coefficient ≠ 0) {e : ℤ}
    (h : |d.value| < (10 : ℚ) ^ e) : d.adjusted < e :=
  lt_of_tenPow_lt ((tenPow_adjusted_le_abs_value hd).trans_lt h)

/-! ## Moving the exponent -/

/-- A coefficient moved up, counted at the lower place, is worth what it was. -/
theorem scaled_mul_tenPow (c : ℕ) {place e : ℤ} (h : place ≤ e) :
    (scaled c (e - place).toNat : ℚ) * (10 : ℚ) ^ place = c * (10 : ℚ) ^ e := by
  rw [scaled_eq, Nat.cast_mul, cast_tenTo, tenPow_eq_of_le h, mul_assoc]

/-- The signed coefficient at a place at or below the last digit is worth the number. -/
theorem signedAt_mul_tenPow {d : Decimal} {place : ℤ} (h : place ≤ d.exponent) :
    (d.signedAt place : ℚ) * (10 : ℚ) ^ place = d.value := by
  have hs := scaled_mul_tenPow d.coefficient h
  unfold signedAt
  cases hn : d.negative
  · rw [value_of_not_negative hn, ← hs]
    simp
  · rw [value_of_negative hn, ← hs]
    simp

/-! ## Order -/

/-- The order of magnitudes is the order of sizes: the first digits decide where their places
differ, and all digits at a common place where they do not. -/
theorem compareMagnitude_spec {a b : Decimal} (ha : a.coefficient ≠ 0) (hb : b.coefficient ≠ 0) :
    match compareMagnitude a b with
    | .lt => |a.value| < |b.value|
    | .eq => |a.value| = |b.value|
    | .gt => |b.value| < |a.value| := by
  have apart : ∀ {x y : Decimal}, y.coefficient ≠ 0 → x.adjusted < y.adjusted →
      |x.value| < |y.value| := by
    intro x y hy h
    calc |x.value| < (10 : ℚ) ^ (x.adjusted + 1) := abs_value_lt x
      _ ≤ (10 : ℚ) ^ y.adjusted := tenPow_le (by omega)
      _ ≤ |y.value| := tenPow_adjusted_le_abs_value hy
  unfold compareMagnitude
  rcases lt_trichotomy a.adjusted b.adjusted with h | h | h
  · rw [show Ord.compare a.adjusted b.adjusted = .lt from compare_lt_iff_lt.2 h]
    exact apart hb h
  · rw [show Ord.compare a.adjusted b.adjusted = .eq from compare_eq_iff_eq.2 h]
    have hpos := tenPow_pos (min a.exponent b.exponent)
    rw [abs_value, abs_value, ← scaled_mul_tenPow a.coefficient (min_le_left a.exponent b.exponent),
      ← scaled_mul_tenPow b.coefficient (min_le_right a.exponent b.exponent)]
    rcases hc : Ord.compare (scaled a.coefficient (a.exponent - min a.exponent b.exponent).toNat)
      (scaled b.coefficient (b.exponent - min a.exponent b.exponent).toNat) with _ | _ | _
    · exact mul_lt_mul_of_pos_right (by exact_mod_cast compare_lt_iff_lt.1 hc) hpos
    · show _ = _
      rw [compare_eq_iff_eq.1 hc]
    · exact mul_lt_mul_of_pos_right (by exact_mod_cast compare_gt_iff_gt.1 hc) hpos
  · rw [show Ord.compare a.adjusted b.adjusted = .gt from compare_gt_iff_gt.2 h]
    exact apart ha h

/-- The sign of a number is that of its value. -/
theorem signum_cases (d : Decimal) :
    (d.signum = -1 ∧ d.value < 0) ∨ (d.signum = 0 ∧ d.value = 0) ∨
      (d.signum = 1 ∧ 0 < d.value) := by
  unfold signum
  by_cases hc : d.coefficient = 0
  · exact .inr (.inl ⟨if_pos hc, value_eq_zero_iff.2 hc⟩)
  · have hpos : (0 : ℚ) < d.coefficient * (10 : ℚ) ^ d.exponent :=
      mul_pos (by exact_mod_cast Nat.pos_of_ne_zero hc) (tenPow_pos _)
    rw [if_neg hc]
    cases hn : d.negative
    · exact .inr (.inr ⟨rfl, by rwa [value_of_not_negative hn]⟩)
    · exact .inl ⟨rfl, by rw [value_of_negative hn]; linarith⟩

/-- The order of decimal numbers is the order of their values. -/
theorem compare_spec (a b : Decimal) :
    match a.compare b with
    | .lt => a.value < b.value
    | .eq => a.value = b.value
    | .gt => b.value < a.value := by
  unfold compare
  rcases a.signum_cases with ⟨ha, hav⟩ | ⟨ha, hav⟩ | ⟨ha, hav⟩ <;>
    rcases b.signum_cases with ⟨hb, hbv⟩ | ⟨hb, hbv⟩ | ⟨hb, hbv⟩ <;> rw [ha, hb]
  -- both below zero: the larger magnitude is the smaller number
  · have h := compareMagnitude_spec (value_eq_zero_iff.not.1 hbv.ne)
      (value_eq_zero_iff.not.1 hav.ne)
    rw [abs_of_neg hav, abs_of_neg hbv] at h
    show match compareMagnitude b a with | .lt => _ | .eq => _ | .gt => _
    cases hc : compareMagnitude b a <;> rw [hc] at h <;> simp only at h ⊢ <;> linarith
  · show a.value < b.value
    linarith
  · show a.value < b.value
    linarith
  · show b.value < a.value
    linarith
  · show a.value = b.value
    rw [hav, hbv]
  · show a.value < b.value
    linarith
  · show b.value < a.value
    linarith
  · show b.value < a.value
    linarith
  -- both above zero
  · have h := compareMagnitude_spec (value_eq_zero_iff.not.1 hav.ne')
      (value_eq_zero_iff.not.1 hbv.ne')
    rw [abs_of_pos hav, abs_of_pos hbv] at h
    exact h

/-- A decimal number is below another one exactly when its value is. -/
theorem lt_iff {a b : Decimal} : a < b ↔ a.value < b.value := by
  have h := compare_spec a b
  show a.compare b = .lt ↔ _
  cases hc : a.compare b <;> rw [hc] at h <;> simp only at h
  · simpa using h
  · simp [h]
  · simpa using h.le

/-- A decimal number is at most another one exactly when its value is. -/
theorem le_iff {a b : Decimal} : a ≤ b ↔ a.value ≤ b.value := by
  have h := compare_spec a b
  show a.compare b ≠ .gt ↔ _
  cases hc : a.compare b <;> rw [hc] at h <;> simp only at h
  · simpa using h.le
  · simp [h]
  · simpa using h

/-- Two decimal numbers are the same exactly when their values are equal. -/
theorem same_iff {a b : Decimal} : a.same b = true ↔ a.value = b.value := by
  have h := compare_spec a b
  unfold same
  cases hc : a.compare b <;> rw [hc] at h <;> simp only at h
  · simpa using h.ne
  · simpa using h
  · simpa using h.ne'

/-- The test for zero looks at the value. -/
theorem isZero_iff {d : Decimal} : d.isZero = true ↔ d.value = 0 := by simp [isZero]

/-- The test for a positive number looks at the value. -/
theorem isPositive_iff {d : Decimal} : d.isPositive = true ↔ 0 < d.value := by
  rcases d.signum_cases with ⟨hs, hv⟩ | ⟨hs, hv⟩ | ⟨hs, hv⟩ <;>
    cases hn : d.negative <;> by_cases hc : d.coefficient = 0 <;>
    simp [isPositive, signum, hn, hc] at hs ⊢ <;> linarith

/-- The test for a negative number looks at the value. -/
theorem isNegative_iff {d : Decimal} : d.isNegative = true ↔ d.value < 0 := by
  rcases d.signum_cases with ⟨hs, hv⟩ | ⟨hs, hv⟩ | ⟨hs, hv⟩ <;>
    cases hn : d.negative <;> by_cases hc : d.coefficient = 0 <;>
    simp [isNegative, signum, hn, hc] at hs ⊢ <;> linarith

/-- The smaller of two numbers is worth the smaller value. -/
@[simp] theorem value_least (a b : Decimal) : (a.least b).value = min a.value b.value := by
  unfold least
  split
  · next h => exact (min_eq_right (lt_iff.1 h).le).symm
  · next h => exact (min_eq_left (not_lt.1 (lt_iff.not.1 h))).symm

/-- The larger of two numbers is worth the larger value. -/
@[simp] theorem value_greatest (a b : Decimal) : (a.greatest b).value = max a.value b.value := by
  unfold greatest
  split
  · next h => exact (max_eq_right (lt_iff.1 h).le).symm
  · next h => exact (max_eq_left (not_lt.1 (lt_iff.not.1 h))).symm

end Decimal

end DealerPay
