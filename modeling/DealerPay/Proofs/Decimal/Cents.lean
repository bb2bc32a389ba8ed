import DealerPay.Proofs.Decimal.Exactness
import Mathlib.Algebra.Order.Round

/-!
# Rounding to cents

* `roundAway` is the integer nearest to a rational, a half going away from zero; `nearestCent` is
  the same for cents. Both are monotone and odd and are off by no more than half a unit.
  `nearestCent_of_near` finds whole cents again.
* `Decimal.value_of_toCents`: the cents of a number are the nearest cents of its value, computed from
  all of its digits.
* `Decimal.toCents_of_abs_lt`: every number has them whose cents fifty digits can hold.
-/

namespace DealerPay

/-! ## Rounding a rational -/

/-- The integer nearest to a rational, a half going away from zero. -/
def roundAway (x : ℚ) : ℤ := if x < 0 then -round (-x) else round x

/-- The whole number of cents nearest to an amount, half a cent going away from zero. -/
def nearestCent (x : ℚ) : ℚ := roundAway (x * 100) / 100

/-- Rounding moves a number by no more than a half. -/
theorem abs_roundAway_sub_le (x : ℚ) : |(roundAway x : ℚ) - x| ≤ 1 / 2 := by
  unfold roundAway
  split
  · have h := abs_sub_round (-x)
    rwa [show -x - (round (-x) : ℚ) = ((-round (-x) : ℤ) : ℚ) - x by push_cast; ring] at h
  · rw [abs_sub_comm]
    exact abs_sub_round x

/-- An integer is not rounded. -/
@[simp] theorem roundAway_intCast (n : ℤ) : roundAway n = n := by
  unfold roundAway
  split
  · rw [← Int.cast_neg, round_intCast, neg_neg]
  · exact round_intCast n

/-- Rounding keeps the sign apart. -/
theorem roundAway_neg (x : ℚ) : roundAway (-x) = -roundAway x := by
  unfold roundAway
  rcases lt_trichotomy x 0 with h | h | h
  · rw [if_neg (by linarith), if_pos h, neg_neg]
  · simp [h]
  · rw [if_pos (by linarith), if_neg (by linarith), neg_neg]

/-- Rounding a number that is not negative gives one that is not negative. -/
theorem roundAway_nonneg {x : ℚ} (h : 0 ≤ x) : 0 ≤ roundAway x := by
  unfold roundAway
  rw [if_neg (by linarith), round_eq]
  exact Int.floor_nonneg.2 (by linarith)

/-- Rounding keeps the order. -/
theorem roundAway_mono {x y : ℚ} (h : x ≤ y) : roundAway x ≤ roundAway y := by
  rcases lt_or_ge x 0 with hx | hx
  · rcases lt_or_ge y 0 with hy | hy
    · unfold roundAway
      rw [if_pos hx, if_pos hy, round_eq, round_eq]
      exact neg_le_neg (Int.floor_le_floor (by linarith))
    · have h1 := roundAway_nonneg (x := -x) (by linarith)
      have h2 := roundAway_nonneg hy
      rw [roundAway_neg] at h1
      omega
  · unfold roundAway
    rw [if_neg (by linarith), if_neg (by linarith), round_eq, round_eq]
    exact Int.floor_le_floor (by linarith)

/-- An amount is off by no more than half a cent. -/
theorem abs_nearestCent_sub_le (x : ℚ) : |nearestCent x - x| ≤ 1 / 200 := by
  have h := abs_roundAway_sub_le (x * 100)
  have hx : nearestCent x - x = ((roundAway (x * 100) : ℚ) - x * 100) / 100 := by
    unfold nearestCent
    ring
  rw [hx, abs_div, abs_of_pos (by norm_num : (0 : ℚ) < 100)]
  linarith

/-- Whole cents are not rounded. -/
theorem nearestCent_of_cents {x : ℚ} {n : ℤ} (h : x = n / 100) : nearestCent x = x := by
  have hx : x * 100 = (n : ℚ) := by rw [h]; ring
  rw [nearestCent, hx, roundAway_intCast, h]

/-- A number within half a cent of whole cents rounds to them. -/
theorem nearestCent_of_near {x y : ℚ} (hy : ∃ n : ℤ, y = n / 100) (h : |x - y| < 1 / 200) :
    nearestCent x = y := by
  obtain ⟨n, rfl⟩ := hy
  have hround := abs_le.1 (abs_roundAway_sub_le (x * 100))
  have hnear := abs_lt.1 h
  have hlow : ((n - 1 : ℤ) : ℚ) < roundAway (x * 100) := by
    push_cast
    linarith
  have hhigh : (roundAway (x * 100) : ℚ) < ((n + 1 : ℤ) : ℚ) := by
    push_cast
    linarith
  have heq : roundAway (x * 100) = n := by
    have h1 : n - 1 < roundAway (x * 100) := by exact_mod_cast hlow
    have h2 : roundAway (x * 100) < n + 1 := by exact_mod_cast hhigh
    omega
  rw [nearestCent, heq]

/-- Nothing is not rounded. -/
@[simp] theorem nearestCent_zero : nearestCent 0 = 0 := nearestCent_of_cents (n := 0) (by simp)

/-- Rounding keeps the sign of an amount apart. -/
theorem nearestCent_neg (x : ℚ) : nearestCent (-x) = -nearestCent x := by
  unfold nearestCent
  rw [neg_mul, roundAway_neg, Int.cast_neg, neg_div]

/-- Rounding keeps the order of amounts. -/
theorem nearestCent_mono {x y : ℚ} (h : x ≤ y) : nearestCent x ≤ nearestCent y := by
  have hr : roundAway (x * 100) ≤ roundAway (y * 100) := roundAway_mono (by linarith)
  have hq : (roundAway (x * 100) : ℚ) ≤ roundAway (y * 100) := by exact_mod_cast hr
  unfold nearestCent
  linarith

/-- Rounding keeps the larger of two amounts. -/
theorem nearestCent_max (x y : ℚ) :
    nearestCent (max x y) = max (nearestCent x) (nearestCent y) :=
  Monotone.map_max fun _ _ h => nearestCent_mono h

/-- An amount that is not negative stays so. -/
theorem nearestCent_nonneg {x : ℚ} (h : 0 ≤ x) : 0 ≤ nearestCent x := by
  simpa using nearestCent_mono h

/-- An amount that is rounded above zero is rounded to one cent at least. -/
theorem nearestCent_pos_iff {x : ℚ} : 0 < nearestCent x ↔ 1 / 100 ≤ nearestCent x := by
  constructor
  · intro h
    have hcents : 0 < roundAway (x * 100) := by
      unfold nearestCent at h
      exact_mod_cast (div_pos_iff_of_pos_right (by norm_num)).1 h
    unfold nearestCent
    gcongr
    exact_mod_cast hcents
  · intro h
    linarith

/-- An amount within a whole bound is rounded within it. -/
theorem abs_nearestCent_le {x : ℚ} {n : ℕ} (h : |x| ≤ n) : |nearestCent x| ≤ n := by
  have hn : nearestCent (n : ℚ) = n :=
    nearestCent_of_cents (n := n * 100) (by push_cast; ring)
  rw [abs_le] at h ⊢
  have hlow := nearestCent_mono h.1
  have hhigh := nearestCent_mono h.2
  rw [nearestCent_neg] at hlow
  rw [hn] at hlow hhigh
  exact ⟨hlow, hhigh⟩

/-! ## Rounding digits -/

/-- With ties going away from zero a quotient goes up from the half on. -/
theorem roundsUp_awayFromZero (q m d : ℕ) :
    Tie.roundsUp .awayFromZero q m d = decide (d ≤ 2 * m) := by
  unfold Tie.roundsUp
  rcases lt_trichotomy (2 * m) d with h | h | h
  · rw [compare_lt_iff_lt.2 h]
    simpa using h
  · rw [compare_eq_iff_eq.2 h]
    simp [h]
  · rw [compare_gt_iff_gt.2 h]
    simpa using h.le

/-- The rounded quotient is the integer nearest to the quotient. -/
theorem divRound_awayFromZero (n : ℕ) {d : ℕ} (hd : 0 < d) :
    (divRound .awayFromZero n d : ℤ) = roundAway ((n : ℚ) / d) := by
  have hdq : (0 : ℚ) < d := by exact_mod_cast hd
  have hn : (n : ℚ) = d * (n / d : ℕ) + (n % d : ℕ) := by
    exact_mod_cast (Nat.div_add_mod n d).symm
  have hlt : ((n % d : ℕ) : ℚ) < d := by exact_mod_cast Nat.mod_lt n hd
  have hge : (0 : ℚ) ≤ (n % d : ℕ) := Nat.cast_nonneg _
  unfold divRound roundAway
  rw [roundsUp_awayFromZero, if_neg (not_lt.2 (by positivity)), round_eq, eq_comm,
    Int.floor_eq_iff, ← sub_le_iff_le_add, ← lt_sub_iff_add_lt, le_div_iff₀ hdq, div_lt_iff₀ hdq]
  by_cases hup : d ≤ 2 * (n % d)
  · have hupq : (d : ℚ) ≤ 2 * (n % d : ℕ) := by exact_mod_cast hup
    rw [if_pos (decide_eq_true hup), Int.cast_natCast, Nat.cast_add_one]
    constructor <;> linarith
  · have hupq : 2 * (n % d : ℕ) < (d : ℚ) := by exact_mod_cast not_le.1 hup
    rw [if_neg (by simpa using hup), Int.cast_natCast]
    constructor <;> linarith

/-- Dropping digits leaves the integer nearest to the shifted coefficient. A coefficient that is
shorter than what is dropped is below a tenth of the unit. -/
theorem dropDigits_awayFromZero (c k : ℕ) :
    (dropDigits .awayFromZero c k : ℤ) = roundAway ((c : ℚ) / 10 ^ k) := by
  unfold dropDigits
  split
  · next hk =>
    have hc := lt_tenTo_digitCount c
    rw [tenTo_eq] at hc
    have hpow : c * 10 < 10 ^ k := by
      calc c * 10 < 10 ^ digitCount c * 10 := by omega
        _ = 10 ^ (digitCount c + 1) := (pow_succ 10 _).symm
        _ ≤ 10 ^ k := Nat.pow_le_pow_right (by norm_num) hk
    have hq : (c : ℚ) * 10 < 10 ^ k := by exact_mod_cast hpow
    have hpos : (0 : ℚ) < 10 ^ k := by positivity
    have hsmall : (c : ℚ) / 10 ^ k < 1 / 10 := by
      rw [div_lt_iff₀ hpos]
      linarith
    have hnonneg : 0 ≤ (c : ℚ) / 10 ^ k := by positivity
    unfold roundAway
    rw [if_neg (not_lt.2 hnonneg), round_eq, eq_comm, Int.floor_eq_iff]
    constructor <;> push_cast <;> linarith
  · rw [tenTo_eq, divRound_awayFromZero c (by positivity)]
    push_cast
    rfl

namespace Decimal

/-! ## Cents of a number -/

/-- Moving a number to cents gives the nearest cents of its value. -/
theorem value_rescale_cents (d : Decimal) :
    (rescale .awayFromZero (-2) d).value = nearestCent d.value := by
  unfold rescale
  split
  · next h =>
    have hs := scaled_mul_tenPow d.coefficient h
    have hv : value { d with
        coefficient := scaled d.coefficient (d.exponent - -2).toNat, exponent := -2 } = d.value := by
      cases hn : d.negative
      · rw [value_of_not_negative rfl, value_of_not_negative hn, ← hs]
      · rw [value_of_negative rfl, value_of_negative hn, ← hs]
    rw [hv, eq_comm]
    refine nearestCent_of_cents (n := signedAt (-2) d) ?_
    rw [← signedAt_mul_tenPow h]
    norm_num
    ring
  · next h =>
    have hk : d.coefficient * (10 : ℚ) ^ d.exponent * 100 =
        d.coefficient / 10 ^ (-2 - d.exponent).toNat := by
      have hp := tenPow_eq_of_le (not_le.1 h).le
      have hpos : (0 : ℚ) < 10 ^ (-2 - d.exponent).toNat := by positivity
      rw [eq_div_iff hpos.ne']
      have h2 : (10 : ℚ) ^ (-2 : ℤ) * 100 = 1 := by norm_num
      calc d.coefficient * (10 : ℚ) ^ d.exponent * 100 * 10 ^ (-2 - d.exponent).toNat
          = d.coefficient * (10 ^ (-2 - d.exponent).toNat * (10 : ℚ) ^ d.exponent) * 100 := by ring
        _ = d.coefficient := by rw [← hp, mul_assoc, h2, mul_one]
    have hdrop := dropDigits_awayFromZero d.coefficient (-2 - d.exponent).toNat
    have hq : ((dropDigits .awayFromZero d.coefficient (-2 - d.exponent).toNat : ℕ) : ℚ) =
        roundAway (d.coefficient * (10 : ℚ) ^ d.exponent * 100) := by
      rw [hk, ← hdrop]
      rfl
    cases hn : d.negative
    · rw [value_of_not_negative rfl, value_of_not_negative hn, hq, nearestCent]
      norm_num
      ring
    · rw [value_of_negative rfl, value_of_negative hn, nearestCent_neg, hq, nearestCent]
      norm_num
      ring

/-- The cents of a number, where there are any, are zero with two decimals or the number with its
last digits dropped. -/
theorem toCents_cases {d r : Decimal} (h : d.toCents = .ok r) :
    (d.coefficient = 0 ∧ r = { d with exponent := -2 }) ∨ r = rescale .awayFromZero (-2) d := by
  unfold toCents quantize at h
  split at h
  · next hd =>
    cases h
    exact .inl ⟨hd, rfl⟩
  · split at h
    · cases h
    · simp only at h
      split at h
      · cases h
      · cases h
        exact .inr rfl

/-- Cents are written with two decimals. -/
theorem exponent_of_toCents {d r : Decimal} (h : d.toCents = .ok r) : r.exponent = -2 := by
  rcases toCents_cases h with ⟨-, rfl⟩ | rfl
  · rfl
  · unfold rescale
    split <;> rfl

/-- Cents have fifty digits at most. -/
theorem digitCount_of_toCents {d r : Decimal} (h : d.toCents = .ok r) :
    digitCount r.coefficient ≤ centPrecision := by
  unfold toCents quantize at h
  split at h
  · next hd =>
    cases h
    show digitCount d.coefficient ≤ centPrecision
    rw [hd]
    decide +kernel
  · split at h
    · cases h
    · dsimp only at h
      split at h
      · cases h
      · next hshort =>
        cases h
        exact not_lt.1 hshort

/-- The cents of a number, where there are any, are the nearest cents of its value. -/
theorem value_of_toCents {d r : Decimal} (h : d.toCents = .ok r) :
    r.value = nearestCent d.value := by
  rcases toCents_cases h with ⟨hd, rfl⟩ | rfl
  · rw [value_eq_zero_iff.2 hd, nearestCent_zero, value_eq_zero_iff]
    exact hd
  · exact d.value_rescale_cents

/-- The cents of a number are the nearest cents of its value, as long as fifty digits hold them. -/
theorem toCents_of_abs_lt {d : Decimal} (h : |d.value| < 10 ^ 48 - 1 / 200) :
    Yields d.toCents fun r => r.value = nearestCent d.value ∧ r.exponent = -2 := by
  have found : Yields d.toCents fun _ => True := by
    unfold toCents quantize
    by_cases hd : d.coefficient = 0
    · rw [if_pos hd]
      exact .ok trivial
    rw [if_neg hd]
    have hadj : d.adjusted < 48 :=
      adjusted_lt hd (h.trans (by norm_num : (10 : ℚ) ^ 48 - 1 / 200 < (10 : ℚ) ^ (48 : ℤ)))
    have hfits : ¬ (centPrecision : ℤ) < d.exponent + digitCount d.coefficient - -2 := by
      unfold adjusted at hadj
      unfold centPrecision
      omega
    rw [if_neg hfits]
    have hshort : ¬ centPrecision < digitCount (rescale .awayFromZero (-2) d).coefficient := by
      rw [not_lt]
      by_cases h0 : (rescale .awayFromZero (-2) d).coefficient = 0
      · rw [h0]
        decide +kernel
      · refine (digitCount_le_iff (Nat.pos_of_ne_zero h0)).2 ?_
        have habs := (rescale .awayFromZero (-2) d).abs_value
        have hexp : (rescale .awayFromZero (-2) d).exponent = -2 := by
          unfold rescale
          split <;> rfl
        rw [d.value_rescale_cents, hexp] at habs
        have hnear := abs_nearestCent_sub_le d.value
        have htri := abs_sub_abs_le_abs_sub (nearestCent d.value) d.value
        have h2 : (10 : ℚ) ^ (-2 : ℤ) = 1 / 100 := by norm_num
        have hq : ((rescale .awayFromZero (-2) d).coefficient : ℚ) < 10 ^ 50 := by
          rw [h2] at habs
          have : (10 : ℚ) ^ 50 = 10 ^ 48 * 100 := by norm_num
          linarith
        exact_mod_cast hq
    simp only [if_neg hshort]
    exact .ok trivial
  obtain ⟨r, hr, -⟩ := found
  exact ⟨r, hr, value_of_toCents hr, exponent_of_toCents hr⟩

end Decimal

end DealerPay
