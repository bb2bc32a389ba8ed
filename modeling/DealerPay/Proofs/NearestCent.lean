import DealerPay.Proofs.Decimal.Cents

/-!
# The nearest cent

What becomes of a number of any size and of any number of digits that is rounded to cents.

* `abs_lt_abs_nearestCent`: half a cent goes away from zero.
* `Decimal.toCents_of_toCents` and `Decimal.toCents_neg`: cents stay as they are, and the sign is
  kept apart.
* `Decimal.toCents_of_le_abs`: from half a cent below 10^48 on there is no result, since the cents
  would take a fifty-first digit.
* `Amount.cents_isNearest` puts these together for amounts. Nothing but the last rounding is between
  a number and its cents, so that they are as near as cents can be.
-/

namespace DealerPay

/-! ## Ties -/

/-- A number that is half way between two integers is rounded away from zero. -/
theorem abs_lt_abs_roundAway {x : ℚ} (h : |(roundAway x : ℚ) - x| = 1 / 2) :
    |x| < |(roundAway x : ℚ)| := by
  -- from zero on, rounding goes down by less than a half
  have upward : ∀ {y : ℚ}, 0 ≤ y → |(roundAway y : ℚ) - y| = 1 / 2 →
      |y| < |(roundAway y : ℚ)| := by
    intro y hy htie
    have hdown : y - 1 / 2 < roundAway y := by
      unfold roundAway
      rw [if_neg (not_lt.2 hy), round_eq]
      have := Int.lt_floor_add_one (y + 1 / 2)
      linarith
    have hup : (roundAway y : ℚ) - y = 1 / 2 := by
      rcases eq_or_eq_neg_of_abs_eq htie with heq | heq
      · exact heq
      · linarith
    rw [abs_of_nonneg hy, abs_of_nonneg (by linarith)]
    linarith
  rcases le_total 0 x with hx | hx
  · exact upward hx h
  · have htie : |(roundAway (-x) : ℚ) - -x| = 1 / 2 := by
      rw [roundAway_neg, Int.cast_neg, ← neg_sub', abs_neg]
      exact h
    have hlt := upward (neg_nonneg.2 hx) htie
    rwa [roundAway_neg, Int.cast_neg, abs_neg, abs_neg] at hlt

/-- An amount that is half a cent between two others is rounded away from zero. -/
theorem abs_lt_abs_nearestCent {x : ℚ} (h : |nearestCent x - x| = 1 / 200) :
    |x| < |nearestCent x| := by
  have hscaled : (roundAway (x * 100) : ℚ) - x * 100 = (nearestCent x - x) * 100 := by
    unfold nearestCent
    ring
  have htie : |(roundAway (x * 100) : ℚ) - x * 100| = 1 / 2 := by
    rw [hscaled, abs_mul, h]
    norm_num
  have hlt := abs_lt_abs_roundAway htie
  rw [abs_mul, abs_of_pos (by norm_num : (0 : ℚ) < 100)] at hlt
  rw [nearestCent, abs_div, abs_of_pos (by norm_num : (0 : ℚ) < 100),
    lt_div_iff₀ (by norm_num : (0 : ℚ) < 100)]
  exact hlt

/-- An amount is rounded to a size of 10^48 from half a cent below it on. -/
theorem le_abs_nearestCent {x : ℚ} (h : 10 ^ 48 - 1 / 200 ≤ |x|) : 10 ^ 48 ≤ |nearestCent x| := by
  have hedge : nearestCent (10 ^ 48 - 1 / 200) = 10 ^ 48 := by
    have hscaled : ((10 : ℚ) ^ 48 - 1 / 200) * 100 + 1 / 2 = ((10 ^ 50 : ℤ) : ℚ) := by norm_num
    have hround : roundAway (((10 : ℚ) ^ 48 - 1 / 200) * 100) = 10 ^ 50 := by
      unfold roundAway
      rw [if_neg (by norm_num), round_eq, hscaled, Int.floor_intCast]
    rw [nearestCent, hround]
    norm_num
  have hmono := nearestCent_mono h
  rw [hedge] at hmono
  refine hmono.trans ?_
  rcases abs_choice x with hx | hx
  · rw [hx]
    exact le_abs_self _
  · rw [hx, nearestCent_neg]
    exact neg_le_abs _

namespace Decimal

variable {d r : Decimal} {s : Signal}

/-! ## Cents -/

/-- Cents are their own cents. -/
theorem toCents_of_toCents (h : d.toCents = .ok r) : r.toCents = .ok r := by
  have hexp := exponent_of_toCents h
  have hcount := digitCount_of_toCents h
  have hsame : rescale .awayFromZero (-2) r = r := by
    unfold rescale
    rw [if_pos hexp.ge, scaled_eq, hexp, sub_self, Int.toNat_zero, tenTo_zero, mul_one, ← hexp]
  unfold toCents quantize
  split
  · rw [← hexp]
  · rw [if_neg (by omega)]
    simp only [hsame]
    rw [if_neg (not_lt.2 hcount)]

/-- The cents of a number with the other sign are its cents with the other sign. -/
theorem toCents_neg (d : Decimal) : d.neg.toCents = d.toCents.map neg := by
  unfold toCents quantize rescale neg
  dsimp only
  split_ifs <;> rfl

/-- Where there are no cents of a number, that is because they would have too many digits. -/
theorem eq_of_toCents_eq_error (h : d.toCents = .error s) : s = .invalidOperation := by
  unfold toCents quantize at h
  dsimp only at h
  split_ifs at h
  · exact (Except.error.inj h).symm
  · exact (Except.error.inj h).symm

/-- A number from half a cent below 10^48 on has no cents that fifty digits hold. -/
theorem toCents_of_le_abs (h : 10 ^ 48 - 1 / 200 ≤ |d.value|) :
    d.toCents = .error .invalidOperation := by
  cases hd : d.toCents with
  | error s => rw [eq_of_toCents_eq_error hd]
  | ok r =>
    exfalso
    have hlow := le_abs_nearestCent h
    rw [← value_of_toCents hd] at hlow
    have hexp := exponent_of_toCents hd
    have hcount := digitCount_of_toCents hd
    have hhigh : |r.value| < (10 : ℚ) ^ (48 : ℤ) := by
      refine r.abs_value_lt.trans_le (tenPow_le ?_)
      unfold adjusted centPrecision at *
      omega
    have heq : (10 : ℚ) ^ (48 : ℤ) = 10 ^ 48 := by norm_num
    linarith

end Decimal

namespace Amount

open Decimal

/-- The cents of a number are computed of its digits, without any other rounding. -/
theorem cents_ofDecimal_eq (d : Decimal) :
    cents (.ofDecimal d) = (d.toCents.map .finite).mapError .signal := by
  show (d.toCents >>= fun r => pure (Numeral.finite r)).mapError Failure.signal = _
  cases d.toCents <;> rfl

/-- A number has cents exactly if its digits can be rounded to them. -/
theorem cents_ofDecimal_eq_ok_iff {d r : Decimal} :
    cents (.ofDecimal d) = .ok (.finite r) ↔ d.toCents = .ok r := by
  rw [cents_ofDecimal_eq]
  cases d.toCents with
  | error s => simp [Except.map, Except.mapError]
  | ok c => simp [Except.map, Except.mapError]

/-- The cents of a number are the nearest ones, with half a cent going away from zero. They are their
own cents, those of the number with the other sign are the same with the other sign, and those of a
larger number are not smaller. There are cents of every number below 10^48 less half a cent, however
many digits it has, and of no other one. -/
theorem cents_isNearest (d : Decimal) :
    (|d.value| < 10 ^ 48 - 1 / 200 → ∃ r, cents (.ofDecimal d) = .ok (.finite r) ∧
      r.exponent = -2 ∧ |r.value - d.value| ≤ 1 / 200 ∧
      (|r.value - d.value| = 1 / 200 → |d.value| < |r.value|) ∧
      cents (.ofDecimal r) = .ok (.finite r) ∧ cents (.ofDecimal d.neg) = .ok (.finite r.neg) ∧
      ∀ d' r', d.value ≤ d'.value → cents (.ofDecimal d') = .ok (.finite r') →
        r.value ≤ r'.value) ∧
    (10 ^ 48 - 1 / 200 ≤ |d.value| →
      cents (.ofDecimal d) = .error (.signal .invalidOperation)) := by
  constructor
  · intro h
    obtain ⟨r, hr, hvalue, hexp⟩ := toCents_of_abs_lt h
    refine ⟨r, cents_ofDecimal_eq_ok_iff.2 hr, hexp, ?_, ?_,
      cents_ofDecimal_eq_ok_iff.2 (toCents_of_toCents hr), cents_ofDecimal_eq_ok_iff.2 ?_, ?_⟩
    · rw [hvalue]
      exact abs_nearestCent_sub_le _
    · rw [hvalue]
      exact abs_lt_abs_nearestCent
    · rw [toCents_neg, hr]
      rfl
    · intro d' r' hle hr'
      rw [hvalue, value_of_toCents (cents_ofDecimal_eq_ok_iff.1 hr')]
      exact nearestCent_mono hle
  · intro h
    rw [cents_ofDecimal_eq, toCents_of_le_abs h]
    rfl

/-- A loss of thirty-nine digits, half way between two cents. -/
def halfCentLoss : Decimal := ⟨true, 123456789012345678901234567890123456125, -3⟩

/-- The larger loss of the two. -/
def centLoss : Decimal := ⟨true, 12345678901234567890123456789012345613, -2⟩

/-- The least number that has no cents. -/
def leastWithoutCents : Decimal := ⟨false, 10 ^ 51 - 5, -3⟩

/-- Half a cent of a loss is rounded to the larger loss, which is not rounded again. There are no
cents from half a cent below 10^48 on. -/
theorem cents_isNearest_halfCentLoss :
    |halfCentLoss.value| < 10 ^ 48 - 1 / 200 ∧
      cents (.ofDecimal halfCentLoss) = .ok (.finite centLoss) ∧
      |halfCentLoss.value| < |centLoss.value| ∧
      cents (.ofDecimal centLoss) = .ok (.finite centLoss) ∧
      10 ^ 48 - 1 / 200 ≤ |leastWithoutCents.value| ∧
      cents (.ofDecimal leastWithoutCents) = .error (.signal .invalidOperation) := by
  have hsmall : |halfCentLoss.value| < 10 ^ 48 - 1 / 200 := by
    rw [abs_value, halfCentLoss]
    norm_num
  have hlarge : 10 ^ 48 - 1 / 200 ≤ |leastWithoutCents.value| := by
    rw [abs_value, leastWithoutCents]
    norm_num
  have hcents : cents (.ofDecimal halfCentLoss) = .ok (.finite centLoss) :=
    cents_ofDecimal_eq_ok_iff.2 (eq_ok_of_toOption (by decide +kernel))
  have htie : |centLoss.value - halfCentLoss.value| = 1 / 200 := by
    rw [value_of_negative rfl, value_of_negative rfl, centLoss, halfCentLoss]
    norm_num
  obtain ⟨r, hr, -, -, haway, hagain, -⟩ := (cents_isNearest halfCentLoss).1 hsmall
  obtain rfl : centLoss = r :=
    Numeral.finite.inj (Except.ok.inj (hcents.symm.trans hr))
  exact ⟨hsmall, hcents, haway htie, hagain, hlarge,
    (cents_isNearest leastWithoutCents).2 hlarge⟩

end Amount

end DealerPay
