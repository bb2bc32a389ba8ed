import DealerPay.Decimal.Numeral
import DealerPay.Proofs.Decimal.Rounding
import DealerPay.Proofs.Decimal.Cents

/-!
# Results that can be spelled

A numeral reaches exponents up to a bound that is far beyond the limits of arithmetic, so there is a
numeral for every result.

* `Decimal.exponent_rounded_of_zero`: what rounds to zero has the lowest exponent that there is, so
  that no zero gets out of reach either.
* `Decimal.spellable_of_fit`, `Decimal.spellable_of_add`, `Decimal.spellable_of_foldlM`,
  `Decimal.spellable_of_sum` and `Decimal.spellable_of_toCents` follow the operations.
-/

namespace DealerPay

/-- Zero has one digit. -/
@[simp] theorem digitCount_zero : digitCount 0 = 1 := by
  rw [digitCount, if_pos (by norm_num)]

namespace Decimal

variable {d r a b : Decimal}

/-- What the bounds of spelling are. -/
theorem spellable_iff :
    d.spellable = true ↔ -1999999999999999997 ≤ d.exponent ∧ d.adjusted ≤ 999999999999999999 := by
  unfold spellable spellableLowest spellableHighest
  rw [Bool.and_eq_true, decide_eq_true_iff, decide_eq_true_iff]

/-- Zero can be spelled. -/
theorem spellable_zero : zero.spellable = true := by decide +kernel

/-- One can be spelled. -/
theorem spellable_one : one.spellable = true := by decide +kernel

/-- The last digit that is kept of a rounded number is not below the last place. -/
theorem lastPlace_le_exponent_rounded (d : Decimal) : d.lastPlace working ≤ d.rounded.exponent := by
  unfold rounded
  split
  · next h =>
    have hres : (rescale .toEven (d.lastPlace working) d).exponent = d.lastPlace working := by
      unfold rescale
      rw [if_neg (not_le.2 h)]
    unfold shed
    split
    · show d.lastPlace working ≤ (rescale .toEven (d.lastPlace working) d).exponent + 1
      omega
    · omega
  · next h => exact not_lt.1 h

/-- A number that rounds to zero is below every place but the lowest. -/
theorem exponent_rounded_of_zero (hd : d.coefficient ≠ 0) (h : d.rounded.coefficient = 0) :
    d.rounded.exponent = -1000026 := by
  have hlt : d.exponent < d.lastPlace working := by
    by_contra hle
    rw [rounded_of_le (not_lt.1 hle)] at h
    exact hd h
  have hdrop : dropDigits .toEven d.coefficient (d.lastPlace working - d.exponent).toNat = 0 := by
    have hvalue := abs_value_rounded_of_lt hlt
    rw [value_eq_zero_iff.2 h, abs_zero] at hvalue
    exact_mod_cast (mul_eq_zero.1 hvalue.symm).resolve_right (tenPow_pos _).ne'
  have hsmall : (d.coefficient : ℚ) / 10 ^ (d.lastPlace working - d.exponent).toNat < 1 := by
    by_contra hle
    have := le_dropDigits_of_le (n := 1) .toEven (by simpa using not_lt.1 hle)
    omega
  have hbelow : (10 : ℚ) ^ d.adjusted < (10 : ℚ) ^ d.lastPlace working :=
    calc (10 : ℚ) ^ d.adjusted ≤ |d.value| := tenPow_adjusted_le_abs_value hd
      _ = d.coefficient / 10 ^ (d.lastPlace working - d.exponent).toNat *
          (10 : ℚ) ^ d.lastPlace working := abs_value_eq_of_lt hlt
      _ < 1 * (10 : ℚ) ^ d.lastPlace working := mul_lt_mul_of_pos_right hsmall (tenPow_pos _)
      _ = (10 : ℚ) ^ d.lastPlace working := one_mul _
  have hplace : d.adjusted < d.lastPlace working := by
    by_contra hle
    exact absurd (tenPow_le (not_lt.1 hle)) (not_le.2 hbelow)
  have hres : rescale .toEven (d.lastPlace working) d = ⟨d.negative, 0, d.lastPlace working⟩ := by
    unfold rescale
    rw [if_neg (not_le.2 hlt), hdrop]
  have hshort : ¬ working.precision < digitCount 0 := by
    rw [digitCount_zero]
    decide
  unfold rounded shed
  rw [if_pos hlt, hres, if_neg hshort]
  show d.lastPlace working = -1000026
  rw [lastPlace_working] at hplace ⊢
  omega

/-- A number that was fitted to the working limits can be spelled. -/
theorem spellable_of_fit (h : d.fit working = .ok r) : r.spellable = true := by
  rw [spellable_iff]
  by_cases hd : d.coefficient = 0
  · unfold fit at h
    rw [if_pos hd] at h
    cases h
    have hcount : digitCount d.coefficient = 1 := by rw [hd, digitCount_zero]
    have htiny : working.tiny = -1000026 := by decide
    have hhighest : working.highest = 999999 := rfl
    unfold adjusted
    dsimp only
    omega
  · rw [fit_of_coefficient_ne_zero hd] at h
    split at h
    · cases h
    · next hsmall =>
      cases h
      have hlow := d.lastPlace_le_exponent_rounded
      have hhighest : working.highest = 999999 := rfl
      rw [lastPlace_working] at hlow
      by_cases hr : d.rounded.coefficient = 0
      · have hexp := exponent_rounded_of_zero hd hr
        have hcount : digitCount d.rounded.coefficient = 1 := by rw [hr, digitCount_zero]
        unfold adjusted
        omega
      · have hhigh := not_lt.1 fun hlarge => hsmall ⟨hr, hlarge⟩
        omega

/-- A sum can be spelled. -/
theorem spellable_of_add (h : a.add b = .ok r) : r.spellable = true := spellable_of_fit h

/-- A running sum can be spelled if it starts from a number that can. -/
theorem spellable_of_foldlM {ds : List Decimal} {start : Decimal} (hstart : start.spellable = true)
    (h : ds.foldlM add start = .ok r) : r.spellable = true := by
  induction ds generalizing start with
  | nil =>
    cases h
    exact hstart
  | cons d rest ih =>
    rw [List.foldlM_cons, bind_eq_ok] at h
    obtain ⟨next, hnext, h⟩ := h
    exact ih (spellable_of_add hnext) h

/-- The sum of a list can be spelled. -/
theorem spellable_of_sum {ds : List Decimal} (h : sum ds = .ok r) : r.spellable = true :=
  spellable_of_foldlM spellable_zero h

/-- Cents can be spelled. -/
theorem spellable_of_toCents (h : d.toCents = .ok r) : r.spellable = true := by
  have hexp := exponent_of_toCents h
  have hcount := digitCount_of_toCents h
  unfold centPrecision at hcount
  rw [spellable_iff]
  unfold adjusted
  omega

end Decimal

end DealerPay
