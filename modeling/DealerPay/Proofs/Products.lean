import DealerPay.Pay.Projection
import DealerPay.Proofs.Amount
import DealerPay.Proofs.NearestCent

/-!
# Products in cents

How far the cents of a product, or of a percentage, are from the exact product. It is rounded twice:
half to even to the digits that arithmetic keeps, and half away from zero to cents. A percentage is
rounded half to even once more in between.

* `Decimal.IsNear.abs_nearestCent_sub_le`: the cents of a number near to another one are off by half
  a cent and by the part of it that was rounded away. Where both are next to nothing there are no
  cents of either.
* `HasDigits` counts the digits of a value. `Decimal.IsRounded.nearestCent_eq`: rounding does not
  change the cents of a number that has no more of them than are kept, also where there is no place
  for them; hence the hundredth of a product is not rounded in a way that shows.
* `Amount.cents_of_product` puts these together for two amounts of any number of digits and with any
  exponents.
-/

namespace DealerPay

variable {x y : ℚ}

/-! ## The cents of what was rounded -/

/-- What is less than half a cent is no cent. -/
theorem nearestCent_of_abs_lt (h : |x| < 1 / 200) : nearestCent x = 0 :=
  nearestCent_of_near ⟨0, by norm_num⟩ (by rwa [sub_zero])

namespace Decimal

/-- The cents of a number that is near to another one are off from that by half a cent, and by the
part of it that was rounded away. -/
theorem IsNear.abs_nearestCent_sub_le (h : IsNear x y) :
    |nearestCent y - x| ≤ 1 / 200 + 5 / 10 ^ 28 * |x| := by
  rcases h with hnear | ⟨hx, hy⟩
  · have hcent := DealerPay.abs_nearestCent_sub_le y
    have htri := abs_sub_le (nearestCent y) y x
    linarith
  · have hnone : nearestCent y = 0 := nearestCent_of_abs_lt (hy.trans_lt (by norm_num))
    have hpos : 0 ≤ 5 / 10 ^ 28 * |x| := by positivity
    rw [hnone, zero_sub, abs_neg]
    linarith

/-- The hundredths of numbers that are near are near. -/
theorem IsNear.hundredth (h : IsNear x y) : IsNear (x / 100) (y / 100) := by
  have hsize : ∀ z : ℚ, |z / 100| = |z| / 100 := by
    intro z
    rw [abs_div, abs_of_pos (by norm_num : (0 : ℚ) < 100)]
  unfold IsNear
  rw [← sub_div, hsize, hsize, hsize]
  rcases h with hnear | ⟨hx, hy⟩
  · left
    linarith
  · right
    constructor <;> linarith

end Decimal

/-! ## Digits -/

/-- Whether a number has at most so many digits that count, wherever they stand. -/
def HasDigits (k : ℕ) (x : ℚ) : Prop := ∃ n e : ℤ, x = n * (10 : ℚ) ^ e ∧ |n| < 10 ^ k

namespace HasDigits

variable {j k : ℕ}

/-- A product has no more digits than its factors together. -/
theorem mul (hx : HasDigits j x) (hy : HasDigits k y) : HasDigits (j + k) (x * y) := by
  obtain ⟨m, e, rfl, hm⟩ := hx
  obtain ⟨n, f, rfl, hn⟩ := hy
  refine ⟨m * n, e + f, ?_, ?_⟩
  · rw [tenPow_add, Int.cast_mul]
    ring
  · rw [abs_mul, pow_add]
    exact mul_lt_mul'' hm hn (abs_nonneg m) (abs_nonneg n)

/-- A number has its digits also where there may be more. -/
theorem mono (hx : HasDigits j x) (hjk : j ≤ k) : HasDigits k x := by
  obtain ⟨n, e, hvalue, hn⟩ := hx
  exact ⟨n, e, hvalue, hn.trans_le (pow_le_pow_right₀ (by norm_num) hjk)⟩

/-- A hundredth has the digits of the number, two places below. -/
theorem hundredth (hx : HasDigits k x) : HasDigits k (x / 100) := by
  obtain ⟨n, e, rfl, hn⟩ := hx
  refine ⟨n, e - 2, ?_, hn⟩
  rw [sub_eq_add_neg, tenPow_add]
  norm_num
  ring

end HasDigits

namespace Decimal

variable {a b d p q r : Decimal}

/-- What fitting results in has no more digits than are kept. -/
theorem hasDigits_of_fit (h : d.fit working = .ok r) : HasDigits 28 r.value := by
  obtain ⟨n, e, hvalue, hn, -⟩ := represents_of_fit h
  exact ⟨n, e, hvalue, hn⟩

/-- Rounding a number that has no more digits than are kept does not change its cents. -/
theorem IsRounded.nearestCent_eq (h : IsRounded x y) (hx : HasDigits 28 x) :
    nearestCent y = nearestCent x := by
  have hnear := h.isNear
  obtain ⟨place, n, hplace, hn, rfl⟩ := h
  rcases le_or_gt ((10 : ℚ) ^ (place + 27)) |x| with hhigh | hlow
  · -- the digits are all at places that are kept, so that nothing is rounded
    obtain ⟨m, e, rfl, hm⟩ := hx
    have hsize : |(m : ℚ) * (10 : ℚ) ^ e| < (10 : ℚ) ^ (28 + e) := by
      have hmq : |(m : ℚ)| < (10 : ℚ) ^ (28 : ℤ) := by exact_mod_cast hm
      rw [abs_mul, abs_of_pos (tenPow_pos e), tenPow_add]
      exact mul_lt_mul_of_pos_right hmq (tenPow_pos e)
    have he : place ≤ e := by
      have := lt_of_tenPow_lt (hhigh.trans_lt hsize)
      omega
    have hunits : (m : ℚ) * (10 : ℚ) ^ e =
        ((m * 10 ^ (e - place).toNat : ℤ) : ℚ) * (10 : ℚ) ^ place := by
      rw [tenPow_eq_of_le he]
      push_cast
      ring
    rw [hunits, mul_div_cancel_right₀ _ (tenPow_pos place).ne'] at hn
    rw [hn.eq_of_intCast, ← hunits]
  · -- there may be no place for the digits, but there are no cents either
    obtain ⟨hx, hunit⟩ := hplace.abs_le hlow
    have hy : |(n : ℚ) * (10 : ℚ) ^ place| < 1 / 200 := by
      rcases hnear with hnear | ⟨-, hy⟩
      · have htri := abs_sub_abs_le_abs_sub ((n : ℚ) * (10 : ℚ) ^ place) x
        linarith
      · exact hy.trans_lt (by norm_num)
    rw [nearestCent_of_abs_lt hy, nearestCent_of_abs_lt (hx.trans_lt (by norm_num))]

/-! ## Products and percentages -/

/-- A product is the exact one, rounded. -/
theorem isRounded_of_mul (h : a.mul b = .ok p) : IsRounded (a.value * b.value) p.value :=
  value_exactProduct a b ▸ isRounded_of_fit h

/-- A hundredth is the exact one, rounded. -/
theorem isRounded_of_hundredth (h : p.hundredth = .ok q) : IsRounded (p.value / 100) q.value :=
  value_exactHundredth p ▸ isRounded_of_fit h

/-- The cents of a percentage are those of the exact hundredth of the rounded product. -/
theorem nearestCent_percentOf (hp : a.mul b = .ok p) (hq : p.hundredth = .ok q) :
    nearestCent q.value = nearestCent (p.value / 100) :=
  (isRounded_of_hundredth hq).nearestCent_eq (hasDigits_of_fit hp).hundredth

end Decimal

/-! ## Amounts -/

namespace Amount

open Decimal

variable {v w : Value} {a b : Decimal}

/-- The cents of a number that is not too large. -/
theorem cents_of_abs_le {d : Decimal} (h : |d.value| ≤ 10 ^ 30) :
    ∃ r, cents (.ofDecimal d) = .ok (.finite r) ∧ r.value = nearestCent d.value := by
  obtain ⟨r, hr, hvalue, -⟩ := toCents_of_abs_lt (h.trans_lt (by norm_num))
  exact ⟨r, cents_ofDecimal_eq_ok_iff.2 hr, hvalue⟩

/-- The product of two amounts is rounded half to even to twenty-eight digits, and then to cents, as an
estimate is. The cents are off by half a cent and by the part of the product that was rounded away,
and they are the nearest ones if the digits of the two are no more than twenty-eight together. For a
percentage the hundredth is rounded in between, and the cents are off by no more than that. -/
theorem cents_of_product (hv : ofValue v = .ok a) (hw : ofValue w = .ok b) :
    ∃ p, a.mul b = .ok p ∧ IsRounded (a.value * b.value) p.value ∧
      (∃ r, cents (.ofDecimal p) = .ok (.finite r) ∧ simpleEstimate v w = .ok r ∧
        r.value = nearestCent p.value ∧
        |r.value - a.value * b.value| ≤ 1 / 200 + 5 / 10 ^ 28 * |a.value * b.value| ∧
        ∀ j k, HasDigits j a.value → HasDigits k b.value → j + k ≤ 28 →
          r.value = nearestCent (a.value * b.value)) ∧
      ∃ q r, percentOf b a = .ok q ∧ IsRounded (p.value / 100) q.value ∧
        cents (.ofDecimal q) = .ok (.finite r) ∧ r.value = nearestCent q.value ∧
        |r.value - a.value * b.value / 100| ≤
          1 / 200 + 5 / 10 ^ 28 * |a.value * b.value / 100| := by
  have ha := isAmount_of_ofValue hv
  have hb := isAmount_of_ofValue hw
  obtain ⟨q, hpercent, hqsize⟩ := ha.percentOf hb
  obtain ⟨p, hp, hq⟩ := bind_eq_ok.1 hpercent
  have hpsize := (ha.mul hb).of_eq hp
  have hrounded := isRounded_of_mul hp
  refine ⟨p, hp, hrounded, ?_, ?_⟩
  · obtain ⟨r, hr, hvalue⟩ := cents_of_abs_le hpsize
    refine ⟨r, hr, ?_, hvalue, ?_, ?_⟩
    · refine bind_eq_ok.2 ⟨a, hv, bind_eq_ok.2 ⟨b, hw, bind_eq_ok.2 ⟨p, liftM_eq_ok.2 hp, ?_⟩⟩⟩
      exact liftM_eq_ok.2 (cents_ofDecimal_eq_ok_iff.1 hr)
    · rw [hvalue]
      exact hrounded.isNear.abs_nearestCent_sub_le
    · intro j k hj hk hjk
      rw [hvalue, hrounded.nearestCent_eq ((hj.mul hk).mono hjk)]
  · obtain ⟨r, hr, hvalue⟩ := cents_of_abs_le hqsize
    refine ⟨q, r, hpercent, isRounded_of_hundredth hq, hr, hvalue, ?_⟩
    rw [hvalue, nearestCent_percentOf hp hq]
    exact hrounded.isNear.hundredth.abs_nearestCent_sub_le

/-- An amount that is almost too large. -/
def nearLimit : Decimal := ⟨false, 9999999999999995, -1⟩

/-- The loss of so many units at that amount, in cents. -/
def nearLimitLoss : Decimal := ⟨true, 99999999999999900000000000000000, -2⟩

/-- Next to the limit a quarter of a dollar is lost of a product, which is more than half a cent, and
far less than what twenty-eight digits may lose. -/
theorem cents_of_product_nearLimit :
    ofValue (.text "999999999999999.5") = .ok nearLimit ∧
      ofValue (.text "-999999999999999.5") = .ok nearLimit.neg ∧
      simpleEstimate (.text "999999999999999.5") (.text "-999999999999999.5") =
        .ok nearLimitLoss ∧
      |nearLimitLoss.value - nearLimit.value * nearLimit.neg.value| = 1 / 4 ∧
      1 / 4 ≤ 1 / 200 + 5 / 10 ^ 28 * |nearLimit.value * nearLimit.neg.value| := by
  have hread : ofValue (.text "999999999999999.5") = .ok nearLimit :=
    eq_ok_of_toOption (by decide +kernel)
  have hloss : ofValue (.text "-999999999999999.5") = .ok nearLimit.neg :=
    eq_ok_of_toOption (by decide +kernel)
  have hestimate : simpleEstimate (.text "999999999999999.5") (.text "-999999999999999.5") =
      .ok nearLimitLoss := eq_ok_of_toOption (by decide +kernel)
  have hlost : |nearLimitLoss.value - nearLimit.value * nearLimit.neg.value| = 1 / 4 := by
    rw [value_neg, value_of_negative rfl, value_of_not_negative rfl, nearLimitLoss, nearLimit]
    norm_num
  obtain ⟨p, -, -, ⟨r, -, hr, -, hbound, -⟩, -⟩ := cents_of_product hread hloss
  obtain rfl : nearLimitLoss = r := Except.ok.inj (hestimate.symm.trans hr)
  rw [hlost] at hbound
  exact ⟨hread, hloss, hestimate, hlost, hbound⟩

end Amount

end DealerPay
