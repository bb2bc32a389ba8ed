import DealerPay.Proofs.Decimal.NearestEven

/-!
# Rounding to working precision

What fitting to the working limits does to a number that has too many digits. `Exactness` says which
numbers are kept; here is what becomes of all the others.

* `Decimal.rounded` is the number that fitting keeps, before it is checked that it is not too large;
  `Decimal.fit_of_coefficient_ne_zero` says so.
* `Decimal.abs_value_rounded_le`: no bound that can be written is exceeded by rounding, and
  `Decimal.fit_of_abs_le` says so of fitting. Signs are kept (`Decimal.nonneg_of_fit`).
* `Decimal.IsRounded` is half-even rounding to twenty-eight digits, told of values alone.
  `Decimal.isRounded_of_fit` is the agreement, and `Decimal.IsRounded.isNear` the relative error.
* `Decimal.tenPow_le_abs_value_rounded_iff`: from where on a number is carried up to a power of ten.
  Hence `Decimal.fit_eq_error_iff`, from where on it is too large.
-/

namespace DealerPay

namespace Decimal

variable {d r : Decimal}

/-! ## The number that is kept -/

/-- The number that fitting to the working limits keeps of one with digits, if it is not too
large. -/
def rounded (d : Decimal) : Decimal :=
  if d.exponent < d.lastPlace working then (rescale .toEven (d.lastPlace working) d).shed working
  else d

/-- Fitting keeps the rounded number, unless that is too large. -/
theorem fit_of_coefficient_ne_zero (h : d.coefficient ≠ 0) :
    d.fit working =
      if d.rounded.coefficient ≠ 0 ∧ working.highest < d.rounded.adjusted then .error .overflow
      else .ok d.rounded := by
  unfold fit
  rw [if_neg h]
  rfl

/-- A number whose digits are all kept is not rounded. -/
theorem rounded_of_le (h : d.lastPlace working ≤ d.exponent) : d.rounded = d := by
  unfold rounded
  rw [if_neg (not_lt.2 h)]

/-- The place of the last digit that is kept lies twenty-seven below the first one, or at the lowest
place that there is. -/
theorem lastPlace_working (d : Decimal) :
    d.lastPlace working = max (-1000026) (d.adjusted - 27) := by
  have htiny : working.tiny = -1000026 := by decide
  have hprecision : (working.precision : ℤ) = 28 := by decide
  unfold lastPlace adjusted
  rw [htiny, hprecision]
  congr 1
  omega

/-- The size of a number in units of the last place that is kept. -/
theorem abs_value_eq_of_lt (h : d.exponent < d.lastPlace working) :
    |d.value| = d.coefficient / 10 ^ (d.lastPlace working - d.exponent).toNat *
      (10 : ℚ) ^ d.lastPlace working := by
  have hpos : (0 : ℚ) < 10 ^ (d.lastPlace working - d.exponent).toNat := by positivity
  rw [abs_value, tenPow_eq_of_le h.le, ← mul_assoc, div_mul_cancel₀ _ hpos.ne']

/-- The size of a rounded number: digits are dropped, and a carry to one digit too many is only
written in another way. -/
theorem abs_value_rounded_of_lt (h : d.exponent < d.lastPlace working) :
    |d.rounded.value| =
      dropDigits .toEven d.coefficient (d.lastPlace working - d.exponent).toNat *
        (10 : ℚ) ^ d.lastPlace working := by
  have hfront := coefficient_div_lt h
  have hdrop := dropDigits_le .toEven d.coefficient (d.lastPlace working - d.exponent).toNat
  have hres : rescale .toEven (d.lastPlace working) d = ⟨d.negative,
      dropDigits .toEven d.coefficient (d.lastPlace working - d.exponent).toNat,
      d.lastPlace working⟩ := if_neg (not_le.2 h)
  unfold rounded
  rw [if_pos h, hres]
  generalize dropDigits .toEven d.coefficient (d.lastPlace working - d.exponent).toNat = c at hdrop
  generalize d.lastPlace working = place
  unfold shed
  by_cases hlong : working.precision < digitCount c
  · have hc : c = 10 ^ 28 := by
      have hbig : ¬ c < 10 ^ 28 := by
        rcases Nat.eq_zero_or_pos c with rfl | hc
        · simp [digitCount, working] at hlong
        · exact fun hlt => absurd ((digitCount_le_iff hc).2 hlt) (not_le.2 hlong)
      have hfront' : d.coefficient / 10 ^ (d.lastPlace working - d.exponent).toNat < 10 ^ 28 :=
        hfront
      omega
    rw [if_pos hlong, abs_value, hc]
    show ((10 ^ 28 / 10 : ℕ) : ℚ) * (10 : ℚ) ^ (place + 1) = _
    rw [tenPow_add]
    norm_num
    ring
  · rw [if_neg hlong, abs_value]

/-- Rounding keeps the sign. -/
theorem negative_rounded (d : Decimal) : d.rounded.negative = d.negative := by
  unfold rounded shed rescale
  split_ifs <;> rfl

/-! ## Bounds -/

/-- A bound that can be written is at least a unit of the last place that is kept of a number that
it bounds, and a whole number of them. -/
theorem exists_units_of_represents {B : ℚ} (hB : working.Represents B) (hd : d.coefficient ≠ 0)
    (h : |d.value| ≤ B) : ∃ n : ℕ, B = n * (10 : ℚ) ^ d.lastPlace working := by
  obtain ⟨n, e, hv, hn, he, -⟩ := hB
  have hpos : 0 < B := (abs_pos.2 (mt value_eq_zero_iff.1 hd)).trans_le h
  have hn0 : 0 < n := by
    have : (0 : ℚ) < n := pos_of_mul_pos_left (hv ▸ hpos) (tenPow_pos e).le
    exact_mod_cast this
  -- the bound has its digits within twenty-eight places of the first one, which is not lower
  have hplace : d.lastPlace working ≤ e := by
    have hlow := (tenPow_adjusted_le_abs_value hd).trans h
    have hnq : (n : ℚ) < (10 : ℚ) ^ (28 : ℤ) := by
      have : (n : ℚ) < 10 ^ 28 := by exact_mod_cast lt_of_abs_lt hn
      exact_mod_cast this
    have hlt : (10 : ℚ) ^ d.adjusted < (10 : ℚ) ^ (28 + e) := by
      rw [tenPow_add]
      exact hlow.trans_lt (hv ▸ mul_lt_mul_of_pos_right hnq (tenPow_pos e))
    have := lt_of_tenPow_lt hlt
    have htiny : working.tiny = -1000026 := by decide
    rw [lastPlace_working]
    omega
  refine ⟨n.toNat * 10 ^ (e - d.lastPlace working).toNat, ?_⟩
  have hcast : ((n.toNat : ℕ) : ℚ) = n := by exact_mod_cast Int.toNat_of_nonneg hn0.le
  rw [hv, tenPow_eq_of_le hplace]
  push_cast
  rw [hcast]
  ring

/-- Rounding does not exceed a bound that can be written. -/
theorem abs_value_rounded_le {B : ℚ} (hB : working.Represents B) (hd : d.coefficient ≠ 0)
    (h : |d.value| ≤ B) : |d.rounded.value| ≤ B := by
  rcases le_or_gt (d.lastPlace working) d.exponent with hle | hlt
  · rwa [rounded_of_le hle]
  · obtain ⟨n, rfl⟩ := exists_units_of_represents hB hd h
    rw [abs_value_eq_of_lt hlt] at h
    rw [abs_value_rounded_of_lt hlt]
    have hunits := dropDigits_le_of_le .toEven (le_of_mul_le_mul_right h (tenPow_pos _))
    exact mul_le_mul_of_nonneg_right (by exact_mod_cast hunits) (tenPow_pos _).le

/-- A number within a bound that can be written is fitted within that bound. -/
theorem fit_of_abs_le {B : ℚ} (hB : working.Represents B) (h : |d.value| ≤ B) :
    Yields (d.fit working) fun r => |r.value| ≤ B := by
  by_cases hd : d.coefficient = 0
  · have hzero : working.Represents d.value := by
      rw [value_eq_zero_iff.2 hd]
      exact working.represents_zero
    exact (fit_of_represents hzero).mono fun r hr => hr ▸ h
  · have hle := abs_value_rounded_le hB hd h
    rw [fit_of_coefficient_ne_zero hd, if_neg]
    · exact .ok hle
    · rintro ⟨h0, hlt⟩
      obtain ⟨n, e, -, -, -, hBlt⟩ := hB
      have := adjusted_lt h0 (hle.trans_lt ((le_abs_self B).trans_lt hBlt))
      omega

/-- Whatever fitting results in has the sign of the number, or is nothing. -/
theorem nonneg_of_fit (h : d.fit working = .ok r) (hd : 0 ≤ d.value) : 0 ≤ r.value := by
  by_cases hc : d.coefficient = 0
  · unfold fit at h
    rw [if_pos hc] at h
    cases h
    rw [value_eq_zero_iff.2 (by exact hc)]
  · have hpos : 0 < d.value := lt_of_le_of_ne hd (Ne.symm (mt value_eq_zero_iff.1 hc))
    have hneg := negative_of_pos hpos
    rw [fit_of_coefficient_ne_zero hc] at h
    split at h
    · cases h
    · cases h
      rw [value_of_not_negative (d.negative_rounded.trans hneg)]
      have := tenPow_pos d.rounded.exponent
      positivity

/-! ## Half to even -/

/-- Whether a place is that of the last digit that is kept of a number: of the twenty-eighth one, or
the lowest place that there is. -/
structure IsLastPlace (x : ℚ) (place : ℤ) : Prop where
  /-- It is not below the lowest place. -/
  tiny_le : working.tiny ≤ place
  /-- There are no more than twenty-eight digits from it on. -/
  abs_lt : |x| < (10 : ℚ) ^ (place + 28)
  /-- There are no fewer of them, unless there is no lower place. -/
  le_abs : place = working.tiny ∨ (10 : ℚ) ^ (place + 27) ≤ |x|

/-- Whether a number is another one rounded to working precision: the nearest one of twenty-eight
digits, and of two that are as near the one whose last digit is even. -/
def IsRounded (x y : ℚ) : Prop :=
  ∃ place n : ℤ, IsLastPlace x place ∧ IsHalfEven (x / (10 : ℚ) ^ place) n ∧
    y = n * (10 : ℚ) ^ place

variable {x y : ℚ} {place : ℤ}

/-- Zero is not rounded. -/
theorem isRounded_zero : IsRounded 0 0 := by
  refine ⟨working.tiny, 0, ⟨le_rfl, ?_, .inl rfl⟩, ?_, ?_⟩
  · rw [abs_zero]
    exact tenPow_pos _
  · rw [zero_div]
    exact isHalfEven_intCast 0
  · rw [Int.cast_zero, zero_mul]

/-- The last place that is kept of a number is told by its value. -/
theorem isLastPlace_lastPlace (hd : d.coefficient ≠ 0) :
    IsLastPlace d.value (d.lastPlace working) := by
  have hplace := d.lastPlace_working
  have htiny : working.tiny = -1000026 := by decide
  refine ⟨by omega, d.abs_value_lt.trans_le (tenPow_le (by omega)), ?_⟩
  rcases le_or_gt (d.adjusted - 27) (-1000026) with hlow | hhigh
  · left
    omega
  · right
    exact (tenPow_le (by omega)).trans (tenPow_adjusted_le_abs_value hd)

/-- Numbers of one sign and one size have one value. -/
theorem value_eq_of_abs {a b : Decimal} (hsign : a.negative = b.negative)
    (h : |a.value| = |b.value|) : a.value = b.value := by
  rw [abs_value, abs_value] at h
  cases hb : b.negative with
  | false => rw [value_of_not_negative (hsign.trans hb), value_of_not_negative hb, h]
  | true => rw [value_of_negative (hsign.trans hb), value_of_negative hb, h]

/-- The number that is kept is the rounded one. -/
theorem isRounded_rounded (hd : d.coefficient ≠ 0) : IsRounded d.value d.rounded.value := by
  have hunit := tenPow_pos (d.lastPlace working)
  rcases le_or_gt (d.lastPlace working) d.exponent with hle | hlt
  · -- every digit is kept
    have hexact := signedAt_mul_tenPow hle
    refine ⟨_, d.signedAt (d.lastPlace working), isLastPlace_lastPlace hd, ?_, ?_⟩
    · rw [← hexact, mul_div_cancel_right₀ _ hunit.ne']
      exact isHalfEven_intCast _
    · rw [rounded_of_le hle, hexact]
  · -- the carry that is shed does not change the value
    let kept : Decimal := ⟨d.negative,
      dropDigits .toEven d.coefficient (d.lastPlace working - d.exponent).toNat,
      d.lastPlace working⟩
    have hkept : d.rounded.value = kept.value := by
      refine value_eq_of_abs d.negative_rounded ?_
      rw [abs_value_rounded_of_lt hlt, abs_value]
    refine ⟨_, kept.digits, isLastPlace_lastPlace hd, isHalfEven_digits rfl ?_, hkept⟩
    rw [abs_value_eq_of_lt hlt, mul_div_cancel_right₀ _ hunit.ne']
    exact dropDigits_toEven _ _

/-- Fitting rounds a number. -/
theorem isRounded_of_fit (h : d.fit working = .ok r) : IsRounded d.value r.value := by
  by_cases hd : d.coefficient = 0
  · unfold fit at h
    rw [if_pos hd] at h
    cases h
    rw [value_eq_zero_iff.2 hd, value_eq_zero_iff.2 (by exact hd)]
    exact isRounded_zero
  · rw [fit_of_coefficient_ne_zero hd] at h
    split at h
    · cases h
    · cases h
      exact isRounded_rounded hd

/-- A number of which fewer than twenty-eight digits are kept is next to nothing, and so is a unit of
the last one. -/
theorem IsLastPlace.abs_le (h : IsLastPlace x place) (hx : |x| < (10 : ℚ) ^ (place + 27)) :
    |x| ≤ 1 / 10 ^ 101 ∧ (10 : ℚ) ^ place ≤ 1 / 10 ^ 101 := by
  have hplace := h.le_abs.resolve_right (not_le.2 hx)
  have htiny : working.tiny = -1000026 := by decide
  have hten : (1 : ℚ) / 10 ^ 101 = (10 : ℚ) ^ (-101 : ℤ) := by norm_num
  rw [hten]
  exact ⟨hx.le.trans (tenPow_le (by omega)), tenPow_le (by omega)⟩

/-- Whether a number is as near to another one as twenty-eight digits are: off by half a unit of the
last of them, or both are next to nothing. -/
def IsNear (x y : ℚ) : Prop :=
  |y - x| ≤ 5 / 10 ^ 28 * |x| ∨ (|x| ≤ 1 / 10 ^ 100 ∧ |y| ≤ 1 / 10 ^ 100)

/-- What a number is rounded to is near to it. -/
theorem IsRounded.isNear (h : IsRounded x y) : IsNear x y := by
  obtain ⟨place, n, hplace, hn, rfl⟩ := h
  have hunit := tenPow_pos place
  have herr : |n * (10 : ℚ) ^ place - x| ≤ 1 / 2 * (10 : ℚ) ^ place := by
    calc |n * (10 : ℚ) ^ place - x| = |(n - x / (10 : ℚ) ^ place) * (10 : ℚ) ^ place| := by
          rw [sub_mul, div_mul_cancel₀ x hunit.ne']
      _ = |n - x / (10 : ℚ) ^ place| * (10 : ℚ) ^ place := by rw [abs_mul, abs_of_pos hunit]
      _ ≤ 1 / 2 * (10 : ℚ) ^ place := mul_le_mul_of_nonneg_right hn.near hunit.le
  rcases le_or_gt ((10 : ℚ) ^ (place + 27)) |x| with hhigh | hlow
  · left
    have hten : (10 : ℚ) ^ (place + 27) = 10 ^ 27 * (10 : ℚ) ^ place := by
      rw [add_comm, tenPow_add]
      norm_num
    linarith
  · right
    obtain ⟨hx, hsmall⟩ := hplace.abs_le hlow
    have htri := abs_sub_abs_le_abs_sub (n * (10 : ℚ) ^ place) x
    constructor <;> linarith

/-! ## Powers of ten -/

/-- A number below a power of ten is not rounded beyond it. -/
theorem abs_value_rounded_le_tenPow {p : ℤ} (hp : d.lastPlace working ≤ p)
    (h : |d.value| < (10 : ℚ) ^ p) : |d.rounded.value| ≤ (10 : ℚ) ^ p := by
  rcases le_or_gt (d.lastPlace working) d.exponent with hle | hlt
  · rw [rounded_of_le hle]
    exact h.le
  · rw [abs_value_eq_of_lt hlt, tenPow_eq_of_le hp] at h
    rw [abs_value_rounded_of_lt hlt, tenPow_eq_of_le hp]
    have hunits := dropDigits_le_of_le (n := 10 ^ (p - d.lastPlace working).toNat) .toEven
      (by push_cast; exact (lt_of_mul_lt_mul_right h (tenPow_pos _).le).le)
    exact mul_le_mul_of_nonneg_right (by exact_mod_cast hunits) (tenPow_pos _).le

/-- A number that reaches a power of ten still does when it is rounded. -/
theorem tenPow_le_abs_value_rounded {p : ℤ} (hp : d.lastPlace working ≤ p)
    (h : (10 : ℚ) ^ p ≤ |d.value|) : (10 : ℚ) ^ p ≤ |d.rounded.value| := by
  rcases le_or_gt (d.lastPlace working) d.exponent with hle | hlt
  · rwa [rounded_of_le hle]
  · rw [abs_value_eq_of_lt hlt, tenPow_eq_of_le hp] at h
    rw [abs_value_rounded_of_lt hlt, tenPow_eq_of_le hp]
    have hunits := le_dropDigits_of_le (n := 10 ^ (p - d.lastPlace working).toNat) .toEven
      (by push_cast; exact le_of_mul_le_mul_right h (tenPow_pos _))
    exact mul_le_mul_of_nonneg_right (by exact_mod_cast hunits) (tenPow_pos _).le

/-- A whole number is reached by whole numbers from half of one below it. -/
theorem natCast_le_iff_sub_half_le {m n : ℕ} : (m : ℚ) ≤ n ↔ (m : ℚ) - 1 / 2 ≤ n := by
  refine ⟨fun h => by linarith, fun h => ?_⟩
  have hlt : (m : ℚ) < n + 1 := by linarith
  have : m < n + 1 := by exact_mod_cast hlt
  exact_mod_cast Nat.lt_succ_iff.1 this

/-- A power of ten in units of the twenty-eighth digit below it. -/
theorem tenPow_eq_units (p : ℤ) :
    (10 : ℚ) ^ p = ((10 ^ 28 : ℕ) : ℚ) * (10 : ℚ) ^ (p - 28) := by
  have hunits : ((10 ^ 28 : ℕ) : ℚ) = (10 : ℚ) ^ (28 : ℤ) := by norm_num
  rw [hunits, ← tenPow_add]
  congr 1
  omega

/-- Half of such a unit below a power of ten. -/
theorem tenPow_sub_eq_units (p : ℤ) :
    (10 : ℚ) ^ p - 5 * (10 : ℚ) ^ (p - 29) =
      (((10 ^ 28 : ℕ) : ℚ) - 1 / 2) * (10 : ℚ) ^ (p - 28) := by
  have hten : (10 : ℚ) ^ (p - 28) = 10 * (10 : ℚ) ^ (p - 29) := by
    rw [← zpow_one_add₀ (by norm_num)]
    congr 1
    omega
  rw [tenPow_eq_units, hten]
  ring

/-- Where the first digit is next to a power of ten, the twenty-ninth digit decides. -/
theorem tenPow_le_abs_value_rounded_iff_of_lastPlace {p : ℤ}
    (hlast : d.lastPlace working = p - 28) :
    (10 : ℚ) ^ p ≤ |d.rounded.value| ↔ (10 : ℚ) ^ p - 5 * (10 : ℚ) ^ (p - 29) ≤ |d.value| := by
  have hunit := tenPow_pos (p - 28)
  rw [tenPow_sub_eq_units, tenPow_eq_units]
  rcases le_or_gt (d.lastPlace working) d.exponent with hle | hlt
  · -- no digit is dropped, and the number is a whole number of units
    have hkept : p - 28 ≤ d.exponent := hlast ▸ hle
    rw [rounded_of_le hle, abs_value, ← scaled_mul_tenPow _ hkept, mul_le_mul_iff_left₀ hunit,
      mul_le_mul_iff_left₀ hunit]
    exact natCast_le_iff_sub_half_le
  · have heven : Even (10 ^ 28 : ℕ) := by decide
    rw [abs_value_rounded_of_lt hlt, abs_value_eq_of_lt hlt, hlast, mul_le_mul_iff_left₀ hunit,
      mul_le_mul_iff_left₀ hunit, Nat.cast_le]
    exact (dropDigits_toEven _ _).le_iff heven

/-- A number is carried up to a power of ten from half a unit of its twenty-ninth digit below it. -/
theorem tenPow_le_abs_value_rounded_iff (hd : d.coefficient ≠ 0) {p : ℤ} (hp : -999998 ≤ p) :
    (10 : ℚ) ^ p ≤ |d.rounded.value| ↔ (10 : ℚ) ^ p - 5 * (10 : ℚ) ^ (p - 29) ≤ |d.value| := by
  have hlow := tenPow_adjusted_le_abs_value hd
  have hhigh := d.abs_value_lt
  have hplace := d.lastPlace_working
  have hunit := tenPow_pos (p - 29)
  rcases lt_trichotomy d.adjusted (p - 1) with h | h | h
  · -- the first digit is too low, and stays so
    have hlt : |d.value| < (10 : ℚ) ^ (p - 1) := hhigh.trans_le (tenPow_le (by omega))
    have hrounded := abs_value_rounded_le_tenPow (by omega) hlt
    have hten : (10 : ℚ) ^ (p - 1) = 10 ^ 28 * (10 : ℚ) ^ (p - 29) := by
      rw [← zpow_natCast, ← tenPow_add]
      congr 1
      push_cast
      omega
    have hsplit : (10 : ℚ) ^ p = 10 * (10 : ℚ) ^ (p - 1) := by
      rw [← zpow_one_add₀ (by norm_num)]
      congr 1
      omega
    constructor <;> intro hle <;> linarith
  · exact tenPow_le_abs_value_rounded_iff_of_lastPlace (by omega)
  · -- the number reaches the power of ten, and its first digit is kept
    have hten : (10 : ℚ) ^ p ≤ (10 : ℚ) ^ d.adjusted := tenPow_le (by omega)
    exact iff_of_true (hten.trans (tenPow_le_abs_value_rounded (by omega) hlow)) (by linarith)

/-- Fitting has no result exactly for numbers that round to the power of ten above the highest
place. -/
theorem fit_eq_error_iff (hd : d.coefficient ≠ 0) {s : Signal} :
    d.fit working = .error s ↔
      s = .overflow ∧ (10 : ℚ) ^ (1000000 : ℤ) - 5 * (10 : ℚ) ^ (999971 : ℤ) ≤ |d.value| := by
  have hiff := tenPow_le_abs_value_rounded_iff hd (p := 1000000) (by norm_num)
  have hlarge : (d.rounded.coefficient ≠ 0 ∧ working.highest < d.rounded.adjusted) ↔
      (10 : ℚ) ^ (1000000 : ℤ) ≤ |d.rounded.value| := by
    constructor
    · rintro ⟨h0, hlt⟩
      have hh : working.highest = 999999 := rfl
      exact (tenPow_le (by omega)).trans (tenPow_adjusted_le_abs_value h0)
    · intro h
      have h0 : d.rounded.coefficient ≠ 0 := by
        intro h0
        rw [value_eq_zero_iff.2 h0, abs_zero] at h
        exact absurd h (not_le.2 (tenPow_pos _))
      refine ⟨h0, ?_⟩
      have := lt_of_tenPow_lt (h.trans_lt d.rounded.abs_value_lt)
      have hh : working.highest = 999999 := rfl
      omega
  rw [show (1000000 : ℤ) - 29 = 999971 by norm_num] at hiff
  rw [fit_of_coefficient_ne_zero hd]
  split
  · next h =>
    have hle := hiff.1 (hlarge.1 h)
    constructor
    · intro hs
      exact ⟨(Except.error.inj hs).symm, hle⟩
    · rintro ⟨rfl, -⟩
      rfl
  · next h =>
    constructor
    · intro hs
      cases hs
    · rintro ⟨-, hle⟩
      exact absurd (hlarge.2 (hiff.2 hle)) h

end Decimal

end DealerPay
