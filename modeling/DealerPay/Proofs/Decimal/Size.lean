import DealerPay.Proofs.Decimal.Cents
import DealerPay.Proofs.Decimal.Rounding

/-!
# The size of results

How large the results of arithmetic become when nothing is known of the operands but their size.
They may have any number of digits and any exponent, so results are rounded; but rounding does not
exceed a bound that can be written, and a result that stays below such a bound is no overflow.

* `Decimal.add_eq_fit`: a sum is fitted from a number that keeps the bounds and the sign of the
  exact sum, also where a digit stands in for one of the terms.
* `Decimal.add_of_abs_le`, `Decimal.mul_of_abs_le`, `Decimal.percentOf_of_abs_le_tenPow` and
  `Decimal.sum_of_abs_le` have results within a bound; `Decimal.nonneg_of_add` keeps the sign.
* `Decimal.toCents_of_abs_le` is the same for cents.
* `Decimal.fit_close`: a number that is fitted is off by a small part of it, or by next to nothing.
* `Decimal.sum_stalls`: a running sum of terms of one size does not grow beyond twenty-eight places
  above them, so it has a result however long it is.
* `Decimal.tenPow_le_abs_of_add`: a sum that reaches a power of ten still does when it is rounded.
-/

namespace DealerPay

/-- A whole number of units of a power of ten can be written, if it is below twenty-eight digits of
them. -/
theorem represents_of_eq {x : ℚ} (n k : ℕ) (hx : x = n * 10 ^ k) (hn : n < 10 ^ 28)
    (hk : k ≤ 999971) : Decimal.working.Represents x := by
  refine ⟨n, k, ?_, ?_, ?_, ?_⟩
  · rw [hx, zpow_natCast]
    norm_cast
  · rw [abs_of_nonneg (by positivity)]
    exact_mod_cast hn
  · have : Decimal.working.tiny = -1000026 := by decide
    omega
  · have hpos : (0 : ℚ) < (10 : ℚ) ^ k := by positivity
    have hnq : (n : ℚ) < (10 : ℚ) ^ (28 : ℤ) := by
      have : (n : ℚ) < 10 ^ 28 := by exact_mod_cast hn
      exact_mod_cast this
    rw [hx, abs_of_nonneg (by positivity)]
    calc (n : ℚ) * 10 ^ k < (10 : ℚ) ^ (28 : ℤ) * 10 ^ k := mul_lt_mul_of_pos_right hnq hpos
      _ = (10 : ℚ) ^ (28 + k : ℤ) := by rw [tenPow_add, zpow_natCast]
      _ ≤ (10 : ℚ) ^ (Decimal.working.highest + 1) := by
        apply tenPow_le
        have : Decimal.working.highest = 999999 := rfl
        omega

namespace Decimal

variable {a b d r : Decimal} {B : ℚ}

/-! ## Digits that stand in -/

/-- A digit that stands in for a number is the number, or it is larger by less than a unit that the
larger term has twenty-nine places above it. -/
theorem value_standIn_cases (big small : Decimal) :
    (standIn working big small).value = small.value ∨
      ∃ F : ℤ, F < big.exponent ∧ (10 : ℚ) ^ (F + 29) ≤ |big.value| ∧
        ((0 < small.value ∧ small.value < (10 : ℚ) ^ F ∧
            (standIn working big small).value = (10 : ℚ) ^ F) ∨
          (small.value < 0 ∧ -(10 : ℚ) ^ F < small.value ∧
            (standIn working big small).value = -(10 : ℚ) ^ F)) := by
  unfold standIn
  split
  · next hfar =>
    by_cases hsmall : small.coefficient = 0
    · left
      rw [if_pos hsmall, value_eq_zero_iff.2 hsmall, value_eq_zero_iff]
    · right
      obtain ⟨hF, hF'⟩ := floorPlace_le working big
      have hprecision : (working.precision : ℤ) = 28 := by decide
      rw [hprecision] at hF'
      generalize floorPlace working big = F at hfar hF hF'
      have hlt : |small.value| < (10 : ℚ) ^ F :=
        small.abs_value_lt.trans_le (tenPow_le (by omega))
      have hbig : (10 : ℚ) ^ (F + 29) ≤ |big.value| :=
        (tenPow_le (by omega)).trans (tenPow_adjusted_le_abs_value hfar.1)
      refine ⟨F, by omega, hbig, ?_⟩
      rw [if_neg hsmall]
      have hpos : (0 : ℚ) < small.coefficient * (10 : ℚ) ^ small.exponent :=
        mul_pos (by exact_mod_cast Nat.pos_of_ne_zero hsmall) (tenPow_pos _)
      rw [abs_lt] at hlt
      cases hn : small.negative with
      | false =>
        left
        rw [value_of_not_negative hn] at hlt ⊢
        refine ⟨hpos, hlt.2, ?_⟩
        rw [value_of_not_negative rfl, Nat.cast_one, one_mul]
      | true =>
        right
        rw [value_of_negative hn] at hlt ⊢
        refine ⟨by linarith, hlt.1, ?_⟩
        rw [value_of_negative rfl, Nat.cast_one, one_mul]
  · exact .inl rfl

/-- A bound that can be written and that nearly bounds a number at least twenty-nine places above a
unit exceeds that number by whole units. -/
theorem exists_sub_eq_of_represents (hB : working.Represents B) {big : Decimal} {F : ℤ}
    (hF : F < big.exponent) (hlow : (10 : ℚ) ^ (F + 29) ≤ |big.value|)
    (h : |big.value| - (10 : ℚ) ^ F < B) : ∃ m : ℤ, B - |big.value| = m * (10 : ℚ) ^ F := by
  obtain ⟨n, e, hv, hn, -, -⟩ := hB
  have hpos := tenPow_pos F
  have hB' : (10 : ℚ) ^ (F + 28) < B := by
    have h1 : (10 : ℚ) ^ (F + 29) = 10 ^ 29 * (10 : ℚ) ^ F := by
      rw [add_comm, tenPow_add]
      norm_num
    have h2 : (10 : ℚ) ^ (F + 28) = 10 ^ 28 * (10 : ℚ) ^ F := by
      rw [add_comm, tenPow_add]
      norm_num
    rw [h1] at hlow
    rw [h2]
    linarith
  have hplace : F ≤ e := by
    have hnq : (n : ℚ) < (10 : ℚ) ^ (28 : ℤ) := by
      have : (n : ℚ) < 10 ^ 28 := by exact_mod_cast lt_of_abs_lt hn
      exact_mod_cast this
    have : (10 : ℚ) ^ (F + 28) < (10 : ℚ) ^ (28 + e) := by
      rw [tenPow_add 28 e]
      exact hB'.trans (hv ▸ mul_lt_mul_of_pos_right hnq (tenPow_pos e))
    have := lt_of_tenPow_lt this
    omega
  refine ⟨n * 10 ^ (e - F).toNat - big.coefficient * 10 ^ (big.exponent - F).toNat, ?_⟩
  rw [hv, abs_value, tenPow_eq_of_le hplace, tenPow_eq_of_le hF.le]
  push_cast
  ring

/-- A digit that stands in for a term does not carry the sum beyond a bound that can be written. -/
theorem abs_add_standIn_le (hB : working.Represents B) {big small : Decimal}
    (h : |big.value + small.value| ≤ B) :
    |big.value + (standIn working big small).value| ≤ B := by
  rcases value_standIn_cases big small with heq | ⟨F, hF, hlow, hcases⟩
  · rwa [heq]
  · have hpos := tenPow_pos F
    have hlarge : (10 : ℚ) ^ F < (10 : ℚ) ^ (F + 29) :=
      (zpow_lt_zpow_iff_right₀ (by norm_num)).2 (by omega)
    have hnear : |big.value| - (10 : ℚ) ^ F < B := by
      have habs := abs_sub_abs_le_abs_sub big.value (-small.value)
      rw [sub_neg_eq_add, abs_neg] at habs
      have hs : |small.value| < (10 : ℚ) ^ F := by
        rw [abs_lt]
        rcases hcases with ⟨h0, h1, -⟩ | ⟨h0, h1, -⟩
        · exact ⟨by linarith, h1⟩
        · exact ⟨h1, by linarith⟩
      linarith
    obtain ⟨m, hm⟩ := exists_sub_eq_of_represents hB hF hlow hnear
    -- a unit is added only where there is room for part of one, hence for a whole one
    have hroom : |big.value| < B → |big.value| + (10 : ℚ) ^ F ≤ B := by
      intro hlt
      have hm0 : (0 : ℚ) < m := pos_of_mul_pos_left (hm ▸ sub_pos.2 hlt) hpos.le
      have hm1 : (1 : ℚ) ≤ m := by
        have : 0 < m := by exact_mod_cast hm0
        exact_mod_cast this
      have := mul_le_mul_of_nonneg_right hm1 hpos.le
      linarith
    rw [abs_le] at h ⊢
    rcases le_or_gt 0 big.value with hbig | hbig
    · rw [abs_of_nonneg hbig] at hlow hnear hroom
      rcases hcases with ⟨h0, h1, hs⟩ | ⟨h0, h1, hs⟩
      · have := hroom (by linarith)
        rw [hs]
        constructor <;> linarith
      · rw [hs]
        constructor <;> linarith
    · rw [abs_of_neg hbig] at hlow hnear hroom
      rcases hcases with ⟨h0, h1, hs⟩ | ⟨h0, h1, hs⟩
      · rw [hs]
        constructor <;> linarith
      · have := hroom (by linarith)
        rw [hs]
        constructor <;> linarith

/-- A digit that stands in for a term leaves the sign of the sum alone. -/
theorem add_standIn_nonneg {big small : Decimal} (h : 0 ≤ big.value + small.value) :
    0 ≤ big.value + (standIn working big small).value := by
  rcases value_standIn_cases big small with heq | ⟨F, -, hlow, hcases⟩
  · rwa [heq]
  · have hpos := tenPow_pos F
    have hlarge : (10 : ℚ) ^ F < (10 : ℚ) ^ (F + 29) :=
      (zpow_lt_zpow_iff_right₀ (by norm_num)).2 (by omega)
    rcases abs_cases big.value with ⟨hb, hbig⟩ | ⟨hb, hbig⟩
    · rcases hcases with ⟨-, -, hs⟩ | ⟨-, -, hs⟩ <;> rw [hs] <;> linarith
    · rcases hcases with ⟨-, h1, hs⟩ | ⟨h0, -, hs⟩ <;> linarith

/-! ## Sums -/

/-- A sum is fitted from a number within every bound that can be written and bounds the exact sum,
and of the same sign. -/
theorem add_eq_fit (a b : Decimal) :
    ∃ s : Decimal, a.add b = s.fit working ∧
      (∀ B, working.Represents B → |a.value + b.value| ≤ B → |s.value| ≤ B) ∧
      (0 ≤ a.value + b.value → 0 ≤ s.value) := by
  unfold add
  simp only
  split
  · refine ⟨_, rfl, ?_, ?_⟩
    · intro B hB h
      rw [value_exactSum]
      exact abs_add_standIn_le hB h
    · intro h
      rw [value_exactSum]
      exact add_standIn_nonneg h
  · split
    · refine ⟨_, rfl, ?_, ?_⟩
      · intro B hB h
        rw [value_exactSum, add_comm]
        exact abs_add_standIn_le hB (by rwa [add_comm])
      · intro h
        rw [value_exactSum, add_comm]
        exact add_standIn_nonneg (by rwa [add_comm])
    · refine ⟨_, rfl, ?_, ?_⟩
      · intro B _ h
        rwa [value_exactSum]
      · intro h
        rwa [value_exactSum]

/-- A sum within a bound that can be written has a result within it. -/
theorem add_of_abs_le (hB : working.Represents B) (h : |a.value + b.value| ≤ B) :
    Yields (a.add b) fun r => |r.value| ≤ B := by
  obtain ⟨s, hs, hbound, -⟩ := add_eq_fit a b
  rw [hs]
  exact fit_of_abs_le hB (hbound B hB h)

/-- A difference within a bound that can be written has a result within it. -/
theorem sub_of_abs_le (hB : working.Represents B) (h : |a.value - b.value| ≤ B) :
    Yields (a.sub b) fun r => |r.value| ≤ B := by
  apply add_of_abs_le hB
  rwa [value_neg, ← sub_eq_add_neg]

/-- A sum that is not negative has no negative result. -/
theorem nonneg_of_add (hr : a.add b = .ok r) (h : 0 ≤ a.value + b.value) : 0 ≤ r.value := by
  obtain ⟨s, hs, -, hsign⟩ := add_eq_fit a b
  exact nonneg_of_fit (hs ▸ hr) (hsign h)

/-- A difference that is not negative has no negative result. -/
theorem nonneg_of_sub (hr : a.sub b = .ok r) (h : b.value ≤ a.value) : 0 ≤ r.value := by
  apply nonneg_of_add hr
  rw [value_neg]
  linarith

/-- Terms of one size added to a number stay within the size times their number beyond it, as long
as the multiples of the size can be written. -/
theorem foldlM_add_of_abs_le {U : ℚ} {ds : List Decimal} (h : ∀ d ∈ ds, |d.value| ≤ U) {i : ℕ}
    (hU : ∀ j ≤ i + ds.length, working.Represents (j * U)) {start : Decimal}
    (hstart : |start.value| ≤ i * U) :
    Yields (ds.foldlM add start) fun r => |r.value| ≤ (i + ds.length : ℕ) * U := by
  induction ds generalizing start i with
  | nil => exact .pure (by simpa using hstart)
  | cons d rest ih =>
    rw [List.foldlM_cons]
    rw [List.length_cons] at hU ⊢
    have hd := h d List.mem_cons_self
    have hnext : |start.value + d.value| ≤ (i + 1 : ℕ) * U := by
      have := abs_add_le start.value d.value
      push_cast
      linarith
    refine (add_of_abs_le (hU (i + 1) (by omega)) hnext).bind ?_
    intro s hs
    have hrest := ih (fun x hx => h x (List.mem_cons_of_mem d hx)) (fun j hj => hU j (by omega)) hs
    rwa [show i + 1 + rest.length = i + (rest.length + 1) by omega] at hrest

/-- Terms of one size add up to a multiple of it, as long as its multiples can be written. -/
theorem sum_of_abs_le {U : ℚ} {ds : List Decimal} (h : ∀ d ∈ ds, |d.value| ≤ U)
    (hU : ∀ j ≤ ds.length, working.Represents (j * U)) :
    Yields (sum ds) fun r => |r.value| ≤ ds.length * U := by
  have hsum : Yields (ds.foldlM add zero) fun r => |r.value| ≤ (0 + ds.length : ℕ) * U :=
    foldlM_add_of_abs_le h (by simpa using hU) (by simp)
  rwa [Nat.zero_add] at hsum

/-- Fewer than `m` terms of a size that is a power of ten add up to less than `m` times it. -/
theorem sum_of_abs_le_tenPow {ds : List Decimal} {k : ℕ} (m : ℕ)
    (h : ∀ d ∈ ds, |d.value| ≤ 10 ^ k) (hlen : ds.length ≤ m) (hm : m < 10 ^ 28)
    (hk : k ≤ 999971) : Yields (sum ds) fun r => |r.value| ≤ m * 10 ^ k := by
  refine (sum_of_abs_le h fun j hj => represents_of_eq j k rfl (by omega) hk).mono ?_
  intro r hr
  have hq : (ds.length : ℚ) ≤ m := by exact_mod_cast hlen
  exact hr.trans (mul_le_mul_of_nonneg_right hq (by positivity))

/-! ## Products and hundredths -/

/-- A product within a bound that can be written has a result within it. -/
theorem mul_of_abs_le (hB : working.Represents B) (h : |a.value * b.value| ≤ B) :
    Yields (a.mul b) fun r => |r.value| ≤ B := by
  unfold mul
  apply fit_of_abs_le hB
  rwa [value_exactProduct]

/-- The product of numbers of two sizes. -/
theorem mul_of_abs_le_tenPow {m j k : ℕ} (ha : |a.value| ≤ m * 10 ^ j) (hb : |b.value| ≤ 10 ^ k)
    (hm : m < 10 ^ 28) (hk : j + k ≤ 999971) :
    Yields (a.mul b) fun r => |r.value| ≤ m * 10 ^ (j + k) := by
  refine mul_of_abs_le (represents_of_eq m (j + k) rfl hm hk) ?_
  rw [abs_mul, pow_add, ← mul_assoc]
  exact mul_le_mul ha hb (abs_nonneg _) (by positivity)

/-- A hundredth within a bound that can be written has a result within it. -/
theorem hundredth_of_abs_le (hB : working.Represents B) (h : |d.value / 100| ≤ B) :
    Yields d.hundredth fun r => |r.value| ≤ B := by
  unfold hundredth
  apply fit_of_abs_le hB
  rwa [value_exactHundredth]

/-- A percentage of a number, from the sizes of both. -/
theorem percentOf_of_abs_le_tenPow {percent : Decimal} {m j k : ℕ} (hd : |d.value| ≤ m * 10 ^ j)
    (hp : |percent.value| ≤ 10 ^ (k + 2)) (hm : m < 10 ^ 28) (hk : j + k ≤ 999969) :
    Yields (percentOf percent d) fun r => |r.value| ≤ m * 10 ^ (j + k) := by
  unfold percentOf
  refine (mul_of_abs_le_tenPow hd hp hm (by omega)).bind ?_
  intro r hr
  refine hundredth_of_abs_le (represents_of_eq m (j + k) rfl hm (by omega)) ?_
  rw [abs_div, abs_of_pos (by norm_num : (0 : ℚ) < 100), div_le_iff₀ (by norm_num)]
  calc |r.value| ≤ m * 10 ^ (j + (k + 2)) := hr
    _ = m * 10 ^ (j + k) * 100 := by ring

/-! ## Cents -/

/-- A number within a whole bound has cents within it, as long as fifty digits hold the bound. -/
theorem toCents_of_abs_le {n : ℕ} (h : |d.value| ≤ n) (hn : n < 10 ^ 48) :
    Yields d.toCents fun r => |r.value| ≤ n := by
  have hlt : |d.value| < 10 ^ 48 - 1 / 200 := by
    have : (n : ℚ) + 1 ≤ 10 ^ 48 := by exact_mod_cast hn
    linarith
  refine (toCents_of_abs_lt hlt).mono ?_
  rintro r ⟨hr, -⟩
  rw [hr]
  exact abs_nearestCent_le h

/-! ## Closeness -/

/-- A number that is not too large is fitted to a close one: off by half a unit of the twenty-eighth
digit, or by next to nothing where it is next to nothing itself. -/
theorem fit_close {k : ℕ} (hk : k ≤ 999971) (h : |d.value| ≤ 10 ^ k) :
    Yields (d.fit working) fun r =>
      |r.value - d.value| ≤ 5 / 10 ^ 28 * |d.value| + 2 / 10 ^ 100 := by
  obtain ⟨r, hr, -⟩ := fit_of_abs_le (represents_of_eq 1 k (by simp) (by norm_num) hk) h
  refine ⟨r, hr, ?_⟩
  rcases (isRounded_of_fit hr).isNear with hclose | ⟨hd, hsmall⟩
  · have : (0 : ℚ) ≤ 2 / 10 ^ 100 := by positivity
    linarith
  · have htri := abs_sub r.value d.value
    have : (0 : ℚ) ≤ 5 / 10 ^ 28 * |d.value| := by positivity
    linarith

/-! ## Sums of any length -/

/-- A digit that stands in for a number is hardly larger than the number. -/
theorem abs_value_standIn_le (big small : Decimal) :
    |(standIn working big small).value| ≤ |small.value| + |big.value| / 10 ^ 29 := by
  have hbig : 0 ≤ |big.value| / 10 ^ 29 := by positivity
  rcases value_standIn_cases big small with heq | ⟨F, -, hlow, hcases⟩
  · rw [heq]
    linarith
  · have hpos := tenPow_pos F
    have hunit : (10 : ℚ) ^ F ≤ |big.value| / 10 ^ 29 := by
      rw [le_div_iff₀ (by positivity)]
      calc (10 : ℚ) ^ F * 10 ^ 29 = (10 : ℚ) ^ (F + 29) := by
            rw [tenPow_add]
            norm_num
        _ ≤ |big.value| := hlow
    have habs : |(standIn working big small).value| = (10 : ℚ) ^ F := by
      rcases hcases with ⟨-, -, hs⟩ | ⟨-, -, hs⟩
      · rw [hs, abs_of_pos hpos]
      · rw [hs, abs_neg, abs_of_pos hpos]
    have hsmall := abs_nonneg small.value
    linarith

/-- A sum is fitted from a number that is hardly larger than its terms together. -/
theorem add_eq_fit_of_abs (a b : Decimal) :
    ∃ s : Decimal, a.add b = s.fit working ∧
      |s.value| ≤ (|a.value| + |b.value|) * (1 + 1 / 10 ^ 29) := by
  have ha := abs_nonneg a.value
  have hb := abs_nonneg b.value
  unfold add
  simp only
  split
  · refine ⟨_, rfl, ?_⟩
    rw [value_exactSum]
    have hsum := abs_add_le a.value (standIn working a b).value
    have hstand := abs_value_standIn_le a b
    linarith
  · split
    · refine ⟨_, rfl, ?_⟩
      rw [value_exactSum]
      have hsum := abs_add_le (standIn working b a).value b.value
      have hstand := abs_value_standIn_le b a
      linarith
    · refine ⟨_, rfl, ?_⟩
      rw [value_exactSum]
      have hsum := abs_add_le a.value b.value
      linarith

/-- A number that can be written exceeds a power of ten by a unit of the last of twenty-eight
digits, or not at all. -/
theorem abs_le_of_represents_of_lt {x : ℚ} {k : ℕ} (hx : working.Represents x)
    (h : |x| < (10 ^ 28 + 10) * 10 ^ k) : |x| ≤ 10 ^ 28 * 10 ^ k := by
  by_contra hgt
  rw [not_le] at hgt
  obtain ⟨n, e, rfl, hn, -, -⟩ := hx
  rw [abs_mul, abs_of_pos (tenPow_pos e), ← Int.cast_abs] at h hgt
  generalize |n| = m at h hgt hn
  have hm : (m : ℚ) < (10 : ℚ) ^ (28 : ℤ) := by
    have : (m : ℚ) < 10 ^ 28 := by exact_mod_cast hn
    exact_mod_cast this
  -- the number is counted in units that the power is made of
  have hplace : (k : ℤ) + 1 ≤ e := by
    have : (10 : ℚ) ^ (28 + k : ℤ) < (10 : ℚ) ^ (28 + e) := by
      rw [tenPow_add, tenPow_add 28 e, zpow_natCast]
      refine lt_trans ?_ (mul_lt_mul_of_pos_right hm (tenPow_pos e))
      exact_mod_cast hgt
    have := lt_of_tenPow_lt this
    omega
  have hunit : (10 : ℚ) ^ ((k : ℤ) + 1) = 10 * 10 ^ k := by
    rw [add_comm, tenPow_add, zpow_natCast, zpow_one]
  have hpos : (0 : ℚ) < 10 * 10 ^ k := by positivity
  rw [tenPow_eq_of_le hplace, hunit, ← mul_assoc] at h hgt
  have hlow : (10 ^ 27 : ℚ) < m * 10 ^ (e - (k + 1)).toNat := by
    rw [← mul_lt_mul_iff_left₀ hpos]
    linarith
  have hhigh : (m * 10 ^ (e - (k + 1)).toNat : ℚ) < 10 ^ 27 + 1 := by
    rw [← mul_lt_mul_iff_left₀ hpos]
    linarith
  have hlowz : (10 ^ 27 : ℤ) < m * 10 ^ (e - (k + 1)).toNat := by exact_mod_cast hlow
  have hhighz : m * 10 ^ (e - (k + 1)).toNat < (10 ^ 27 + 1 : ℤ) := by exact_mod_cast hhigh
  omega

/-- A number stays within a power of ten when a term is added that is twenty-eight places smaller:
what there is of the term above the power is rounded away. -/
theorem add_stalls {k : ℕ} (ha : |a.value| ≤ 10 ^ 28 * 10 ^ k) (hb : |b.value| ≤ 10 ^ k)
    (hk : k ≤ 999900) : Yields (a.add b) fun r => |r.value| ≤ 10 ^ 28 * 10 ^ k := by
  obtain ⟨s, hs, hsize⟩ := add_eq_fit_of_abs a b
  have hpow : (1 : ℚ) ≤ 10 ^ k := one_le_pow₀ (by norm_num)
  have hs' : |s.value| ≤ (10 ^ 28 + 2) * 10 ^ k := by
    norm_num at ha hsize ⊢
    linarith
  have hfit : |s.value| ≤ 10 ^ (k + 29) := by
    have : (10 : ℚ) ^ (k + 29) = 10 ^ 29 * 10 ^ k := by ring
    rw [this]
    norm_num at hs' ⊢
    linarith
  rw [hs]
  obtain ⟨r, hr, hclose⟩ := fit_close (by omega) hfit
  refine ⟨r, hr, abs_le_of_represents_of_lt (represents_of_fit hr) ?_⟩
  have htri := abs_sub_abs_le_abs_sub r.value s.value
  norm_num at hs' hclose ⊢
  linarith

/-- However many terms of one size there are, their running sum comes to a stop twenty-eight places
above them. -/
theorem sum_stalls {ds : List Decimal} {k : ℕ} (h : ∀ d ∈ ds, |d.value| ≤ 10 ^ k)
    (hk : k ≤ 999900) : Yields (sum ds) fun r => |r.value| ≤ 10 ^ 28 * 10 ^ k := by
  have run : ∀ start : Decimal, |start.value| ≤ 10 ^ 28 * 10 ^ k →
      Yields (ds.foldlM add start) fun r => |r.value| ≤ 10 ^ 28 * 10 ^ k := by
    induction ds with
    | nil => exact fun _ hstart => .pure hstart
    | cons d rest ih =>
      intro start hstart
      rw [List.foldlM_cons]
      refine (add_stalls hstart (h d List.mem_cons_self) hk).bind ?_
      intro next hnext
      exact ih (fun x hx => h x (List.mem_cons_of_mem d hx)) next hnext
  apply run zero
  rw [value_zero, abs_zero]
  positivity

/-! ## Sums that reach a power of ten -/

variable {p : ℤ}

/-- A number that reaches a power of ten still does when it is fitted. -/
theorem tenPow_le_abs_of_fit (h : d.fit working = .ok r) (hp : -1000026 ≤ p)
    (hd : (10 : ℚ) ^ p ≤ |d.value|) : (10 : ℚ) ^ p ≤ |r.value| := by
  have hne : d.coefficient ≠ 0 := by
    intro h0
    rw [value_eq_zero_iff.2 h0, abs_zero] at hd
    exact absurd hd (not_le.2 (tenPow_pos p))
  have hr : r = d.rounded := by
    rw [fit_of_coefficient_ne_zero hne] at h
    split at h
    · cases h
    · exact (Except.ok.inj h).symm
  have hplace := d.lastPlace_working
  rw [hr]
  rcases le_total d.adjusted (p + 27) with hlow | hhigh
  · exact tenPow_le_abs_value_rounded (by omega) hd
  · -- the first digit is kept, and it is above the power
    exact (tenPow_le (by omega)).trans
      (tenPow_le_abs_value_rounded (by omega) (tenPow_adjusted_le_abs_value hne))

/-- No digit stands in for a number that is less than twenty-nine places below another one. -/
theorem value_standIn_of_abs_le {big small : Decimal}
    (h : |big.value| ≤ 10 ^ 29 * |small.value|) :
    (standIn working big small).value = small.value := by
  rcases value_standIn_cases big small with heq | ⟨F, -, hlow, hcases⟩
  · exact heq
  · have hsmall : |small.value| < (10 : ℚ) ^ F := by
      rcases hcases with ⟨h0, h1, -⟩ | ⟨h0, h1, -⟩
      · rwa [abs_of_pos h0]
      · rw [abs_of_neg h0]
        linarith
    have hten : (10 : ℚ) ^ (F + 29) = 10 ^ 29 * (10 : ℚ) ^ F := by
      rw [add_comm, tenPow_add]
      norm_num
    rw [hten] at hlow
    linarith

/-- A sum of numbers that are less than twenty-nine places apart is fitted from the exact sum. -/
theorem add_eq_fit_of_abs_le (hab : |a.value| ≤ 10 ^ 29 * |b.value|)
    (hba : |b.value| ≤ 10 ^ 29 * |a.value|) :
    ∃ s : Decimal, a.add b = s.fit working ∧ s.value = a.value + b.value := by
  unfold add
  simp only
  split
  · exact ⟨_, rfl, by rw [value_exactSum, value_standIn_of_abs_le hab]⟩
  · split
    · exact ⟨_, rfl, by rw [value_exactSum, value_standIn_of_abs_le hba]⟩
    · exact ⟨_, rfl, value_exactSum a b⟩

/-- A sum of numbers that are less than twenty-nine places apart reaches a power of ten if the exact
sum does. -/
theorem tenPow_le_abs_of_add (h : a.add b = .ok r) (hab : |a.value| ≤ 10 ^ 29 * |b.value|)
    (hba : |b.value| ≤ 10 ^ 29 * |a.value|) (hp : -1000026 ≤ p)
    (hsum : (10 : ℚ) ^ p ≤ |a.value + b.value|) : (10 : ℚ) ^ p ≤ |r.value| := by
  obtain ⟨s, hs, hv⟩ := add_eq_fit_of_abs_le hab hba
  exact tenPow_le_abs_of_fit (hs ▸ h) hp (by rwa [hv])

end Decimal

end DealerPay
