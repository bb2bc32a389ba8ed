import DealerPay.Proofs.Decimal.Exactness

/-!
# The nearest whole number

What remains of a number when its last digits are dropped.

* `abs_divRound_sub_le` and `abs_dropDigits_sub_le`: dropping digits is off by half a unit at most,
  wherever ties go.
* `IsNearestEven` is the whole number nearest to a size, and the even one of two that are.
  `divRound_toEven` is rounding a quotient, `dropDigits_toEven` is dropping digits, and
  `IsNearestEven.le_iff` says from where on an even number is reached.
* `IsHalfEven` is the same of numbers that have a sign: `Decimal.isHalfEven_digits` puts the sign
  back.
-/

namespace DealerPay

/-! ## Dropping digits -/

/-- A rounded quotient is within a half of the quotient, wherever ties go. -/
theorem abs_divRound_sub_le (tie : Tie) (n : ℕ) {d : ℕ} (hd : 0 < d) :
    |(divRound tie n d : ℚ) - n / d| ≤ 1 / 2 := by
  have hdq : (0 : ℚ) < d := by exact_mod_cast hd
  have hn : (n : ℚ) / d = (n / d : ℕ) + ((n % d : ℕ) : ℚ) / d := by
    rw [eq_comm, eq_div_iff hdq.ne', add_mul, div_mul_cancel₀ _ hdq.ne']
    exact_mod_cast Nat.div_add_mod' n d
  have hlt : ((n % d : ℕ) : ℚ) / d < 1 := by
    rw [div_lt_one hdq]
    exact_mod_cast Nat.mod_lt n hd
  have hge : (0 : ℚ) ≤ ((n % d : ℕ) : ℚ) / d := by positivity
  have up : d ≤ 2 * (n % d) → (1 / 2 : ℚ) ≤ ((n % d : ℕ) : ℚ) / d := by
    intro h
    rw [le_div_iff₀ hdq]
    have : (d : ℚ) ≤ 2 * (n % d : ℕ) := by exact_mod_cast h
    linarith
  have down : 2 * (n % d) ≤ d → ((n % d : ℕ) : ℚ) / d ≤ 1 / 2 := by
    intro h
    rw [div_le_iff₀ hdq]
    have : 2 * ((n % d : ℕ) : ℚ) ≤ d := by exact_mod_cast h
    linarith
  rw [hn, abs_le]
  unfold divRound Tie.roundsUp
  rcases lt_trichotomy (2 * (n % d)) d with h | h | h
  · have := down h.le
    simp only [compare_lt_iff_lt.2 h, Bool.false_eq_true, if_false]
    constructor <;> linarith
  · have := down h.le
    have := up h.ge
    rw [compare_eq_iff_eq.2 h]
    cases tie with
    | toEven =>
      dsimp only
      split
      · push_cast
        constructor <;> linarith
      · constructor <;> linarith
    | awayFromZero =>
      simp only [if_true]
      push_cast
      constructor <;> linarith
  · have := up h.le
    simp only [compare_gt_iff_gt.2 h, if_true]
    push_cast
    constructor <;> linarith

/-- Dropping digits is off by half a unit of the last one that is kept. -/
theorem abs_dropDigits_sub_le (tie : Tie) (c k : ℕ) :
    |(dropDigits tie c k : ℚ) - c / 10 ^ k| ≤ 1 / 2 := by
  unfold dropDigits
  split
  · next hk =>
    have hc := lt_tenTo_digitCount c
    rw [tenTo_eq] at hc
    have hpow : c * 10 ≤ 10 ^ k := by
      calc c * 10 ≤ 10 ^ digitCount c * 10 := Nat.mul_le_mul_right 10 hc.le
        _ = 10 ^ (digitCount c + 1) := (pow_succ 10 _).symm
        _ ≤ 10 ^ k := Nat.pow_le_pow_right (by norm_num) hk
    have hq : (c : ℚ) * 10 ≤ 10 ^ k := by exact_mod_cast hpow
    have hpos : (0 : ℚ) < 10 ^ k := by positivity
    rw [Nat.cast_zero, zero_sub, abs_neg, abs_of_nonneg (by positivity), div_le_iff₀ hpos]
    linarith
  · have h := abs_divRound_sub_le tie c (d := tenTo k) (by rw [tenTo_eq]; positivity)
    rwa [cast_tenTo] at h

/-- What is at most a number of units is so without the digits below them. -/
theorem dropDigits_le_of_le {c k n : ℕ} (tie : Tie) (h : (c : ℚ) / 10 ^ k ≤ n) :
    dropDigits tie c k ≤ n := by
  have hdrop := (abs_le.1 (abs_dropDigits_sub_le tie c k)).2
  have hq : (dropDigits tie c k : ℚ) < n + 1 := by linarith
  exact Nat.lt_succ_iff.1 (by exact_mod_cast hq)

/-- What is at least a number of units is so without the digits below them. -/
theorem le_dropDigits_of_le {c k n : ℕ} (tie : Tie) (h : (n : ℚ) ≤ c / 10 ^ k) :
    n ≤ dropDigits tie c k := by
  have hdrop := (abs_le.1 (abs_dropDigits_sub_le tie c k)).1
  have hq : (n : ℚ) < dropDigits tie c k + 1 := by linarith
  exact Nat.lt_succ_iff.1 (by exact_mod_cast hq)

/-! ## The nearest whole number -/

/-- Whether a whole number is nearest to a number, being even if there is another one as near. -/
structure IsNearestEven (x : ℚ) (n : ℕ) : Prop where
  /-- No whole number is nearer. -/
  near : |(n : ℚ) - x| ≤ 1 / 2
  /-- Half way between two whole numbers it is the even one. -/
  even : |(n : ℚ) - x| = 1 / 2 → Even n

/-- A quotient that is rounded by a half has one half of its divisor for a remainder. -/
theorem mod_of_abs_divRound_sub_eq {tie : Tie} {n d : ℕ} (hd : 0 < d)
    (h : |(divRound tie n d : ℚ) - n / d| = 1 / 2) : 2 * (n % d) = d := by
  have hdq : (0 : ℚ) < d := by exact_mod_cast hd
  have hn : (n : ℚ) = d * (n / d : ℕ) + (n % d : ℕ) := by exact_mod_cast (Nat.div_add_mod n d).symm
  have hlt : ((n % d : ℕ) : ℚ) < d := by exact_mod_cast Nat.mod_lt n hd
  have hge : (0 : ℚ) ≤ (n % d : ℕ) := Nat.cast_nonneg _
  have hscaled : |(divRound tie n d : ℚ) * d - n| = d / 2 := by
    rw [← div_mul_cancel₀ (n : ℚ) hdq.ne', ← sub_mul, abs_mul, h, abs_of_pos hdq]
    ring
  have hq : 2 * ((n % d : ℕ) : ℚ) = d := by
    unfold divRound at hscaled
    split at hscaled
    · have hdiff : ((n / d + 1 : ℕ) : ℚ) * d - n = d - ((n % d : ℕ) : ℚ) := by
        push_cast
        linarith
      rw [hdiff, abs_of_nonneg (by linarith)] at hscaled
      linarith
    · have hdiff : ((n / d : ℕ) : ℚ) * d - n = -((n % d : ℕ) : ℚ) := by linarith
      rw [hdiff, abs_neg, abs_of_nonneg hge] at hscaled
      linarith
  exact_mod_cast hq

/-- A rounded quotient is the whole number nearest to it. -/
theorem divRound_toEven (n : ℕ) {d : ℕ} (hd : 0 < d) :
    IsNearestEven ((n : ℚ) / d) (divRound .toEven n d) where
  near := abs_divRound_sub_le .toEven n hd
  even h := by
    unfold divRound Tie.roundsUp
    rw [compare_eq_iff_eq.2 (mod_of_abs_divRound_sub_eq hd h)]
    generalize n / d = q
    simp only [beq_iff_eq, Nat.even_iff]
    split <;> omega

/-- Digits that are dropped leave the nearest whole number of units. -/
theorem dropDigits_toEven (c k : ℕ) :
    IsNearestEven ((c : ℚ) / 10 ^ k) (dropDigits .toEven c k) where
  near := abs_dropDigits_sub_le .toEven c k
  even := by
    unfold dropDigits
    split
    · exact fun _ => Even.zero
    · have h := divRound_toEven c (d := tenTo k) (by rw [tenTo_eq]; positivity)
      rw [cast_tenTo] at h
      exact h.even

/-- An even number is reached from half a unit below it. -/
theorem IsNearestEven.le_iff {x : ℚ} {m n : ℕ} (h : IsNearestEven x m) (hn : Even n) :
    n ≤ m ↔ (n : ℚ) - 1 / 2 ≤ x := by
  have hnear := abs_le.1 h.near
  constructor
  · intro hle
    have hq : (n : ℚ) ≤ m := by exact_mod_cast hle
    linarith
  · intro hx
    by_contra hlt
    have hq : (m : ℚ) + 1 ≤ n := by exact_mod_cast Nat.lt_of_not_le hlt
    -- half way between the two numbers the even one is taken
    have htie : |(m : ℚ) - x| = 1 / 2 := by
      rw [abs_of_neg (by linarith)]
      linarith
    have hnext : n = m + 1 := by
      have : (n : ℚ) = (m + 1 : ℕ) := by
        push_cast
        linarith
      exact_mod_cast this
    rw [hnext, Nat.even_add_one] at hn
    exact hn (h.even htie)

/-! ## Numbers with a sign -/

/-- Whether an integer is nearest to a number, being even if there is another one as near. -/
structure IsHalfEven (x : ℚ) (n : ℤ) : Prop where
  /-- No integer is nearer. -/
  near : |(n : ℚ) - x| ≤ 1 / 2
  /-- Half way between two integers it is the even one. -/
  even : |(n : ℚ) - x| = 1 / 2 → Even n

/-- An integer is nearest to itself. -/
theorem isHalfEven_intCast (n : ℤ) : IsHalfEven n n where
  near := by norm_num
  even := by norm_num

/-- Nothing but an integer itself is nearest to it. -/
theorem IsHalfEven.eq_of_intCast {m n : ℤ} (h : IsHalfEven m n) : n = m := by
  have hnear := h.near
  rw [← Int.cast_sub, ← Int.cast_abs] at hnear
  have hlt : ((|n - m| : ℤ) : ℚ) < (1 : ℤ) := hnear.trans_lt (by norm_num)
  exact sub_eq_zero.1 (Int.abs_lt_one_iff.1 (by exact_mod_cast hlt))

/-- What is nearest to a size is nearest to it as a number. -/
theorem IsNearestEven.isHalfEven {x : ℚ} {n : ℕ} (h : IsNearestEven x n) : IsHalfEven x n where
  near := by exact_mod_cast h.near
  even htie := by
    rw [Int.even_coe_nat]
    exact h.even (by exact_mod_cast htie)

/-- Rounding keeps the sign apart. -/
theorem IsHalfEven.neg {x : ℚ} {n : ℤ} (h : IsHalfEven x n) : IsHalfEven (-x) (-n) := by
  have hflip : |((-n : ℤ) : ℚ) - -x| = |(n : ℚ) - x| := by
    rw [Int.cast_neg, ← neg_sub', abs_neg]
  refine ⟨hflip.trans_le h.near, fun htie => ?_⟩
  rw [even_neg]
  exact h.even (hflip.symm.trans htie)

/-- Digits that are nearest to the size of a number are nearest to it with its sign. -/
theorem Decimal.isHalfEven_digits {d r : Decimal} {u : ℚ} (hsign : r.negative = d.negative)
    (h : IsNearestEven (|d.value| / u) r.coefficient) : IsHalfEven (d.value / u) r.digits := by
  rw [abs_value] at h
  unfold digits
  cases hd : d.negative with
  | false =>
    rw [hsign, hd, if_neg Bool.false_ne_true, value_of_not_negative hd]
    exact h.isHalfEven
  | true =>
    rw [hsign, hd, if_pos rfl, value_of_negative hd, neg_div]
    exact h.isHalfEven.neg

end DealerPay
