import DealerPay.Proofs.Decimal.Value
import DealerPay.Proofs.Outcome

/-!
# Arithmetic that does not round

Sums and products are fitted to the working limits. A result that can be written within them is not
changed by that, however its terms are spelled; and what is not changed is all that can be written.

* `Limits.Represents` says that a rational can be written within limits.
* `Decimal.fit_of_represents` and `Decimal.represents_of_fit` are the two halves: fitting keeps the
  value of what can be written, and its results can always be written.
* `Decimal.add_of_represents`, `Decimal.sub_of_represents`, `Decimal.mul_of_represents` and
  `Decimal.percentOf_of_represents` are exact wherever the exact result can be written.
* `Decimal.sum_of_represents` adds up a list exactly if every partial sum can be written. By
  `Decimal.sum_exact_throughout_iff` no other list is added up without rounding.
-/

namespace DealerPay

/-- Whether a rational can be written within limits: as an integer of no more digits than there are
at a place that is not too low, and below the highest place. -/
def Limits.Represents (l : Limits) (x : ℚ) : Prop :=
  ∃ n e : ℤ, x = n * (10 : ℚ) ^ e ∧ |n| < 10 ^ l.precision ∧ l.tiny ≤ e ∧
    |x| < (10 : ℚ) ^ (l.highest + 1)

/-- Zero can be written within any limits. -/
theorem Limits.represents_zero (l : Limits) : l.Represents 0 :=
  ⟨0, l.tiny, by simp, by simp, le_rfl, by simpa using tenPow_pos _⟩

/-- A number can be written if it can be with the other sign. -/
theorem Limits.Represents.neg {l : Limits} {x : ℚ} (h : l.Represents x) : l.Represents (-x) := by
  obtain ⟨n, e, rfl, hn, he, hx⟩ := h
  exact ⟨-n, e, by push_cast; ring, by rwa [abs_neg], he, by rwa [abs_neg]⟩

/-! ## Dropping digits that are zero -/

/-- A quotient without remainder is not rounded. -/
theorem divRound_of_dvd (tie : Tie) {n d : ℕ} (hd : 0 < d) (h : d ∣ n) :
    divRound tie n d = n / d := by
  have hr : n % d = 0 := Nat.mod_eq_zero_of_dvd h
  have hlt : Ord.compare (2 * (n % d)) d = .lt := compare_lt_iff_lt.2 (by omega)
  simp only [divRound, Tie.roundsUp, hlt, Bool.false_eq_true, if_false]

/-- Dropping zeros divides by the power of ten. -/
theorem dropDigits_of_dvd (tie : Tie) {c k : ℕ} (h : 10 ^ k ∣ c) :
    dropDigits tie c k = c / 10 ^ k := by
  have hlt := lt_tenTo_digitCount c
  unfold dropDigits
  rw [tenTo_eq] at hlt
  split
  · next hk =>
    have hpow : c < 10 ^ k := hlt.trans_le (Nat.pow_le_pow_right (by norm_num) hk.le)
    exact (Nat.div_eq_of_lt hpow).symm
  · rw [tenTo_eq]
    exact divRound_of_dvd tie (by positivity) h

/-- Dropping digits leaves no more than the digits in front of them, and one more if it carries. -/
theorem dropDigits_le (tie : Tie) (c k : ℕ) : dropDigits tie c k ≤ c / 10 ^ k + 1 := by
  unfold dropDigits
  split
  · exact Nat.zero_le _
  · rw [tenTo_eq]
    unfold divRound
    split <;> omega

namespace Decimal

/-! ## Fitting -/

variable {l : Limits} {d a b : Decimal}

/-- A number that is worth `n` at a place has its digits there: they end in zeros down to the place
of its own last digit. -/
theorem coefficient_eq_of_value {n e : ℤ} (h : d.value = n * (10 : ℚ) ^ e) (he : d.exponent ≤ e) :
    d.coefficient = n.natAbs * 10 ^ (e - d.exponent).toNat := by
  have habs := d.abs_value
  rw [h, abs_mul, abs_of_pos (tenPow_pos _), tenPow_eq_of_le he, ← mul_assoc] at habs
  have hq := mul_right_cancel₀ (tenPow_pos _).ne' habs
  rw [show |(n : ℚ)| = ((n.natAbs : ℕ) : ℚ) by rw [Nat.cast_natAbs, Int.cast_abs]] at hq
  exact_mod_cast hq.symm

/-- A number that is worth `n` at a lower place than its last digit has fewer digits than `n`. -/
theorem natAbs_eq_of_value {n e : ℤ} (h : d.value = n * (10 : ℚ) ^ e) (he : e ≤ d.exponent) :
    n.natAbs = d.coefficient * 10 ^ (d.exponent - e).toNat := by
  have habs := d.abs_value
  rw [h, abs_mul, abs_of_pos (tenPow_pos _), tenPow_eq_of_le he, ← mul_assoc] at habs
  have hq := mul_right_cancel₀ (tenPow_pos _).ne' habs
  rw [show |(n : ℚ)| = ((n.natAbs : ℕ) : ℚ) by rw [Nat.cast_natAbs, Int.cast_abs]] at hq
  exact_mod_cast hq

/-- The count of digits of a number with zeros behind it. -/
theorem digitCount_mul_tenPow {c : ℕ} (hc : 0 < c) (k : ℕ) :
    digitCount (c * 10 ^ k) = digitCount c + k := by
  have hlow := tenTo_le_of_pos hc
  have hlt := lt_tenTo_digitCount c
  have hpos := digitCount_pos c
  rw [tenTo_eq] at hlow hlt
  apply le_antisymm
  · rw [digitCount_le_iff (by positivity), pow_add]
    exact Nat.mul_lt_mul_of_pos_right hlt (by positivity)
  · by_contra hcon
    have h : digitCount (c * 10 ^ k) ≤ digitCount c - 1 + k := by omega
    rw [digitCount_le_iff (by positivity), pow_add] at h
    exact absurd (Nat.lt_of_mul_lt_mul_right h) (by omega)

/-- The last place that is kept of a number which can be written is not above its last digit other
than zero. -/
theorem lastPlace_le {n e : ℤ} (hd : d.coefficient ≠ 0) (h : d.value = n * (10 : ℚ) ^ e)
    (hn : |n| < 10 ^ l.precision) (he : l.tiny ≤ e) : d.lastPlace l ≤ max e d.exponent := by
  have hnn : n.natAbs < 10 ^ l.precision := by
    have : (n.natAbs : ℤ) < 10 ^ l.precision := by rwa [← Int.abs_eq_natAbs]
    exact_mod_cast this
  unfold lastPlace
  rcases le_total d.exponent e with hle | hle
  · have hc := coefficient_eq_of_value h hle
    have hpos : 0 < n.natAbs := Nat.pos_of_ne_zero fun h0 => hd (by rw [hc, h0, Nat.zero_mul])
    have hcount := (digitCount_le_iff hpos).2 hnn
    rw [hc, digitCount_mul_tenPow hpos]
    omega
  · have hc := natAbs_eq_of_value h hle
    rw [hc] at hnn
    have hcount := (digitCount_le_iff (by positivity)).2 hnn
    rw [digitCount_mul_tenPow (Nat.pos_of_ne_zero hd)] at hcount
    omega

/-- Moving a number up over zeros keeps its value. -/
theorem value_rescale (tie : Tie) {place : ℤ} (hp : d.exponent < place)
    (h : 10 ^ (place - d.exponent).toNat ∣ d.coefficient) :
    (rescale tie place d).value = d.value := by
  have hq : (((d.coefficient / 10 ^ (place - d.exponent).toNat : ℕ) : ℚ)) * (10 : ℚ) ^ place =
      d.coefficient * (10 : ℚ) ^ d.exponent := by
    rw [tenPow_eq_of_le hp.le, ← mul_assoc]
    congr 1
    exact_mod_cast Nat.div_mul_cancel h
  unfold rescale
  rw [if_neg (not_le.2 hp), dropDigits_of_dvd tie h]
  cases hn : d.negative
  · rw [value_of_not_negative rfl, value_of_not_negative hn]
    exact hq
  · rw [value_of_negative rfl, value_of_negative hn]
    exact congrArg Neg.neg hq

/-- What is in front of the last place that is kept has no more digits than there are. -/
theorem coefficient_div_lt (hlt : d.exponent < d.lastPlace l) :
    d.coefficient / 10 ^ (d.lastPlace l - d.exponent).toNat < 10 ^ l.precision := by
  have hc := lt_tenTo_digitCount d.coefficient
  rw [tenTo_eq] at hc
  have hplace : d.exponent + digitCount d.coefficient - l.precision ≤ d.lastPlace l :=
    le_max_right _ _
  rw [Nat.div_lt_iff_lt_mul (by positivity), ← pow_add]
  exact hc.trans_le (Nat.pow_le_pow_right (by norm_num) (by omega))

/-- Fitting keeps the value of a number that can be written within the limits. -/
theorem fit_of_represents (h : l.Represents d.value) :
    Yields (d.fit l) fun r => r.value = d.value := by
  obtain ⟨n, e, hv, hn, he, hx⟩ := h
  unfold fit
  by_cases hd : d.coefficient = 0
  · rw [if_pos hd]
    exact .ok (by rw [value_eq_zero_iff.2 hd, value_eq_zero_iff]; exact hd)
  rw [if_neg hd]
  have hplace := lastPlace_le hd hv hn he
  -- whichever number is kept, it has the value and so is not too large
  have keep : ∀ r : Decimal, r.value = d.value →
      Yields (if r.coefficient ≠ 0 ∧ l.highest < r.adjusted then .error Signal.overflow else .ok r)
        fun r => r.value = d.value := by
    intro r hr
    rw [if_neg]
    · exact .ok hr
    · rintro ⟨h0, hlt⟩
      have := adjusted_lt h0 (hr ▸ hx)
      omega
  by_cases hlt : d.exponent < d.lastPlace l
  · have hde : d.exponent ≤ e := by omega
    have hc := coefficient_eq_of_value hv hde
    have hdvd : 10 ^ (d.lastPlace l - d.exponent).toNat ∣ d.coefficient := by
      rw [hc]
      exact Dvd.dvd.mul_left (Nat.pow_dvd_pow 10 (by omega)) _
    have hshort : ¬ l.precision < digitCount (rescale .toEven (d.lastPlace l) d).coefficient := by
      have hq := coefficient_div_lt hlt
      have hpos : 0 < d.coefficient / 10 ^ (d.lastPlace l - d.exponent).toNat :=
        Nat.div_pos (Nat.le_of_dvd (Nat.pos_of_ne_zero hd) hdvd) (by positivity)
      unfold rescale
      rw [if_neg (not_le.2 hlt), not_lt]
      show digitCount (dropDigits _ _ _) ≤ _
      rw [dropDigits_of_dvd _ hdvd]
      exact (digitCount_le_iff hpos).2 hq
    simp only [if_pos hlt, shed, if_neg hshort]
    exact keep _ (value_rescale _ hlt hdvd)
  · simp only [if_neg hlt]
    exact keep d rfl

/-- A number of no more digits than there are, at a place that is not too low, can be written
unless it is too large. -/
theorem represents_of_coefficient_lt (hc : d.coefficient < 10 ^ l.precision)
    (he : l.tiny ≤ d.exponent) (hx : d.coefficient ≠ 0 → d.adjusted ≤ l.highest) :
    l.Represents d.value := by
  by_cases hd : d.coefficient = 0
  · rw [value_eq_zero_iff.2 hd]
    exact l.represents_zero
  · refine ⟨d.digits, d.exponent, rfl, ?_, he, ?_⟩
    · rw [abs_digits]
      exact_mod_cast hc
    · exact d.abs_value_lt.trans_le (tenPow_le (by have := hx hd; omega))

/-- Whatever fitting results in can be written within the limits. -/
theorem represents_of_fit {r : Decimal} (h : d.fit l = .ok r) : l.Represents r.value := by
  unfold fit at h
  by_cases hd : d.coefficient = 0
  · rw [if_pos hd] at h
    cases h
    rw [value_eq_zero_iff.2 (by exact hd)]
    exact l.represents_zero
  rw [if_neg hd] at h
  have htiny : l.tiny ≤ d.lastPlace l := le_max_left _ _
  -- the bounds on digits and place hold of every number that is a candidate
  have keep : ∀ r' : Decimal, r'.coefficient < 10 ^ l.precision → l.tiny ≤ r'.exponent →
      (if r'.coefficient ≠ 0 ∧ l.highest < r'.adjusted then .error Signal.overflow else .ok r')
        = Except.ok r → l.Represents r.value := by
    intro r' hc he hr
    split at hr
    · cases hr
    · next hx =>
      cases hr
      refine represents_of_coefficient_lt hc he fun h0 => ?_
      by_contra hgt
      exact hx ⟨h0, not_le.1 hgt⟩
  by_cases hlt : d.exponent < d.lastPlace l
  · simp only [if_pos hlt] at h
    have hq := coefficient_div_lt hlt
    have hdrop := dropDigits_le .toEven d.coefficient (d.lastPlace l - d.exponent).toNat
    have hres : rescale .toEven (d.lastPlace l) d = ⟨d.negative,
        dropDigits .toEven d.coefficient (d.lastPlace l - d.exponent).toNat, d.lastPlace l⟩ :=
      if_neg (not_le.2 hlt)
    rw [hres] at h
    unfold shed at h
    split at h
    · refine keep _ ?_ ?_ h
      · have hp : 0 < 10 ^ l.precision := by positivity
        show dropDigits .toEven d.coefficient (d.lastPlace l - d.exponent).toNat / 10 < _
        omega
      · show l.tiny ≤ d.lastPlace l + 1
        omega
    · next hshort =>
      refine keep _ ?_ htiny h
      rcases Nat.eq_zero_or_pos (dropDigits .toEven d.coefficient
        (d.lastPlace l - d.exponent).toNat) with h0 | hpos
      · rw [h0]
        positivity
      · exact (digitCount_le_iff hpos).1 (not_lt.1 hshort)
  · simp only [if_neg hlt] at h
    refine keep d ?_ (by omega) h
    have hplace : d.exponent + digitCount d.coefficient - l.precision ≤ d.lastPlace l :=
      le_max_right _ _
    exact (digitCount_le_iff (Nat.pos_of_ne_zero hd)).1 (by omega)

/-! ## Sums -/

/-- An integer is read off its size and its sign, whichever sign a zero is given. -/
theorem digits_mk_natAbs (zeroSign : Bool) (s e : ℤ) :
    digits ⟨if s = 0 then zeroSign else s < 0, s.natAbs, e⟩ = s := by
  unfold digits
  rcases lt_trichotomy s 0 with h | h | h
  · rw [if_neg h.ne, if_pos (decide_eq_true h)]
    show -(s.natAbs : ℤ) = s
    omega
  · simp [h]
  · rw [if_neg h.ne', if_neg (by simpa using h.le)]
    show (s.natAbs : ℤ) = s
    omega

/-- The exact sum is worth the sum of the values. -/
theorem value_exactSum (a b : Decimal) : (exactSum a b).value = a.value + b.value := by
  have ha := signedAt_mul_tenPow (min_le_left a.exponent b.exponent)
  have hb := signedAt_mul_tenPow (min_le_right a.exponent b.exponent)
  have hd : (exactSum a b).digits =
      a.signedAt (min a.exponent b.exponent) + b.signedAt (min a.exponent b.exponent) :=
    digits_mk_natAbs _ _ _
  unfold value
  rw [hd]
  show ((_ + _ : ℤ) : ℚ) * (10 : ℚ) ^ min a.exponent b.exponent = _
  rw [Int.cast_add, add_mul, ha, hb]
  rfl

/-- Every term of a sum lies more than a place below the larger one before it is out of reach. -/
theorem floorPlace_le (l : Limits) (big : Decimal) :
    floorPlace l big ≤ big.exponent - 1 ∧ floorPlace l big + l.precision + 1 ≤ big.adjusted := by
  unfold floorPlace adjusted
  have := digitCount_pos big.coefficient
  split <;> omega

/-- A whole number of units that is less than one of them is nothing. -/
theorem eq_zero_of_abs_lt_tenPow {x : ℚ} {n F : ℤ} (hx : x = n * (10 : ℚ) ^ F)
    (hlt : |x| < (10 : ℚ) ^ F) : x = 0 := by
  rw [hx, abs_mul, abs_of_pos (tenPow_pos F)] at hlt
  have hn : |(n : ℚ)| < 1 := (mul_lt_iff_lt_one_left (tenPow_pos F)).1 hlt
  have hn0 : n = 0 := Int.abs_lt_one_iff.1 (by exact_mod_cast hn)
  rw [hx, hn0, Int.cast_zero, zero_mul]

/-- The last place of a sum that can be written is not far below the larger term: a sum that is
nearly as large would have too many digits. -/
theorem le_exponent_of_add {big small : ℚ} {n e F : ℤ} {k : ℕ}
    (hv : big + small = n * (10 : ℚ) ^ e) (hn : |n| < 10 ^ k)
    (hbig : (10 : ℚ) ^ (F + k + 1) ≤ |big|) (hsmall : |small| < (10 : ℚ) ^ F) : F ≤ e := by
  by_contra hgt
  have hbound : |big + small| < (10 : ℚ) ^ (F + k) := by
    have hnq : |(n : ℚ)| < (10 : ℚ) ^ k := by exact_mod_cast hn
    rw [hv, abs_mul, abs_of_pos (tenPow_pos e)]
    calc |(n : ℚ)| * (10 : ℚ) ^ e < (10 : ℚ) ^ k * (10 : ℚ) ^ e :=
          mul_lt_mul_of_pos_right hnq (tenPow_pos e)
      _ = (10 : ℚ) ^ (e + k) := by rw [tenPow_add, zpow_natCast, mul_comm]
      _ ≤ (10 : ℚ) ^ (F + k) := tenPow_le (by omega)
  have htri : |big| ≤ |big + small| + |small| := by
    simpa using abs_sub (big + small) small
  have hplace : (10 : ℚ) ^ F ≤ (10 : ℚ) ^ (F + k) := tenPow_le (by omega)
  have hnext : (10 : ℚ) ^ (F + k + 1) = (10 : ℚ) ^ (F + k) * 10 := by
    rw [tenPow_add]
    norm_num
  linarith [tenPow_pos (F + k)]

/-- A digit that stands in for a number does not change a sum that can be written: either it is the
number itself, or zero, or the sum would need a digit too many. -/
theorem value_standIn {big small : Decimal} (h : l.Represents (big.value + small.value)) :
    (standIn l big small).value = small.value := by
  unfold standIn
  split
  · next hfar =>
    obtain ⟨hbig, hadj⟩ := hfar
    by_cases hsmall : small.coefficient = 0
    · rw [if_pos hsmall, value_eq_zero_iff.2 hsmall, value_eq_zero_iff]
    · exfalso
      obtain ⟨n, e, hv, hn, -, -⟩ := h
      obtain ⟨hF, hF'⟩ := floorPlace_le l big
      generalize floorPlace l big = F at hadj hF hF'
      have hlt : |small.value| < (10 : ℚ) ^ F :=
        small.abs_value_lt.trans_le (tenPow_le (by omega))
      have hlow : (10 : ℚ) ^ (F + l.precision + 1) ≤ |big.value| :=
        (tenPow_le hF').trans (tenPow_adjusted_le_abs_value hbig)
      have hle : F ≤ e := le_exponent_of_add hv hn hlow hlt
      -- both the sum and the larger term count in units of `10 ^ F`, and so would the smaller
      have hunits : small.value =
          ((n * 10 ^ (e - F).toNat - big.digits * 10 ^ (big.exponent - F).toNat : ℤ) : ℚ) *
            (10 : ℚ) ^ F := by
        have hb : big.value = big.digits * (10 : ℚ) ^ big.exponent := rfl
        rw [tenPow_eq_of_le (show F ≤ big.exponent by omega)] at hb
        rw [tenPow_eq_of_le hle] at hv
        push_cast
        linarith
      exact hsmall (value_eq_zero_iff.1 (eq_zero_of_abs_lt_tenPow hunits hlt))
  · rfl

/-- A sum that can be written is exact. -/
theorem add_of_represents (h : working.Represents (a.value + b.value)) :
    Yields (a.add b) fun r => r.value = a.value + b.value := by
  unfold add
  simp only
  split
  · have hv : (exactSum a (standIn working a b)).value = a.value + b.value := by
      rw [value_exactSum, value_standIn h]
    exact (fit_of_represents (by rwa [hv])).mono fun r hr => hr.trans hv
  · split
    · have hv : (exactSum (standIn working b a) b).value = a.value + b.value := by
        rw [value_exactSum, value_standIn (by rwa [add_comm])]
      exact (fit_of_represents (by rwa [hv])).mono fun r hr => hr.trans hv
    · have hv := value_exactSum a b
      exact (fit_of_represents (by rwa [hv])).mono fun r hr => hr.trans hv

/-- A difference that can be written is exact. -/
theorem sub_of_represents (h : working.Represents (a.value - b.value)) :
    Yields (a.sub b) fun r => r.value = a.value - b.value := by
  have hv : a.value + b.neg.value = a.value - b.value := by rw [value_neg, sub_eq_add_neg]
  exact (add_of_represents (by rwa [hv])).mono fun r hr => hr.trans hv

/-- Whatever a sum results in can be written. -/
theorem represents_of_add {r : Decimal} (h : a.add b = .ok r) : working.Represents r.value :=
  represents_of_fit h

/-- A sum is exact exactly when it can be written. -/
theorem value_add_iff {r : Decimal} (h : a.add b = .ok r) :
    r.value = a.value + b.value ↔ working.Represents (a.value + b.value) :=
  ⟨fun hr => hr ▸ represents_of_add h, fun hr => (add_of_represents hr).of_eq h⟩

/-- A list is added to a number exactly if every partial sum can be written. -/
theorem foldlM_add_of_represents (start : Decimal) (ds : List Decimal)
    (h : ∀ front, front <+: ds → working.Represents (start.value + (front.map value).sum)) :
    Yields (ds.foldlM add start) fun r => r.value = start.value + (ds.map value).sum := by
  induction ds generalizing start with
  | nil => exact .pure (by simp)
  | cons d rest ih =>
    rw [List.foldlM_cons]
    have hd := h [d] (List.prefix_append [d] rest)
    rw [List.map_singleton, List.sum_singleton] at hd
    refine (add_of_represents hd).bind ?_
    intro s hs
    refine (ih s fun front hf => ?_).mono fun r hr => ?_
    · have := h (d :: front) ((List.prefix_cons_inj d).2 hf)
      rwa [List.map_cons, List.sum_cons, ← add_assoc, ← hs] at this
    · rw [hr, hs, List.map_cons, List.sum_cons, add_assoc]

/-- A list is added up exactly if every partial sum can be written. -/
theorem sum_of_represents {ds : List Decimal}
    (h : ∀ front, front <+: ds → working.Represents (front.map value).sum) :
    Yields (sum ds) fun r => r.value = (ds.map value).sum := by
  have := foldlM_add_of_represents zero ds fun front hf => by simpa using h front hf
  exact this.mono fun r hr => by simpa using hr

/-- Whatever a list adds up to can be written. -/
theorem represents_of_sum {ds : List Decimal} {r : Decimal} (h : sum ds = .ok r) :
    working.Represents r.value := by
  rcases List.eq_nil_or_concat ds with rfl | ⟨front, d, rfl⟩
  · cases h
    rw [value_zero]
    exact working.represents_zero
  · unfold sum at h
    rw [List.concat_eq_append, List.foldlM_append] at h
    obtain ⟨s, -, hs⟩ := bind_eq_ok.1 h
    obtain ⟨t, ht, hr⟩ := bind_eq_ok.1 hs
    cases hr
    exact represents_of_add ht

/-- A list is added up without rounding at any step exactly when every partial sum can be
written. -/
theorem sum_exact_throughout_iff (ds : List Decimal) :
    (∀ front, front <+: ds → Yields (sum front) fun r => r.value = (front.map value).sum) ↔
      ∀ front, front <+: ds → working.Represents (front.map value).sum := by
  constructor
  · intro h front hf
    obtain ⟨r, hr, hv⟩ := h front hf
    rw [← hv]
    exact represents_of_sum hr
  · intro h front hf
    exact sum_of_represents fun front' hf' => h front' (hf'.trans hf)

/-! ## Products and hundredths -/

/-- The exact product is worth the product of the values. -/
theorem value_exactProduct (a b : Decimal) : (exactProduct a b).value = a.value * b.value := by
  have hd : (exactProduct a b).digits = a.digits * b.digits := by
    unfold exactProduct digits
    cases a.negative <;> cases b.negative <;> simp
  unfold value
  rw [hd]
  show ((_ * _ : ℤ) : ℚ) * (10 : ℚ) ^ (a.exponent + b.exponent) = _
  rw [tenPow_add, Int.cast_mul]
  ring

/-- A product that can be written is exact. -/
theorem mul_of_represents (h : working.Represents (a.value * b.value)) :
    Yields (a.mul b) fun r => r.value = a.value * b.value := by
  have hv := value_exactProduct a b
  exact (fit_of_represents (by rwa [hv])).mono fun r hr => hr.trans hv

/-- The exact hundredth is worth a hundredth of the value. -/
theorem value_exactHundredth (d : Decimal) : d.exactHundredth.value = d.value / 100 := by
  have apply_sign : ∀ c e, c * (10 : ℚ) ^ e = d.coefficient * (10 : ℚ) ^ d.exponent / 100 →
      ∀ c' : ℕ, (c' : ℚ) = c →
        value { d with coefficient := c', exponent := e } = d.value / 100 := by
    intro c e h c' hc
    cases hn : d.negative
    · rw [value_of_not_negative rfl, value_of_not_negative hn, ← h, ← hc]
    · rw [value_of_negative rfl, value_of_negative hn, neg_div, ← h, ← hc]
  unfold exactHundredth
  split
  · next h =>
    refine apply_sign (d.coefficient / 100) d.exponent (by ring) _ ?_
    rw [Nat.cast_div (Nat.dvd_of_mod_eq_zero h) (by norm_num)]
    norm_num
  · split
    · next h =>
      refine apply_sign (d.coefficient / 10) (d.exponent - 1) ?_ _ ?_
      · rw [sub_eq_add_neg, tenPow_add]
        norm_num
        ring
      · rw [Nat.cast_div (Nat.dvd_of_mod_eq_zero h) (by norm_num)]
        norm_num
    · refine apply_sign d.coefficient (d.exponent - 2) ?_ _ rfl
      rw [sub_eq_add_neg, tenPow_add]
      norm_num
      ring

/-- A hundredth that can be written is exact. -/
theorem hundredth_of_represents (h : working.Represents (d.value / 100)) :
    Yields d.hundredth fun r => r.value = d.value / 100 := by
  have hv := value_exactHundredth d
  exact (fit_of_represents (by rwa [hv])).mono fun r hr => hr.trans hv

/-- A percentage is exact where the product and its hundredth can both be written. -/
theorem percentOf_of_represents {percent : Decimal}
    (h : working.Represents (d.value * percent.value))
    (h' : working.Represents (d.value * percent.value / 100)) :
    Yields (percentOf percent d) fun r => r.value = d.value * percent.value / 100 := by
  unfold percentOf
  refine (mul_of_represents h).bind ?_
  intro r hr
  rw [← hr] at h' ⊢
  exact hundredth_of_represents h'

end Decimal

end DealerPay
