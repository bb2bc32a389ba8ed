import DealerPay.Amount
import DealerPay.Proofs.Decimal.Exactness

/-!
# Numbers of one value

Numbers of one value other than zero differ by zeros at the end of their digits, and no text that is
shown of an amount tells them apart.

* `Decimal.padded` is a number with zeros behind its digits; `Decimal.eq_padded_of_le` finds them
  where two numbers have one value.
* `Decimal.rescale_eq_of_value`: moving a number to a place does not depend on its zeros, whatever
  the tie. So does the text of a fixed number of decimals (`Decimal.fixed_eq_of_value`).
* `Amount.plainText_eq_of_value`: the text without zeros at its end does not depend on them either.

A zero is left out: its sign can be seen in every text.
-/

namespace DealerPay

/-! ## Rounding a quotient -/

/-- A common factor of a quotient does not change how it is rounded. -/
theorem divRound_mul_right (tie : Tie) (n d : ℕ) {m : ℕ} (hm : 0 < m) :
    divRound tie (n * m) (d * m) = divRound tie n d := by
  have hcompare : Ord.compare (2 * (n % d * m)) (d * m) = Ord.compare (2 * (n % d)) d := by
    rw [← mul_assoc]
    rcases lt_trichotomy (2 * (n % d)) d with h | h | h
    · rw [compare_lt_iff_lt.2 h, compare_lt_iff_lt.2 (Nat.mul_lt_mul_of_pos_right h hm)]
    · rw [compare_eq_iff_eq.2 h, compare_eq_iff_eq.2 (congrArg (· * m) h)]
    · rw [compare_gt_iff_gt.2 h, compare_gt_iff_gt.2 (Nat.mul_lt_mul_of_pos_right h hm)]
  unfold divRound Tie.roundsUp
  rw [Nat.mul_div_mul_right n d hm, Nat.mul_mod_mul_right, hcompare]

/-- Zeros that are dropped again do not change what is left. -/
theorem dropDigits_mul_tenPow (tie : Tie) {c : ℕ} (hc : 0 < c) (k j : ℕ) :
    dropDigits tie (c * 10 ^ j) (k + j) = dropDigits tie c k := by
  unfold dropDigits
  rw [Decimal.digitCount_mul_tenPow hc, tenTo_eq, tenTo_eq, pow_add,
    divRound_mul_right tie c _ (by positivity)]
  simp only [Nat.add_lt_add_iff_right]

namespace Decimal

variable {x y : Decimal}

/-! ## Zeros at the end -/

/-- A number with zeros behind its digits. -/
def padded (d : Decimal) (zeros : ℕ) : Decimal :=
  ⟨d.negative, d.coefficient * 10 ^ zeros, d.exponent - zeros⟩

/-- Of two numbers of one value other than zero, the one with the lower exponent is the other one
with zeros behind its digits. -/
theorem eq_padded_of_le (he : x.exponent ≤ y.exponent) (hv : x.value = y.value)
    (hne : y.value ≠ 0) : x = y.padded (y.exponent - x.exponent).toNat := by
  have hc : x.coefficient = y.coefficient * 10 ^ (y.exponent - x.exponent).toNat := by
    have habs : y.digits.natAbs = y.coefficient := by
      have hsize := y.abs_digits
      rw [Int.abs_eq_natAbs] at hsize
      exact_mod_cast hsize
    rw [← habs]
    exact coefficient_eq_of_value hv he
  have hn : x.negative = y.negative := by
    have hsign := isNegative_iff (d := x)
    rw [hv, ← isNegative_iff (d := y), Bool.eq_iff_iff.symm] at hsign
    unfold isNegative at hsign
    rwa [(bne_iff_ne.2 (mt value_eq_zero_iff.2 (hv ▸ hne)) : (x.coefficient != 0) = true),
      (bne_iff_ne.2 (mt value_eq_zero_iff.2 hne) : (y.coefficient != 0) = true), Bool.and_true,
      Bool.and_true] at hsign
  have hexp : x.exponent = y.exponent - (y.exponent - x.exponent).toNat := by omega
  unfold padded
  rw [← hc, ← hn, ← hexp]

/-- Whatever zeros at the end do not change is the same for numbers of one value other than zero. -/
theorem eq_of_value_of_padded {α : Type} {f : Decimal → α}
    (hf : ∀ d : Decimal, d.coefficient ≠ 0 → ∀ zeros, f (d.padded zeros) = f d)
    (hv : x.value = y.value) (hne : x.value ≠ 0) : f x = f y := by
  rcases le_total x.exponent y.exponent with he | he
  · rw [eq_padded_of_le he hv (hv ▸ hne)]
    exact hf y (mt value_eq_zero_iff.2 (hv ▸ hne)) _
  · rw [eq_padded_of_le he hv.symm hne]
    exact (hf x (mt value_eq_zero_iff.2 hne) _).symm

/-! ## A fixed number of decimals -/

/-- Zeros at the end do not change what a number is when it is moved to a place. -/
theorem rescale_padded {d : Decimal} (hd : d.coefficient ≠ 0) (tie : Tie) (place : ℤ) (zeros : ℕ) :
    (d.padded zeros).rescale tie place = d.rescale tie place := by
  have hpos := Nat.pos_of_ne_zero hd
  unfold rescale padded
  simp only
  by_cases hlow : place ≤ d.exponent - zeros
  · rw [if_pos hlow, if_pos (by omega), scaled_eq, scaled_eq, tenTo_eq, tenTo_eq, mul_assoc,
      ← pow_add]
    congr
    omega
  · rw [if_neg hlow]
    by_cases hhigh : place ≤ d.exponent
    · -- some of the zeros are dropped, and no digit
      have hsplit : zeros = (d.exponent - place).toNat + (place - (d.exponent - zeros)).toNat := by
        omega
      have hdrop := dropDigits_of_dvd tie (c := d.coefficient * 10 ^ zeros)
        (k := (place - (d.exponent - zeros)).toNat)
        (Dvd.dvd.mul_left (Nat.pow_dvd_pow 10 (by omega)) _)
      rw [if_pos hhigh, hdrop, scaled_eq, tenTo_eq]
      congr
      rw [Nat.div_eq_of_eq_mul_left (by positivity)]
      rw [mul_assoc, ← pow_add, ← hsplit]
    · have hsplit : (place - (d.exponent - zeros)).toNat = (place - d.exponent).toNat + zeros := by
        omega
      rw [if_neg hhigh, hsplit, dropDigits_mul_tenPow tie hpos]

/-- Numbers of one value other than zero are moved to a place alike. -/
theorem rescale_eq_of_value (tie : Tie) (place : ℤ) (hv : x.value = y.value) (hne : x.value ≠ 0) :
    x.rescale tie place = y.rescale tie place :=
  eq_of_value_of_padded (fun _ hd zeros => rescale_padded hd tie place zeros) hv hne

/-- Numbers of one value other than zero have one text of so many decimals. -/
theorem fixed_eq_of_value (places : ℕ) (hv : x.value = y.value) (hne : x.value ≠ 0) :
    x.fixed places = y.fixed places := by
  unfold fixed
  rw [rescale_eq_of_value .toEven _ hv hne]

/-! ## No zeros at the end -/

/-- A number without the zeros at the end of its digits. -/
def trimmed (d : Decimal) : Decimal :=
  ⟨d.negative, (trimZeros d.coefficient).1, d.exponent + (trimZeros d.coefficient).2⟩

/-- Zeros at the end are found, besides those that there were. -/
theorem trimZeros_mul_tenPow {c : ℕ} (hc : 0 < c) (zeros : ℕ) :
    trimZeros (c * 10 ^ zeros) = ((trimZeros c).1, (trimZeros c).2 + zeros) := by
  induction zeros with
  | zero => simp
  | succ k ih =>
    have hpos : c * 10 ^ (k + 1) ≠ 0 := by positivity
    have hzero : c * 10 ^ (k + 1) % 10 = 0 := by
      rw [pow_succ, ← mul_assoc]
      exact Nat.mul_mod_left _ _
    have hquot : c * 10 ^ (k + 1) / 10 = c * 10 ^ k := by
      rw [pow_succ, ← mul_assoc]
      exact Nat.mul_div_cancel _ (by norm_num)
    rw [trimZeros, if_neg hpos, if_pos hzero, hquot, ih]
    rfl

/-- Numbers of one value other than zero are the same without the zeros at their end. -/
theorem trimmed_eq_of_value (hv : x.value = y.value) (hne : x.value ≠ 0) :
    x.trimmed = y.trimmed := by
  refine eq_of_value_of_padded (fun d hd zeros => ?_) hv hne
  unfold trimmed padded
  simp only [trimZeros_mul_tenPow (Nat.pos_of_ne_zero hd)]
  congr 1
  push_cast
  ring

/-- A number other than zero that can be written is brought to normal form by taking away the zeros
at its end. -/
theorem normalize_of_represents {d r : Decimal} (hd : working.Represents d.value)
    (hne : d.value ≠ 0) (h : d.normalize = .ok r) : r = d.trimmed := by
  obtain ⟨f, hf, hvalue⟩ := fit_of_represents hd
  have hfne : f.coefficient ≠ 0 := mt value_eq_zero_iff.2 (hvalue ▸ hne)
  unfold normalize at h
  rw [hf] at h
  simp only [bind, Except.bind, if_neg hfne, pure_eq_ok] at h
  rw [← h]
  exact trimmed_eq_of_value hvalue (hvalue ▸ hne)

end Decimal

namespace Amount

/-- A number that is shown as an amount is in normal form and written without an exponent. -/
theorem plainText_eq_ok {d : Decimal} {text : String} (h : plainText d = .ok text) :
    ∃ r, d.normalize = .ok r ∧ text = r.positional := by
  simp only [plainText, plain, bind_eq_ok, pure_eq_ok, liftM_eq_ok] at h
  obtain ⟨d', hd', r, hr, htext⟩ := h
  have hread : d' = d := by
    simp only [ofValue, isAbsent, Value.isText, numeral?, Value.ofDecimal, Bool.false_eq_true,
      if_false] at hd'
    split at hd'
    · cases hd'
    · split at hd'
      · cases hd'
      · exact (Except.ok.inj hd').symm
  exact ⟨r, hread ▸ hr, htext.symm⟩

/-- Numbers of one value other than zero, which can be written, are shown alike. -/
theorem plainText_eq_of_value {x y : Decimal} {text text' : String}
    (hx : Decimal.working.Represents x.value) (hv : x.value = y.value) (hne : x.value ≠ 0)
    (h : plainText x = .ok text) (h' : plainText y = .ok text') : text = text' := by
  obtain ⟨r, hr, rfl⟩ := plainText_eq_ok h
  obtain ⟨r', hr', rfl⟩ := plainText_eq_ok h'
  rw [Decimal.normalize_of_represents hx hne hr,
    Decimal.normalize_of_represents (hv ▸ hx) (hv ▸ hne) hr', Decimal.trimmed_eq_of_value hv hne]

end Amount

end DealerPay
