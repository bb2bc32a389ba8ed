import DealerPay.Pay.Earning
import DealerPay.Pay.Milestone
import DealerPay.Proofs.Decimal.Size
import DealerPay.Proofs.Outcome

/-!
# Amounts

Which values are amounts. The range is checked on a magnitude of twenty-eight digits, so it ends a
little below the limit, and a number too large for any magnitude is no refusal but an overflow.

* `Decimal.IsAmount` is the range that is accepted, `Decimal.Overflows` the one that is too large
  for arithmetic.
* `Amount.ofValue_eq_ok_iff` says which values are accepted and as what. The others are refused
  (`Amount.ofValue_eq_amount_iff`) or end in a signal (`Amount.ofValue_eq_signal_iff`).
* `Amount.plainText_of_isAmount` and `Amount.dollars_of_not_overflows`: amounts can be shown.
-/

namespace DealerPay

namespace Decimal

variable {d m : Decimal}

/-- Whether a number is within the range of amounts: its magnitude does not round to the limit. -/
def IsAmount (d : Decimal) : Prop := |d.value| < 10 ^ 15 - 5 / 10 ^ 14

/-- Whether a number is too large for arithmetic: its magnitude rounds to a power of ten that there
is not. -/
def Overflows (d : Decimal) : Prop :=
  (10 : ℚ) ^ (1000000 : ℤ) - 5 * (10 : ℚ) ^ (999971 : ℤ) ≤ |d.value|

/-- Zero is an amount. -/
theorem isAmount_zero : zero.IsAmount := by
  unfold IsAmount
  rw [value_zero]
  norm_num

/-- One is an amount. -/
theorem isAmount_one : one.IsAmount := by
  unfold IsAmount
  rw [value_one]
  norm_num

/-- Whether a number is in the range of amounts is a matter of its value. -/
theorem isAmount_iff_of_value (h : d.value = m.value) : d.IsAmount ↔ m.IsAmount := by
  unfold IsAmount
  rw [h]

/-- An amount stays below the limit. -/
theorem IsAmount.abs_le (h : d.IsAmount) : |d.value| ≤ 10 ^ 15 := by
  unfold IsAmount at h
  have : (0 : ℚ) ≤ 5 / 10 ^ 14 := by norm_num
  linarith

/-- A number well below the limit is an amount. -/
theorem isAmount_of_abs_le (h : |d.value| ≤ 10 ^ 14) : d.IsAmount := by
  apply h.trans_lt
  norm_num

/-- Below a bound that can be written nothing is too large for arithmetic. -/
theorem not_overflows_of_abs_le {k : ℕ} (hk : k ≤ 999999) (h : |d.value| ≤ 10 ^ k) :
    ¬ d.Overflows := by
  unfold Overflows
  have hsplit : (10 : ℚ) ^ (1000000 : ℤ) = 10 * (10 : ℚ) ^ (999999 : ℤ) := by
    rw [show (1000000 : ℤ) = 1 + 999999 by norm_num, tenPow_add, zpow_one]
  have hsmall : (10 : ℚ) ^ (999971 : ℤ) ≤ (10 : ℚ) ^ (999999 : ℤ) := tenPow_le (by norm_num)
  have hbound : |d.value| ≤ (10 : ℚ) ^ (999999 : ℤ) := by
    rw [← zpow_natCast] at h
    exact h.trans (tenPow_le (by omega))
  have hpos := tenPow_pos 999999
  rw [hsplit, not_le]
  generalize (10 : ℚ) ^ (999999 : ℤ) = u at hsmall hbound hpos
  generalize (10 : ℚ) ^ (999971 : ℤ) = w at hsmall
  linarith

/-- Two amounts have a product. -/
theorem IsAmount.mul (hd : d.IsAmount) (hm : m.IsAmount) :
    Yields (d.mul m) fun r => |r.value| ≤ 10 ^ 30 := by
  refine (mul_of_abs_le_tenPow (m := 1) (j := 15) (by simpa using hd.abs_le) hm.abs_le
    (by norm_num) (by norm_num)).mono fun r hr => ?_
  norm_num at hr ⊢
  exact hr

/-- There are percentages of an amount. -/
theorem IsAmount.percentOf (hd : d.IsAmount) (hm : m.IsAmount) :
    Yields (percentOf m d) fun r => |r.value| ≤ 10 ^ 30 := by
  refine (percentOf_of_abs_le_tenPow (m := 1) (j := 15) (k := 13) (by simpa using hd.abs_le)
    hm.abs_le (by norm_num) (by norm_num)).mono fun r hr => hr.trans ?_
  norm_num

/-- A number that is too large for arithmetic is no amount. -/
theorem not_isAmount_of_overflows (h : d.Overflows) : ¬ d.IsAmount := fun hd =>
  not_overflows_of_abs_le (by norm_num) hd.abs_le h

/-- The limit of amounts. -/
theorem value_limit : Amount.limit.value = 10 ^ 15 := by
  rw [value_of_not_negative rfl]
  norm_num [Amount.limit]

/-- The magnitude of a number has no result exactly when the number is too large. -/
theorem magnitude_eq_error_iff {s : Signal} :
    d.magnitude = .error s ↔ s = .overflow ∧ d.Overflows := by
  unfold magnitude Overflows
  by_cases hd : d.coefficient = 0
  · have hfit : ({ d with negative := false } : Decimal).fit working ≠ .error s := by
      unfold fit
      rw [if_pos hd]
      exact fun h => nomatch h
    refine iff_of_false hfit ?_
    rintro ⟨-, hle⟩
    rw [value_eq_zero_iff.2 hd, abs_zero, sub_nonpos] at hle
    have h5 : 5 * (10 : ℚ) ^ (999971 : ℤ) < (10 : ℚ) ^ (999971 + 1 : ℤ) := by
      rw [tenPow_add, zpow_one, mul_comm]
      exact mul_lt_mul_of_pos_left (by norm_num) (tenPow_pos _)
    have hlow : (10 : ℚ) ^ (999971 + 1 : ℤ) ≤ (10 : ℚ) ^ (1000000 : ℤ) := tenPow_le (by norm_num)
    exact absurd (hlow.trans hle) (not_le.2 h5)
  · have hiff := fit_eq_error_iff (d := { d with negative := false }) hd (s := s)
    rwa [value_abs, abs_abs] at hiff

/-- The magnitude of a number reaches the limit exactly when the number is no amount. -/
theorem limit_le_magnitude_iff (h : d.magnitude = .ok m) : Amount.limit ≤ m ↔ ¬ d.IsAmount := by
  unfold magnitude at h
  unfold IsAmount
  rw [le_iff, value_limit, not_lt]
  by_cases hd : d.coefficient = 0
  · unfold fit at h
    rw [if_pos hd] at h
    cases h
    rw [value_eq_zero_iff.2 (by exact hd), value_eq_zero_iff.2 hd, abs_zero]
    constructor <;> intro hle <;> norm_num at hle
  · rw [fit_of_coefficient_ne_zero (d := { d with negative := false }) hd] at h
    split at h
    · cases h
    · cases h
      have hiff := tenPow_le_abs_value_rounded_iff (d := { d with negative := false }) hd
        (p := 15) (by norm_num)
      have hsign := ({ d with negative := false } : Decimal).negative_rounded
      rw [value_abs, abs_abs] at hiff
      rw [← abs_of_nonneg (a := value _) ?_]
      · norm_num at hiff ⊢
        exact hiff
      · rw [value_of_not_negative hsign]
        exact mul_nonneg (Nat.cast_nonneg _) (tenPow_pos _).le

end Decimal

namespace Amount

variable {v : Value} {d : Decimal}

/-! ## Reading amounts -/

/-- An absent value spells no number. -/
theorem numeral?_of_isAbsent (h : isAbsent v = true) : numeral? v = none := by
  cases v with
  | null => rfl
  | text s =>
    have hs : s = "" := by simpa [isAbsent, Value.isText] using h
    subst hs
    decide +kernel
  | _ => simp [isAbsent, Value.isText] at h

/-- What becomes of a value that spells a finite number: it is accepted as that number, refused for
its size, or too large for arithmetic. -/
theorem ofValue_of_finite (hn : numeral? v = some (.finite d)) :
    (d.IsAmount ∧ ofValue v = .ok d) ∨
      (¬ d.IsAmount ∧ ¬ d.Overflows ∧ ofValue v = .error (.amount (.outOfRange v))) ∨
      (d.Overflows ∧ ofValue v = .error (.signal .overflow)) := by
  have hpresent : ¬ isAbsent v = true := fun h => by
    rw [numeral?_of_isAbsent h] at hn
    cases hn
  unfold ofValue
  rw [if_neg hpresent, hn]
  cases hm : d.magnitude with
  | error s =>
    obtain ⟨rfl, hlarge⟩ := Decimal.magnitude_eq_error_iff.1 hm
    exact .inr (.inr ⟨hlarge, by simp only [hm]⟩)
  | ok m =>
    have hlimit := Decimal.limit_le_magnitude_iff hm
    have hsmall : ¬ d.Overflows := fun h => by
      rw [Decimal.magnitude_eq_error_iff.2 ⟨rfl, h⟩] at hm
      cases hm
    by_cases hd : d.IsAmount
    · left
      refine ⟨hd, ?_⟩
      simp only [hm]
      rw [if_neg (fun h => hlimit.1 h hd)]
    · right
      left
      refine ⟨hd, hsmall, ?_⟩
      simp only [hm]
      rw [if_pos (hlimit.2 hd)]

/-- A value that spells no finite number is absent or refused. -/
theorem ofValue_of_not_finite (hn : ∀ d, numeral? v ≠ some (.finite d)) :
    (isAbsent v = true ∧ ofValue v = .ok .zero) ∨
      (isAbsent v = false ∧ ∃ e, ofValue v = .error (.amount e)) := by
  unfold ofValue
  cases hv : isAbsent v with
  | true => exact .inl ⟨rfl, if_pos rfl⟩
  | false =>
    right
    refine ⟨rfl, ?_⟩
    rw [if_neg Bool.false_ne_true]
    cases hnum : numeral? v with
    | none => exact ⟨_, rfl⟩
    | some n =>
      cases n with
      | finite d => exact absurd hnum (hn d)
      | infinite negative => exact ⟨_, rfl⟩
      | notNumber negative signalling payload => exact ⟨_, rfl⟩

/-- The values that are accepted: absent ones as zero, and those that spell a number in range as
that number. -/
theorem ofValue_eq_ok_iff :
    ofValue v = .ok d ↔
      (isAbsent v = true ∧ d = .zero) ∨ (numeral? v = some (.finite d) ∧ d.IsAmount) := by
  constructor
  · intro h
    by_cases hn : ∃ x, numeral? v = some (.finite x)
    · obtain ⟨x, hx⟩ := hn
      rcases ofValue_of_finite hx with ⟨hd, hv⟩ | ⟨-, -, hv⟩ | ⟨-, hv⟩
      · rw [hv] at h
        cases h
        exact .inr ⟨hx, hd⟩
      · rw [hv] at h
        cases h
      · rw [hv] at h
        cases h
    · rcases ofValue_of_not_finite (not_exists.1 hn) with ⟨habs, hv⟩ | ⟨-, e, hv⟩
      · rw [hv] at h
        cases h
        exact .inl ⟨habs, rfl⟩
      · rw [hv] at h
        cases h
  · rintro (⟨habs, rfl⟩ | ⟨hn, hd⟩)
    · unfold ofValue
      rw [if_pos habs]
    · rcases ofValue_of_finite hn with ⟨-, hv⟩ | ⟨hd', -, -⟩ | ⟨hlarge, -⟩
      · exact hv
      · exact absurd hd hd'
      · exact absurd hd (Decimal.not_isAmount_of_overflows hlarge)

/-- Whether a value spells a number that is too large for arithmetic. -/
def IsTooLarge (v : Value) : Prop := ∃ d, numeral? v = some (.finite d) ∧ d.Overflows

/-- Whether a value is a bad one: neither absent nor a number in range, and not too large for
arithmetic. -/
def IsBad (v : Value) : Prop :=
  isAbsent v = false ∧ ∀ d, numeral? v = some (.finite d) → ¬ d.IsAmount ∧ ¬ d.Overflows

/-- A value is accepted, refused as a bad one, or too large for arithmetic, and only one of them. -/
theorem ofValue_cases (v : Value) :
    (¬ IsBad v ∧ ¬ IsTooLarge v ∧ ∃ d, ofValue v = .ok d) ∨
      (IsBad v ∧ ¬ IsTooLarge v ∧ ∃ e, ofValue v = .error (.amount e)) ∨
      (¬ IsBad v ∧ IsTooLarge v ∧ ofValue v = .error (.signal .overflow)) := by
  by_cases hn : ∃ x, numeral? v = some (.finite x)
  · obtain ⟨x, hx⟩ := hn
    have hpresent : isAbsent v = false := by
      rw [← Bool.not_eq_true]
      intro h
      rw [numeral?_of_isAbsent h] at hx
      cases hx
    have hlarge : IsTooLarge v ↔ x.Overflows := by
      simp only [IsTooLarge, hx, Option.some.injEq, Numeral.finite.injEq, exists_eq_left']
    have hbad : IsBad v ↔ ¬ x.IsAmount ∧ ¬ x.Overflows := by
      simp only [IsBad, hx, hpresent, Option.some.injEq, Numeral.finite.injEq, forall_eq', true_and]
    rw [hlarge, hbad]
    rcases ofValue_of_finite hx with ⟨hd, hv⟩ | ⟨hd, hsmall, hv⟩ | ⟨hover, hv⟩
    · exact .inl ⟨fun h => h.1 hd, fun h => Decimal.not_isAmount_of_overflows h hd, x, hv⟩
    · exact .inr (.inl ⟨⟨hd, hsmall⟩, hsmall, _, hv⟩)
    · exact .inr (.inr ⟨fun h => h.2 hover, hover, hv⟩)
  · have hnone := not_exists.1 hn
    have hsmall : ¬ IsTooLarge v := by
      rintro ⟨d, hd, -⟩
      exact hnone d hd
    rcases ofValue_of_not_finite hnone with ⟨habs, hv⟩ | ⟨hpresent, e, hv⟩
    · left
      refine ⟨?_, hsmall, _, hv⟩
      rintro ⟨hpresent, -⟩
      rw [habs] at hpresent
      cases hpresent
    · exact .inr (.inl ⟨⟨hpresent, fun d hd => absurd hd (hnone d)⟩, hsmall, e, hv⟩)

/-- What is accepted is an amount. -/
theorem isAmount_of_ofValue (h : ofValue v = .ok d) : d.IsAmount := by
  rcases ofValue_eq_ok_iff.1 h with ⟨-, rfl⟩ | ⟨-, hd⟩
  · exact Decimal.isAmount_zero
  · exact hd

/-- What is accepted where an amount may be absent is accepted as an amount. -/
theorem ofValue_of_optional {o : Option Decimal} (h : optional v = .ok o) :
    ∀ d ∈ o, ofValue v = .ok d := by
  unfold optional at h
  intro d hd
  split at h
  · cases h
    cases hd
  · cases hv : ofValue v with
    | error e =>
      rw [hv] at h
      cases h
    | ok x =>
      rw [hv] at h
      cases h
      cases hd
      rfl

/-- A number in range is read as itself. -/
theorem ofValue_ofDecimal (h : d.IsAmount) : ofValue (.ofDecimal d) = .ok d :=
  ofValue_eq_ok_iff.2 (.inr ⟨rfl, h⟩)

/-! ## Showing amounts -/

/-- An amount can be shown. -/
theorem plainText_of_isAmount (h : d.IsAmount) : Yields (plainText d) fun _ => True := by
  have hlimit : Decimal.working.Represents (10 ^ 15) :=
    represents_of_eq 1 15 (by norm_num) (by norm_num) (by norm_num)
  have hnormal : Yields d.normalize fun _ => True := by
    unfold Decimal.normalize
    refine (Decimal.fit_of_abs_le hlimit h.abs_le).bind ?_
    intro r _
    split
    · exact .pure trivial
    · exact .pure trivial
  unfold plainText plain
  exact .bind_of_eq (ofValue_ofDecimal h) (hnormal.lift.bind fun _ _ => .pure trivial)

/-- A number that is not too large for arithmetic can be shown in whole dollars. -/
theorem dollars_of_not_overflows (h : ¬ d.Overflows) :
    Yields (dollars (.ofDecimal d)) fun _ => True := by
  have hn : numeral? (.ofDecimal d) = some (.finite d) := rfl
  unfold dollars
  rcases ofValue_of_finite hn with ⟨-, hv⟩ | ⟨-, -, hv⟩ | ⟨hlarge, -⟩
  · rw [hv]
    exact .ok trivial
  · rw [hv]
    exact .ok trivial
  · exact absurd hlarge h

end Amount

end DealerPay
