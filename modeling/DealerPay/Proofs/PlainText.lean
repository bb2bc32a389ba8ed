import DealerPay.Proofs.Decimal.Plain
import DealerPay.Proofs.Numerals

/-!
# Amounts shown as plain numbers

An amount that has no more digits than arithmetic keeps is shown without losing any of them.

* `Decimal.IsShort` is that class of numbers; it looks at values and not at spellings.
* `Amount.plain_of_isShort`: the text is canonical and is read back with the value of the amount.
* `Amount.plain_isFaithful`: besides, amounts other than zero have one text exactly if they have one
  value.

A zero keeps its sign in the text, so that two zeros may be shown in two ways.
-/

namespace DealerPay

/-- Whether a number has at most twenty-eight digits that count, none of them below the thousandth
decimal place. -/
def Decimal.IsShort (d : Decimal) : Prop :=
  ∃ n e : ℤ, d.value = n * (10 : ℚ) ^ e ∧ |n| < 10 ^ 28 ∧ -1000 ≤ e

/-- Arithmetic does not round an amount of so few digits. -/
theorem Decimal.IsShort.represents {d : Decimal} (h : d.IsShort) (hd : d.IsAmount) :
    Decimal.working.Represents d.value := by
  obtain ⟨n, e, hvalue, hn, he⟩ := h
  have htiny : Decimal.working.tiny = -1000026 := by decide
  refine ⟨n, e, hvalue, hn, by omega, ?_⟩
  calc |d.value| ≤ 10 ^ 15 := hd.abs_le
    _ = (10 : ℚ) ^ (15 : ℤ) := by norm_num
    _ < (10 : ℚ) ^ (Decimal.working.highest + 1) :=
        zpow_lt_zpow_right₀ (by norm_num) (by decide)

namespace Amount

open Numeral

variable {v : Value} {d r x : Decimal}

/-- Values that mean one amount are shown as the amount is. -/
theorem plain_eq_plainText (hv : ofValue v = .ok d) : plain v = plainText d := by
  unfold plainText plain
  rw [hv, ofValue_ofDecimal (isAmount_of_ofValue hv)]

/-- The positional text of a normal form is read back with its value. -/
theorem ofValue_positional (hr : r.IsNormal) (hshort : r.IsShort) (hamount : r.IsAmount) :
    ∃ back, ofValue (.text r.positional) = .ok back ∧ back.value = r.value := by
  obtain ⟨front, fraction, hform, hlength, hvalue⟩ := hr.exists_isCanonical
  obtain ⟨n, e, hplace, -, he⟩ := hshort
  have hlow : -1000 ≤ r.exponent := hr.le_exponent hplace he (by norm_num)
  have hexp : (written r.negative front fraction 0).exponent = 0 - fraction.length := rfl
  have hback : (written r.negative front fraction 0).IsAmount :=
    (Decimal.isAmount_iff_of_value hvalue).2 hamount
  have hspell := hback.spellable (by omega) (by omega)
  exact ⟨_, ofValue_eq_ok_iff.2 (.inr ⟨hform.ofText?_eq hspell, hback⟩), hvalue⟩

/-- An amount of so few digits is shown in a text without a zero that could be left out, which is read
back with its value. -/
theorem plain_of_isShort (hv : ofValue v = .ok d) (hd : d.IsShort) :
    ∃ text, plain v = .ok text ∧
      (∃ negative front fraction, IsCanonical text.toList negative front fraction) ∧
      ∃ back, ofValue (.text text) = .ok back ∧ back.value = d.value := by
  have hamount := isAmount_of_ofValue hv
  obtain ⟨r, hr, hnormal, hvalue⟩ := Decimal.normalize_isNormal (hd.represents hamount)
  have hshort : r.IsShort := by
    unfold Decimal.IsShort
    rw [hvalue]
    exact hd
  have hamount' : r.IsAmount := (Decimal.isAmount_iff_of_value hvalue).2 hamount
  obtain ⟨front, fraction, hform, -⟩ := hnormal.exists_isCanonical
  refine ⟨r.positional, ?_, ⟨_, front, fraction, hform⟩,
    hvalue ▸ ofValue_positional hnormal hshort hamount'⟩
  exact bind_eq_ok.2 ⟨d, hv, bind_eq_ok.2 ⟨r, liftM_eq_ok.2 hr, rfl⟩⟩

/-- An amount of at most twenty-eight digits that count, none of them below the thousandth decimal
place, is shown in plain text without an exponent and without a zero that could be left out. The
text is read back as an amount of the same value. Unless it is zero, another amount of this kind has
its text exactly if it has the same value, however the two are spelled. -/
theorem plain_isFaithful (hv : ofValue v = .ok d) (hd : d.IsShort) :
    ∃ text, plain v = .ok text ∧
      (∃ negative front fraction, IsCanonical text.toList negative front fraction) ∧
      (∃ back, ofValue (.text text) = .ok back ∧ back.value = d.value) ∧
      ∀ (w : Value) (x : Decimal), ofValue w = .ok x → x.IsShort → d.value ≠ 0 →
        (plain w = .ok text ↔ x.value = d.value) := by
  obtain ⟨text, htext, hform, back, hback, hvalue⟩ := plain_of_isShort hv hd
  refine ⟨text, htext, hform, ⟨back, hback, hvalue⟩, fun w x hw hx hne => ?_⟩
  obtain ⟨text', htext', -, back', hback', hvalue'⟩ := plain_of_isShort hw hx
  constructor
  · intro h
    -- one text is read in one way
    rw [htext', Except.ok.injEq] at h
    rw [h, hback, Except.ok.injEq] at hback'
    rw [← hvalue', ← hback', hvalue]
  · intro h
    rw [plain_eq_plainText hv] at htext
    rw [plain_eq_plainText hw] at htext' ⊢
    have hrep := hd.represents (isAmount_of_ofValue hv)
    rw [htext', plainText_eq_of_value hrep h.symm hne htext htext']

/-- A loss of twelve and a half, with a zero at the end. -/
def halfLoss : Decimal := ⟨true, 1250, -2⟩

/-- The loss has few digits. -/
theorem isShort_halfLoss : halfLoss.IsShort := ⟨-1250, -2, rfl, by norm_num, by norm_num⟩

/-- The loss is shown without the zero at its end, is read back with its value, and is shown alike if
it is spelled with an exponent. -/
theorem plain_isFaithful_halfLoss :
    ofValue (.text "-12.50") = .ok halfLoss ∧ halfLoss.IsShort ∧
      plain (.text "-12.50") = .ok "-12.5" ∧
      (∃ back, ofValue (.text "-12.5") = .ok back ∧ back.value = -25 / 2) ∧
      plain (.text "-125000e-4") = .ok "-12.5" := by
  have hread : ofValue (.text "-12.50") = .ok halfLoss := eq_ok_of_toOption (by decide +kernel)
  have hother : ofValue (.text "-125000e-4") = .ok ⟨true, 125000, -4⟩ :=
    eq_ok_of_toOption (by decide +kernel)
  have hshown : plain (.text "-12.50") = .ok "-12.5" := eq_ok_of_toOption (by decide +kernel)
  have hvalue : halfLoss.value = -25 / 2 := by norm_num [halfLoss, Decimal.value, Decimal.digits]
  have hvalue' : Decimal.value ⟨true, 125000, -4⟩ = -25 / 2 := by
    norm_num [Decimal.value, Decimal.digits]
  obtain ⟨text, htext, -, hback, hall⟩ := plain_isFaithful hread isShort_halfLoss
  rw [hshown, Except.ok.injEq] at htext
  subst htext
  rw [hvalue] at hback hall
  exact ⟨hread, isShort_halfLoss, hshown, hback,
    (hall _ _ hother ⟨-125000, -4, rfl, by norm_num, by norm_num⟩ (by norm_num)).2 hvalue'⟩

end Amount

end DealerPay
