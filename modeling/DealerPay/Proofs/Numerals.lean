import DealerPay.Proofs.Amount
import DealerPay.Proofs.Decimal.Grammar
import DealerPay.Proofs.Decimal.Spellable

/-!
# Texts that are amounts

Which texts are read as amounts, and as what. A text that writes a finite number is read digit by
digit, however many there are; only its range is looked at in a shorter form.

* `Numeral.writtenValue` is the size of what is written, told from the digits in front of the point
  and behind it.
* `Decimal.IsAmount.spellable`: an exponent of ordinary size leaves no amount out of reach.
* `Amount.ofValue_text`: texts in no form of the grammar are refused as no amounts, and the others
  that are in range keep their sign, all of their digits, and the place of the last one.

The digits of a number are at most `Numeral.mostDigits`, which no text that a memory holds has.
-/

namespace DealerPay

/-- A number in the range of amounts can be spelled unless its last digit is out of reach. -/
theorem Decimal.IsAmount.spellable {d : Decimal} (h : d.IsAmount)
    (hlow : -1999999999999999997 ≤ d.exponent) (hhigh : d.exponent ≤ 999999999999999999) :
    d.spellable = true := by
  rw [Decimal.spellable_iff]
  refine ⟨hlow, ?_⟩
  by_cases hzero : d.coefficient = 0
  · unfold Decimal.adjusted
    rw [hzero, digitCount_zero]
    omega
  · have hlt : |d.value| < (10 : ℚ) ^ (15 : ℤ) := by
      refine h.trans ?_
      norm_num
    have := Decimal.adjusted_lt hzero hlt
    omega

namespace Numeral

variable {negative : Bool} {front fraction : List Char} {e : ℤ}

/-- The most digits that a number can be spelled with. -/
def mostDigits : ℕ := 999999999999999999

/-- The size of a number with these digits in front of the point and behind it, and this
exponent. -/
def writtenValue (front fraction : List Char) (e : ℤ) : ℚ :=
  (Nat.ofDigitChars 10 front 0 + Nat.ofDigitChars 10 fraction 0 / 10 ^ fraction.length) *
    (10 : ℚ) ^ e

/-- Digits behind others count less by their number. -/
theorem digitsValue_append (front fraction : List Char) :
    digitsValue (front ++ fraction) =
      10 ^ fraction.length * digitsValue front + digitsValue fraction := by
  rw [digitsValue_eq, digitsValue_eq, digitsValue_eq, Nat.ofDigitChars_append,
    Nat.ofDigitChars_eq_ofDigitChars_zero]

/-- The number that is written has the size that is written. -/
theorem abs_value_written (negative : Bool) (front fraction : List Char) (e : ℤ) :
    |(written negative front fraction e).value| = writtenValue front fraction e := by
  have hpos : (0 : ℚ) < 10 ^ fraction.length := by positivity
  rw [Decimal.abs_value, written, digitsValue_append, writtenValue, digitsValue_eq, digitsValue_eq,
    tenPow_eq_mul_sub e fraction.length]
  push_cast
  field_simp

/-- A number in the range of amounts can be spelled if its exponent is of ordinary size and its
digits are not too many. -/
theorem spellable_written (he : |e| ≤ 10 ^ 6) (hcount : (front ++ fraction).length ≤ mostDigits)
    (hrange : (written negative front fraction e).IsAmount) :
    (written negative front fraction e).spellable = true := by
  obtain ⟨hlow, hhigh⟩ := abs_le.1 he
  have hfraction : fraction.length ≤ mostDigits := by
    rw [List.length_append] at hcount
    omega
  have hexp : (written negative front fraction e).exponent = e - fraction.length := rfl
  unfold mostDigits at hfraction
  exact hrange.spellable (by omega) (by omega)

end Numeral

namespace Amount

open Numeral

/-- What becomes of a text that is not empty. One that writes no finite number is refused as no
amount. One that does, with an exponent of ordinary size and within the range, is the amount with the
sign and the value that are written, all of the digits but zeros in front of them, and the exponent
that they have. -/
theorem ofValue_text {s : String} (hs : s ≠ "") :
    ((∀ negative front fraction e, ¬ IsFinite (counted s) negative front fraction e) →
      ∃ err, ofValue (.text s) = .error (.amount err)) ∧
    ∀ negative front fraction e, IsFinite (counted s) negative front fraction e →
      |e| ≤ 10 ^ 6 → (front ++ fraction).length ≤ mostDigits →
      writtenValue front fraction e < 10 ^ 15 - 5 / 10 ^ 14 →
      ∃ d, ofValue (.text s) = .ok d ∧ d.negative = negative ∧
        Decimal.digitChars d.coefficient = withoutZeros (front ++ fraction) ∧
        d.exponent = e - fraction.length ∧ |d.value| = writtenValue front fraction e := by
  constructor
  · intro hform
    have hpresent : isAbsent (.text s) = false := by simpa [isAbsent, Value.isText] using hs
    have hnone : ∀ d, numeral? (.text s) ≠ some (.finite d) := by
      intro d hd
      obtain ⟨-, negative, front, fraction, e, hwritten, -⟩ := ofText?_eq_finite_iff.1 hd
      exact hform negative front fraction e hwritten
    rcases ofValue_of_not_finite hnone with ⟨habsent, -⟩ | ⟨-, herror⟩
    · rw [hpresent] at habsent
      cases habsent
    · exact herror
  · intro negative front fraction e hform he hcount hrange
    have hvalue := abs_value_written negative front fraction e
    have hamount : (written negative front fraction e).IsAmount := by
      unfold Decimal.IsAmount
      rwa [hvalue]
    have hread : numeral? (.text s) = some (.finite (written negative front fraction e)) :=
      ofText?_eq_finite_iff.2
        ⟨spellable_written he hcount hamount, negative, front, fraction, e, hform, rfl⟩
    exact ⟨_, ofValue_eq_ok_iff.2 (.inr ⟨hread, hamount⟩), rfl,
      digitChars_digitsValue hform.isDigit_of_mem, rfl, hvalue⟩

/-- A loss of some cents, with blanks around it, digits of two scripts, zeros at both ends of the
digits, and more decimals than arithmetic keeps. -/
def longLoss : String := "\u2003-0٠1_234.567890123456789012345678901234567890e-2\n"

/-- What counts of it is written in the grammar. -/
theorem isFinite_longLoss :
    IsFinite (counted longLoss) true "001234".toList "567890123456789012345678901234567890".toList
      (-2) := by
  have hcounted : counted longLoss = ['-'] ++ ("001234".toList ++
      ('.' :: "567890123456789012345678901234567890".toList ++ ('e' :: (['-'] ++ ['2'])))) := by
    decide +kernel
  rw [hcounted]
  exact .mk .minus (List.all_eq_true.1 (by decide +kernel))
    (.point (List.all_eq_true.1 (by decide +kernel)))
    (.marked (.inl rfl) .minus (List.all_eq_true.1 rfl) (List.cons_ne_nil _ _)) (by decide +kernel)

/-- The text keeps its forty digits, and a text without an exponent behind the letter for it is no
amount. -/
theorem ofValue_text_longLoss :
    longLoss ≠ "" ∧
      (∃ d, ofValue (.text longLoss) = .ok d ∧ d.negative = true ∧
        Decimal.digitChars d.coefficient = "1234567890123456789012345678901234567890".toList ∧
        d.exponent = -38) ∧
      "12e" ≠ "" ∧ ∃ err, ofValue (.text "12e") = .error (.amount err) := by
  have hne : longLoss ≠ "" := by decide +kernel
  have hne' : "12e" ≠ "" := by decide +kernel
  refine ⟨hne, ?_, hne', (ofValue_text hne').1 ?_⟩
  · have hrange : writtenValue "001234".toList "567890123456789012345678901234567890".toList (-2) <
        10 ^ 15 - 5 / 10 ^ 14 := by
      have hfront : Nat.ofDigitChars 10 "001234".toList 0 = 1234 := by decide +kernel
      have hfraction : Nat.ofDigitChars 10 "567890123456789012345678901234567890".toList 0 =
          567890123456789012345678901234567890 := by decide +kernel
      have hlength : "567890123456789012345678901234567890".toList.length = 36 := by decide +kernel
      rw [writtenValue, hfront, hfraction, hlength]
      norm_num
    obtain ⟨d, hd, hnegative, hdigits, hexponent, -⟩ :=
      (ofValue_text hne).2 _ _ _ _ isFinite_longLoss (by decide) (by decide +kernel) hrange
    refine ⟨d, hd, hnegative, hdigits.trans ?_, hexponent.trans ?_⟩
    · decide +kernel
    · decide +kernel
  · intro negative front fraction e hform
    obtain ⟨c, rest, hsplit, -, hread⟩ := hform.splitSign_eq
    have hcounted : splitSign (counted "12e") = (false, ['1', '2', 'e']) := by decide +kernel
    have hnone : unsigned? ['1', '2', 'e'] = none := by decide +kernel
    rw [hcounted] at hsplit
    cases hsplit
    rw [hnone] at hread
    cases hread

end Amount

end DealerPay
