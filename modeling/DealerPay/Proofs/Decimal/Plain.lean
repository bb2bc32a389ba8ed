import DealerPay.Proofs.Decimal.Grammar
import DealerPay.Proofs.Decimal.Respelling

/-!
# The plain text of a number

A number in normal form has no zeros at the end of its digits, and its positional text has none that
could be left out.

* `Decimal.IsNormal` is the normal form. `Decimal.normalize_isNormal`: what can be written is brought
  to it without rounding, zero as well.
* `Numeral.IsCanonical` is the form of the texts, a part of the grammar of numerals
  (`Numeral.IsCanonical.ofText?_eq`).
* `Decimal.IsNormal.exists_isCanonical`: the positional text of a number in normal form is in that
  form, and what it writes has the value of the number.
-/

namespace DealerPay

open Decimal (digitChars pointed signChars)

/-! ## First and last digits -/

/-- Digits that start with a zero once those in front are dropped are that zero. -/
theorem Numeral.withoutZeros_of_head {digits : List Char}
    (h : (withoutZeros digits).head? = some '0') : withoutZeros digits = ['0'] := by
  have hhead := List.head?_dropWhile_not (p := (· = '0')) digits
  unfold withoutZeros at h ⊢
  split
  · rfl
  · next hkept =>
    split at h
    · contradiction
    · rw [h] at hhead
      simp at hhead

/-- No number starts with a zero but zero itself. -/
theorem Decimal.digitChars_of_head {n : ℕ} (h : (digitChars n).head? = some '0') :
    digitChars n = ['0'] := by
  have hkept := Numeral.digitChars_digitsValue (isDigit_of_mem_digitChars (n := n))
  rw [Numeral.digitsValue_digitChars] at hkept
  rw [hkept] at h ⊢
  exact Numeral.withoutZeros_of_head h

/-- The last digit of a number is its remainder. -/
theorem Decimal.getLast?_digitChars (n : ℕ) :
    (digitChars n).getLast? = some (Nat.digitChar (n % 10)) := by
  rcases lt_or_ge n 10 with hn | hn
  · rw [digitChars, Nat.toDigits_of_lt_base hn, Nat.mod_eq_of_lt hn, List.getLast?_singleton]
  · have hsplit : n = 10 * (n / 10) + n % 10 := (Nat.div_add_mod n 10).symm
    rw [hsplit, digitChars_append_digit (by omega) (Nat.mod_lt _ (by norm_num)),
      List.getLast?_append]
    simp

/-- A number that is no multiple of ten does not end in a zero. -/
theorem Decimal.getLast?_digitChars_ne {n : ℕ} (hn : n % 10 ≠ 0) :
    (digitChars n).getLast? ≠ some '0' := by
  have htable : ∀ v < 10, v ≠ 0 → Nat.digitChar v ≠ '0' := by decide
  rw [getLast?_digitChars, ne_eq, Option.some_inj]
  exact htable _ (Nat.mod_lt _ (by norm_num)) hn

/-! ## The normal form -/

namespace Decimal

variable {d r : Decimal}

/-- Whether a number is in normal form: it does not end in a zero, or it is zero as a whole number.
-/
def IsNormal (d : Decimal) : Prop :=
  (d.coefficient = 0 ∧ d.exponent = 0) ∨ d.coefficient % 10 ≠ 0

/-- Zeros behind its digits do not change what a number is worth. -/
theorem value_padded (d : Decimal) (zeros : ℕ) : (d.padded zeros).value = d.value := by
  have habs : ((d.padded zeros).coefficient : ℚ) * (10 : ℚ) ^ (d.padded zeros).exponent =
      d.coefficient * (10 : ℚ) ^ d.exponent := by
    rw [tenPow_eq_mul_sub d.exponent zeros, padded]
    push_cast
    ring
  cases hn : d.negative with
  | false => rw [value_of_not_negative (d := d.padded zeros) hn, value_of_not_negative hn, habs]
  | true => rw [value_of_negative (d := d.padded zeros) hn, value_of_negative hn, habs]

/-- The zeros that are taken away were at the end, and no other one is. -/
theorem trimZeros_spec {c : ℕ} (hc : c ≠ 0) :
    c = (trimZeros c).1 * 10 ^ (trimZeros c).2 ∧ (trimZeros c).1 % 10 ≠ 0 := by
  fun_induction trimZeros c with
  | case1 => exact absurd rfl hc
  | case2 c _ hzero r ih =>
    obtain ⟨hsplit, hlast⟩ := ih (by omega)
    refine ⟨?_, hlast⟩
    rw [pow_succ, ← mul_assoc, ← hsplit]
    omega
  | case3 c _ hlast => exact ⟨by rw [pow_zero, mul_one], hlast⟩

/-- Without the zeros at its end a number other than zero is in normal form. -/
theorem isNormal_trimmed (hd : d.coefficient ≠ 0) : d.trimmed.IsNormal := .inr (trimZeros_spec hd).2

/-- Without the zeros at its end a number other than zero is worth the same. -/
theorem value_trimmed (hd : d.coefficient ≠ 0) : d.trimmed.value = d.value := by
  have hback : d.trimmed.padded (trimZeros d.coefficient).2 = d := by
    unfold padded trimmed
    dsimp only
    rw [← (trimZeros_spec hd).1, add_sub_cancel_right]
  rw [← value_padded d.trimmed, hback]

/-- A number that can be written is brought to normal form and keeps its value. -/
theorem normalize_isNormal (hd : working.Represents d.value) :
    Yields d.normalize fun r => r.IsNormal ∧ r.value = d.value := by
  unfold normalize
  refine (fit_of_represents hd).bind ?_
  intro f hvalue
  rw [← hvalue]
  split
  · next hzero =>
    refine .pure ⟨.inl ⟨hzero, rfl⟩, ?_⟩
    rw [value_eq_zero_iff.2 hzero]
    exact value_eq_zero_iff.2 hzero
  · next hne => exact .pure ⟨isNormal_trimmed hne, value_trimmed hne⟩

/-- No digit of a number in normal form is below the places that its value has. -/
theorem IsNormal.le_exponent (h : d.IsNormal) {n e place : ℤ} (hvalue : d.value = n * (10 : ℚ) ^ e)
    (he : place ≤ e) (hplace : place ≤ 0) : place ≤ d.exponent := by
  rcases h with ⟨-, hexp⟩ | hlast
  · rw [hexp]
    exact hplace
  · by_contra hlow
    obtain ⟨k, hk⟩ : ∃ k, (e - d.exponent).toNat = k + 1 := ⟨(e - d.exponent).toNat - 1, by omega⟩
    have hc := coefficient_eq_of_value hvalue (by omega)
    rw [hk, pow_succ, ← mul_assoc] at hc
    rw [hc, Nat.mul_mod_left] at hlast
    exact hlast rfl

end Decimal

/-! ## The form of the texts -/

namespace Numeral

/-- Whether characters are the digits of a whole number, which start with a zero only if it stands
alone. -/
structure IsWhole (digits : List Char) : Prop where
  /-- They are digits. -/
  isDigit : ∀ c ∈ digits, c.isDigit = true
  /-- There is one at least. -/
  ne_nil : digits ≠ []
  /-- A zero in front is the only one. -/
  head : digits.head? = some '0' → digits = ['0']

/-- The digits of a number are those of a whole number. -/
theorem isWhole_digitChars (n : ℕ) : IsWhole (digitChars n) :=
  ⟨Decimal.isDigit_of_mem_digitChars, Decimal.digitChars_ne_nil n, Decimal.digitChars_of_head⟩

/-- Whether characters are plain text without an exponent and without a zero that could be left out,
with this sign, and these digits in front of the point and behind it. -/
inductive IsCanonical : List Char → Bool → List Char → List Char → Prop
  /-- A whole number is written without a point. -/
  | whole {negative : Bool} {front : List Char} (hfront : IsWhole front) :
    IsCanonical (signChars negative ++ front) negative front []
  /-- A point has digits behind it, and the last of them is no zero. -/
  | fraction {negative : Bool} {front fraction : List Char} (hfront : IsWhole front)
    (hfraction : ∀ c ∈ fraction, c.isDigit = true) (hne : fraction ≠ [])
    (hlast : fraction.getLast? ≠ some '0') :
    IsCanonical (signChars negative ++ (front ++ '.' :: fraction)) negative front fraction

section Canonical

variable {cs : List Char} {negative : Bool} {front fraction : List Char}

/-- The sign in front of a text is one of the grammar. -/
theorem isSign_signChars (negative : Bool) : IsSign (signChars negative) negative := by
  cases negative with
  | false => exact .none
  | true => exact .minus

/-- Such a text is in the grammar of numerals. -/
theorem IsCanonical.isFinite (h : IsCanonical cs negative front fraction) :
    IsFinite cs negative front fraction 0 := by
  cases h with
  | whole hfront =>
    have hwritten := IsFinite.mk (isSign_signChars negative) hfront.isDigit .none .none
      (by rw [List.append_nil]; exact hfront.ne_nil)
    rwa [List.append_nil, List.append_nil] at hwritten
  | fraction hfront hfraction =>
    have hwritten := IsFinite.mk (isSign_signChars negative) hfront.isDigit (.point hfraction) .none
      fun hnil => hfront.ne_nil (List.append_eq_nil_iff.1 hnil).1
    rwa [List.append_nil] at hwritten

/-- Such a text is written in digits, a point and a minus sign. -/
theorem IsCanonical.isPlain_of_mem (h : IsCanonical cs negative front fraction) :
    ∀ c ∈ cs, isPlain c = true := by
  have hdigit : ∀ {c : Char}, c.isDigit = true → isPlain c = true := by
    intro c hc
    rw [isPlain, hc, Bool.true_or]
  have hsign : ∀ c ∈ signChars negative, isPlain c = true := by
    cases negative with
    | false => exact fun c hc => absurd hc List.not_mem_nil
    | true => exact List.forall_mem_singleton.2 rfl
  intro c hc
  cases h with
  | whole hfront =>
    rcases List.mem_append.1 hc with hc | hc
    · exact hsign c hc
    · exact hdigit (hfront.isDigit c hc)
  | fraction hfront hfraction =>
    rcases List.mem_append.1 hc with hc | hc
    · exact hsign c hc
    · rcases List.mem_append.1 hc with hc | hc
      · exact hdigit (hfront.isDigit c hc)
      · rcases List.mem_cons.1 hc with rfl | hc
        · rfl
        · exact hdigit (hfraction c hc)

/-- Such a text spells the number that it writes, if the number can be spelled. -/
theorem IsCanonical.ofText?_eq {s : String} (h : IsCanonical s.toList negative front fraction)
    (hspell : (written negative front fraction 0).spellable = true) :
    ofText? s = some (.finite (written negative front fraction 0)) := by
  have hcounted := (significant?_eq_some_iff.1 (significant?_of_isPlain h.isPlain_of_mem)).1
  exact ofText?_eq_finite_iff.2 ⟨hspell, negative, front, fraction, 0, hcounted ▸ h.isFinite, rfl⟩

end Canonical

/-- The point among the digits of a number that does not end in a zero leaves no zero that could be
left out on either side. -/
theorem exists_pointed_isWhole {c places : ℕ} (hc : c % 10 ≠ 0) (hplaces : places ≠ 0) :
    ∃ front fraction, pointed (digitChars c) places = front ++ '.' :: fraction ∧ IsWhole front ∧
      (∀ x ∈ fraction, x.isDigit = true) ∧ fraction.length = places ∧
      fraction.getLast? ≠ some '0' ∧ digitsValue (front ++ fraction) = c := by
  obtain ⟨front, fraction, hpointed, hfront, hfront', hfraction, hlength, hall⟩ :=
    exists_pointed_eq (Decimal.isDigit_of_mem_digitChars (n := c)) hplaces
  have hfraction' : fraction ≠ [] := by
    rw [← List.length_pos_iff]
    omega
  refine ⟨front, fraction, hpointed, ⟨hfront, hfront', fun hhead => ?_⟩, hfraction, hlength, ?_, ?_⟩
  · rcases lt_or_ge places (digitChars c).length with hlong | hshort
    · -- no zero is put in front, so that the first digit is the one of the number
      rw [Nat.sub_eq_zero_of_le hlong, List.replicate_zero, List.nil_append] at hall
      have hone : digitChars c = ['0'] := by
        apply Decimal.digitChars_of_head
        rw [← hall, List.head?_append_of_ne_nil _ hfront', hhead]
      rw [hone, List.length_singleton] at hlong
      omega
    · -- there are just enough zeros for one digit in front of the point
      have hcount := congrArg List.length hall
      rw [List.length_append, List.length_append, List.length_replicate] at hcount
      obtain ⟨x, rfl⟩ := List.length_eq_one_iff.1 (by omega : front.length = 1)
      rw [List.head?_singleton, Option.some_inj] at hhead
      rw [hhead]
  · rw [← List.getLast?_append_of_ne_nil front hfraction', hall,
      List.getLast?_append_of_ne_nil _ (Decimal.digitChars_ne_nil c)]
    exact Decimal.getLast?_digitChars_ne hc
  · rw [hall, digitsValue_zeros_append, digitsValue_digitChars]

end Numeral

/-! ## The text of a number in normal form -/

namespace Decimal

open Numeral

variable {d : Decimal}

/-- The positional text of a number in normal form has no zero that could be left out, as many
digits behind the point as the number has places, and what it writes has the value of the number. -/
theorem IsNormal.exists_isCanonical (h : d.IsNormal) :
    ∃ front fraction, IsCanonical d.positional.toList d.negative front fraction ∧
      fraction.length = (-d.exponent).toNat ∧
      (written d.negative front fraction 0).value = d.value := by
  unfold positional positionalChars
  rw [String.toList_ofList]
  split
  · next hexp =>
    refine ⟨_, [], .whole (isWhole_digitChars _), ?_, ?_⟩
    · rw [List.length_nil]
      omega
    · have hpadded : written d.negative (digitChars (scaled d.coefficient d.exponent.toNat)) [] 0 =
          d.padded d.exponent.toNat := by
        have hzero : (0 : ℤ) - ([] : List Char).length = d.exponent - d.exponent.toNat := by
          rw [List.length_nil]
          omega
        rw [written, padded, List.append_nil, digitsValue_digitChars, scaled_eq, tenTo_eq, hzero]
      rw [hpadded, value_padded]
  · next hexp =>
    have hlast : d.coefficient % 10 ≠ 0 := h.resolve_left fun hzero => hexp hzero.2.ge
    obtain ⟨front, fraction, hpointed, hfront, hfraction, hlength, hend, hvalue⟩ :=
      exists_pointed_isWhole hlast (by omega : (-d.exponent).toNat ≠ 0)
    have hfraction' : fraction ≠ [] := by
      rw [← List.length_pos_iff]
      omega
    have hsame : written d.negative front fraction 0 = d := by
      have hback : (0 : ℤ) - fraction.length = d.exponent := by omega
      rw [written, hvalue, hback]
    rw [hpointed]
    exact ⟨front, fraction, .fraction hfront hfraction hfraction' hend, hlength, by rw [hsame]⟩

end Decimal

end DealerPay
