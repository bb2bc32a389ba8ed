import DealerPay.Proofs.Decimal.Dollars
import DealerPay.Proofs.Decimal.Plain
import DealerPay.Proofs.Numerals

/-!
# Amounts shown in whole dollars

What the text of an amount in whole dollars looks like, and what is read in it.

* `Decimal.IsGrouped` are groups of digits, told from the groups themselves.
  `Decimal.IsThousands.exists_isGrouped` finds them in a number that is written in thousands.
* `Amount.withoutMarks` leaves out of a text what no numeral has: the dollar sign and the commas.
  `Amount.withoutMarks_joined` says what remains, and `Amount.ofText?_units` reads it.
* `Amount.dollars_isNearest`: the text of an amount reads as the integer nearest to it.

The sign is that of the amount and not of the integer: a loss of less than half a dollar is shown as
a zero with a minus sign, and so is a zero that was written with one.
-/

namespace DealerPay

/-! ## Groups -/

namespace Decimal

/-- Whether groups of digits write a whole number: there are one to three digits in the first group
and three in every other one, and a zero in front is the only digit. -/
structure IsGrouped (first : List Char) (rest : List (List Char)) : Prop where
  /-- Together they are the digits of a whole number. -/
  isWhole : Numeral.IsWhole (first ++ rest.flatten)
  /-- The first group has a digit. -/
  ne_nil : first ≠ []
  /-- It has no more than three. -/
  length_le : first.length ≤ 3
  /-- The other groups have three digits. -/
  length_eq : ∀ g ∈ rest, g.length = 3

/-- Groups with commas between them. -/
def joined (first : List Char) (rest : List (List Char)) : List Char :=
  first ++ rest.flatMap (',' :: ·)

/-- A number that is written in thousands is written in groups, which hold its digits. -/
theorem IsThousands.exists_isGrouped {n : ℕ} {cs : List Char} (h : IsThousands n cs) :
    ∃ first rest, IsGrouped first rest ∧ cs = joined first rest ∧
      first ++ rest.flatten = digitChars n := by
  induction h with
  | @few n hn =>
    have hdigits : digitChars n ++ ([] : List (List Char)).flatten = digitChars n := by
      rw [List.flatten_nil, List.append_nil]
    refine ⟨digitChars n, [], ⟨?_, digitChars_ne_nil n, ?_, ?_⟩, ?_, hdigits⟩
    · rw [hdigits]
      exact Numeral.isWhole_digitChars n
    · exact (Nat.length_toDigits_le_iff (by norm_num) (by norm_num)).2 hn
    · exact fun g hg => absurd hg List.not_mem_nil
    · exact (List.append_nil _).symm
  | @more m r cs hm hr _ ih =>
    obtain ⟨first, rest, hgrouped, rfl, hdigits⟩ := ih
    have hall : first ++ (rest ++ [Calendar.padded 3 r]).flatten = digitChars (1000 * m + r) := by
      rw [digitChars_thousands hm hr, List.flatten_append, List.flatten_singleton,
        ← List.append_assoc, hdigits]
    refine ⟨first, rest ++ [Calendar.padded 3 r],
      ⟨?_, hgrouped.ne_nil, hgrouped.length_le, ?_⟩, ?_, hall⟩
    · rw [hall]
      exact Numeral.isWhole_digitChars _
    · intro g hg
      rcases List.mem_append.1 hg with hg | hg
      · exact hgrouped.length_eq g hg
      · rw [List.mem_singleton.1 hg, padded_three hr]
        rfl
    · unfold joined
      rw [List.flatMap_append, List.flatMap_singleton, List.append_assoc]

/-- Whole units of an amount can be spelled. -/
theorem spellable_units {d : Decimal} (h : d.IsAmount) : d.units.spellable = true := by
  have hnear := (abs_le.1 d.isNearestEven_units.near).2
  have hlimit := h.abs_le
  have hlt : d.units.coefficient < 10 ^ 16 := by
    have : (d.units.coefficient : ℚ) < 10 ^ 16 := by
      norm_num at hlimit
      linarith
    exact_mod_cast this
  have hcount : digitCount d.units.coefficient ≤ 16 := by
    rcases Nat.eq_zero_or_pos d.units.coefficient with hzero | hpos
    · rw [hzero, digitCount_zero]
      norm_num
    · exact (digitCount_le_iff hpos).2 hlt
  rw [spellable_iff, adjusted, exponent_units]
  omega

/-- A number has a minus sign if it is below zero, or a zero that was written with one. -/
theorem negative_iff {d : Decimal} :
    d.negative = true ↔ d.value < 0 ∨ (d.value = 0 ∧ d.negative = true) := by
  refine ⟨fun h => ?_, ?_⟩
  · have hvalue : d.value ≤ 0 := by
      rw [value_of_negative h, neg_nonpos]
      positivity
    exact hvalue.lt_or_eq.imp_right fun hzero => ⟨hzero, h⟩
  · rintro (hvalue | ⟨-, h⟩)
    · by_contra hsign
      rw [value_of_not_negative (Bool.not_eq_true _ ▸ hsign)] at hvalue
      exact absurd hvalue (not_lt.2 (by positivity))
    · exact h

end Decimal

/-! ## The text of an amount -/

namespace Amount

open Decimal

variable {v : Value} {d : Decimal}

/-- A text without its dollar signs and its commas. -/
def withoutMarks (s : String) : String :=
  String.ofList (s.toList.filter fun c => c ≠ '$' ∧ c ≠ ',')

/-- Without the marks there remain the sign and the digits. -/
theorem withoutMarks_joined (negative : Bool) {first : List Char} {rest : List (List Char)}
    (h : IsGrouped first rest) :
    withoutMarks (String.ofList ('$' :: (signChars negative ++ joined first rest))) =
      String.ofList (signChars negative ++ (first ++ rest.flatten)) := by
  have hdigits : ∀ cs : List Char, (∀ c ∈ cs, c.isDigit = true) →
      cs.filter (fun c => c ≠ '$' ∧ c ≠ ',') = cs := by
    intro cs hcs
    refine List.filter_eq_self.2 fun c hc => decide_eq_true ?_
    exact ⟨Text.ne_of_isDigit (hcs c hc) rfl, Text.ne_of_isDigit (hcs c hc) rfl⟩
  have hfirst := hdigits first fun c hc => h.isWhole.isDigit c (List.mem_append_left _ hc)
  have hrest : ∀ g ∈ rest, (',' :: g).filter (fun c => c ≠ '$' ∧ c ≠ ',') = g := by
    intro g hg
    rw [List.filter_cons_of_neg (by decide)]
    exact hdigits g fun c hc =>
      h.isWhole.isDigit c (List.mem_append_right _ (List.mem_flatten_of_mem hg hc))
  have hsign : (signChars negative).filter (fun c => c ≠ '$' ∧ c ≠ ',') = signChars negative := by
    cases negative <;> rfl
  unfold withoutMarks joined
  rw [String.toList_ofList, List.filter_cons_of_neg (by decide), List.filter_append,
    List.filter_append, List.filter_flatMap, hsign, hfirst, List.flatMap_congr hrest,
    List.flatMap_id']

/-- The digits of whole units are read as what they are, with the sign in front of them. -/
theorem ofText?_units (h : d.IsAmount) :
    Numeral.ofText? (String.ofList (signChars d.negative ++ digitChars d.units.coefficient)) =
      some (.finite d.units) := by
  have hwritten : Numeral.written d.negative (digitChars d.units.coefficient) [] 0 = d.units := by
    have hplace : (0 : ℤ) - ([] : List Char).length = d.units.exponent := by
      rw [exponent_units]
      rfl
    rw [Numeral.written, List.append_nil, Numeral.digitsValue_digitChars, hplace,
      ← d.negative_units]
  have hform : Numeral.IsCanonical
      (String.ofList (signChars d.negative ++ digitChars d.units.coefficient)).toList
      d.negative (digitChars d.units.coefficient) [] := by
    rw [String.toList_ofList]
    exact .whole (Numeral.isWhole_digitChars _)
  have hread := hform.ofText?_eq (by rw [hwritten]; exact spellable_units h)
  rwa [hwritten] at hread

/-- An amount is shown as a dollar sign, a minus sign exactly if it is below zero or a zero with that
sign, and digits in groups of three with commas between them. Without the dollar sign and the commas
the text reads as the integer nearest to the amount, and as the even one of two. -/
theorem dollars_isNearest (h : ofValue v = .ok d) :
    ∃ text negative first rest back, ∃ z : ℤ, dollars v = .ok text ∧
      text.toList = '$' :: (signChars negative ++ joined first rest) ∧
      (negative = true ↔ d.value < 0 ∨ (d.value = 0 ∧ d.negative = true)) ∧
      IsGrouped first rest ∧
      Numeral.ofText? (withoutMarks text) = some (.finite back) ∧ back.value = z ∧
      IsHalfEven d.value z := by
  obtain ⟨first, rest, hgrouped, hjoined, hdigits⟩ :=
    (isThousands_groupChars d.units.coefficient).exists_isGrouped
  have htext : "$" ++ String.ofList (signChars d.negative ++
      groupChars (digitChars d.units.coefficient)) =
        String.ofList ('$' :: (signChars d.negative ++ joined first rest)) := by
    rw [hjoined]
    exact String.ofList_append.symm
  refine ⟨_, d.negative, first, rest, d.units, d.units.digits, dollars_eq h, ?_, negative_iff,
    hgrouped, ?_, d.value_units, d.isHalfEven_units⟩
  · rw [htext, String.toList_ofList]
  · rw [htext, withoutMarks_joined _ hgrouped, hdigits, ofText?_units (isAmount_of_ofValue h)]

/-- A loss half way between two whole dollars, with a zero at the end. -/
def halfDollarLoss : Decimal := ⟨true, 99999950, -2⟩

/-- The loss is rounded to the even number of dollars, which takes one group more than its own
digits. -/
theorem dollars_isNearest_halfDollarLoss :
    ofValue (.text "-999999.50") = .ok halfDollarLoss ∧
      dollars (.text "-999999.50") = .ok "$-1,000,000" ∧
      (∃ first rest, "$-1,000,000".toList = '$' :: (['-'] ++ joined first rest) ∧
        IsGrouped first rest) ∧
      IsHalfEven (-(1999999 / 2)) (-1000000) := by
  have hread : ofValue (.text "-999999.50") = .ok halfDollarLoss :=
    eq_ok_of_toOption (by decide +kernel)
  have hshown : dollars (.text "-999999.50") = .ok "$-1,000,000" :=
    eq_ok_of_toOption (by decide +kernel)
  have hback : Numeral.ofText? (withoutMarks "$-1,000,000") = some (.finite ⟨true, 1000000, 0⟩) := by
    decide +kernel
  have hvalue : halfDollarLoss.value = -(1999999 / 2) := by
    norm_num [halfDollarLoss, value, digits]
  obtain ⟨text, negative, first, rest, back, z, htext, hshape, hsign, hgrouped, hfound, hz, hnear⟩ :=
    dollars_isNearest hread
  obtain rfl : "$-1,000,000" = text := Except.ok.inj (hshown.symm.trans htext)
  obtain rfl : negative = true := hsign.2 (.inl (by rw [hvalue]; norm_num))
  obtain rfl : ⟨true, 1000000, 0⟩ = back :=
    Numeral.finite.inj (Option.some.inj (hback.symm.trans hfound))
  obtain rfl : -1000000 = z := by
    have hcast : ((-1000000 : ℤ) : ℚ) = z := by
      rw [← hz]
      norm_num [value, digits]
    exact_mod_cast hcast
  exact ⟨hread, hshown, ⟨first, rest, hshape, hgrouped⟩, hvalue ▸ hnear⟩

end Amount

end DealerPay
