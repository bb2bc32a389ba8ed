import DealerPay.Proofs.Amount
import DealerPay.Proofs.Calendar
import DealerPay.Proofs.Decimal.Rounding

/-!
# Whole dollars

What an amount looks like in whole dollars.

* `Decimal.isNearestEven_units` is what becomes of a number of any size and of any number of digits;
  `Decimal.isHalfEven_units` is the same with the sign.
* `IsThousands`: a number written in groups of three digits, told from the front. The groups are
  formed from the back; `Decimal.groupChars_append` takes off one of them, and
  `Decimal.isThousands_groupChars` is the agreement.
* `Amount.dollars_eq` and `Amount.dollars_of_isAmount` put these together.
-/

namespace DealerPay

namespace Decimal

/-- The whole units of a number are the nearest ones to its size, whatever its digits are. -/
theorem isNearestEven_units (d : Decimal) : IsNearestEven |d.value| d.units.coefficient := by
  rw [abs_value]
  unfold units rescale
  split
  · next hplace =>
    have hexact := scaled_mul_tenPow d.coefficient hplace
    rw [zpow_zero, mul_one] at hexact
    rw [← hexact]
    exact ⟨by norm_num, by norm_num⟩
  · next hplace =>
    obtain ⟨k, hk⟩ : ∃ k : ℕ, d.exponent = -k := ⟨(-d.exponent).toNat, by omega⟩
    have hdrop := dropDigits_toEven d.coefficient k
    rw [hk, zpow_neg, zpow_natCast, ← div_eq_mul_inv]
    simpa using hdrop

/-- Whole units keep the sign of a number. -/
theorem negative_units (d : Decimal) : d.units.negative = d.negative := by
  unfold units rescale
  split <;> rfl

/-- Whole units have no decimals. -/
theorem exponent_units (d : Decimal) : d.units.exponent = 0 := by
  unfold units rescale
  split <;> rfl

/-- Whole units are worth what their digits are. -/
theorem value_units (d : Decimal) : d.units.value = d.units.digits := by
  rw [value, exponent_units, zpow_zero, mul_one]

/-- The whole units of a number are nearest to it. -/
theorem isHalfEven_units (d : Decimal) : IsHalfEven d.value d.units.digits := by
  have hsize := d.isNearestEven_units
  rw [← div_one |d.value|] at hsize
  have hsigned := isHalfEven_digits d.negative_units hsize
  rwa [div_one] at hsigned

/-! ## Groups of three digits -/

/-- A group of three digits behind others is set off by a comma. -/
theorem groupChars_append {front : List Char} (hfront : front ≠ []) (a b c : Char) :
    groupChars (front ++ [a, b, c]) = groupChars front ++ [',', a, b, c] := by
  obtain ⟨d, rest, hreverse⟩ := List.exists_cons_of_ne_nil (List.reverse_ne_nil_iff.2 hfront)
  unfold groupChars
  rw [List.reverse_append, hreverse]
  simp [groupReversed]

/-- Up to three digits are not grouped. -/
theorem groupChars_of_length_le {digits : List Char} (h : digits.length ≤ 3) :
    groupChars digits = digits := by
  have hshort : groupReversed digits.reverse = digits.reverse := by
    rw [← List.length_reverse] at h
    generalize digits.reverse = cs at h
    unfold groupReversed
    split
    · simp only [List.length_cons] at h
      omega
    · rfl
  rw [groupChars, hshort, List.reverse_reverse]

/-- Whether digits write a number in groups of three, with commas between them: below a thousand as
it is, and from there on its thousands in front of three more digits. -/
inductive IsThousands : ℕ → List Char → Prop
  /-- There is one group. -/
  | few {n : ℕ} (h : n < 1000) : IsThousands n (digitChars n)
  /-- One more group stands behind the thousands. -/
  | more {m r : ℕ} {cs : List Char} (hm : 0 < m) (hr : r < 1000) (h : IsThousands m cs) :
    IsThousands (1000 * m + r) (cs ++ ',' :: Calendar.padded 3 r)

/-- A number below a thousand in three places. -/
theorem padded_three {n : ℕ} (h : n < 1000) : Calendar.padded 3 n =
    [Nat.digitChar (n / 100), Nat.digitChar (n / 10 % 10), Nat.digitChar (n % 10)] := by
  rw [Calendar.padded_succ (by norm_num), Calendar.padded_two (by omega), Nat.div_div_eq_div_mul]
  rfl

/-- The digits of a number from a thousand on are those of its thousands and three more. -/
theorem digitChars_thousands {m r : ℕ} (hm : 0 < m) (hr : r < 1000) :
    digitChars (1000 * m + r) = digitChars m ++ Calendar.padded 3 r := by
  have hsplit : 1000 * m + r = 10 * (10 * (10 * m + r / 100) + r / 10 % 10) + r % 10 := by omega
  rw [hsplit, digitChars_append_digit (by omega) (by omega),
    digitChars_append_digit (by omega) (by omega), digitChars_append_digit hm (by omega),
    padded_three hr]
  simp

/-- The digits of a number are grouped in threes. -/
theorem isThousands_groupChars (n : ℕ) : IsThousands n (groupChars (digitChars n)) := by
  induction n using Nat.strongRecOn with
  | ind n ih =>
    rcases Nat.lt_or_ge n 1000 with hlt | hge
    · have hlength : (digitChars n).length ≤ 3 :=
        (Nat.length_toDigits_le_iff (by norm_num) (by norm_num)).2 hlt
      rw [groupChars_of_length_le hlength]
      exact .few hlt
    · have hr : n % 1000 < 1000 := Nat.mod_lt n (by norm_num)
      have hm : 0 < n / 1000 := Nat.div_pos hge (by norm_num)
      have hgroup := IsThousands.more hm hr (ih (n / 1000) (by omega))
      rw [padded_three hr, ← groupChars_append (digitChars_ne_nil _), ← padded_three hr,
        ← digitChars_thousands hm hr, Nat.div_add_mod] at hgroup
      exact hgroup

end Decimal

/-! ## Amounts -/

namespace Amount

/-- The text of an amount is that of its whole units, with its own sign. -/
theorem dollars_eq {v : Value} {d : Decimal} (h : ofValue v = .ok d) :
    dollars v = .ok ("$" ++ String.ofList (Decimal.signChars d.negative ++
      Decimal.groupChars (Decimal.digitChars d.units.coefficient))) := by
  unfold dollars
  rw [h, ← d.negative_units]
  rfl

/-- An amount is shown as its nearest whole dollars, in groups of three digits. -/
theorem dollars_of_isAmount {d : Decimal} (h : d.IsAmount) :
    ∃ n digits, IsNearestEven |d.value| n ∧ Decimal.IsThousands n digits ∧
      dollars (.ofDecimal d) =
        .ok ("$" ++ String.ofList (Decimal.signChars d.negative ++ digits)) :=
  ⟨_, _, d.isNearestEven_units, Decimal.isThousands_groupChars _,
    dollars_eq (ofValue_ofDecimal h)⟩

end Amount

end DealerPay
