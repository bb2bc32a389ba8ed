import DealerPay.Calendar
import DealerPay.Proofs.Texts
import Mathlib.Data.List.Basic

/-!
# Dates and their texts

The text of a date is read as that date.

* `Calendar.padded_succ` takes the last digit off a number of fixed width, so that the places of a
  date can be read two at a time.
* `Moment.readDay_toText` reads the text of a date at the front of a text.
* `Date.ofValue_toText` is the round trip.
-/

namespace DealerPay

/-! ## Digits of fixed width -/

namespace Calendar

/-- The last of the digits of a number counts its ones, those before it its tens. -/
theorem padded_succ {width : Nat} (hwidth : 0 < width) (n : Nat) :
    padded (width + 1) n = padded width (n / 10) ++ [Nat.digitChar (n % 10)] := by
  unfold padded Decimal.digitChars
  dsimp only
  rcases Nat.lt_or_ge n 10 with h | h
  · obtain ⟨k, rfl⟩ : ∃ k, width = k + 1 := ⟨width - 1, by omega⟩
    rw [Nat.div_eq_of_lt h, Nat.mod_eq_of_lt h, Nat.toDigits_of_lt_base h, Nat.toDigits_zero]
    simp only [List.length_singleton, Nat.add_sub_cancel]
    rw [List.replicate_succ']
  · have hlength : ((Nat.toDigits 10 (n / 10)) ++ [Nat.digitChar (n % 10)]).length =
        (Nat.toDigits 10 (n / 10)).length + 1 := List.length_append
    rw [Nat.toDigits_of_base_le (by norm_num) h, hlength, Nat.add_sub_add_right,
      List.append_assoc]

/-- A number below ten in one place. -/
theorem padded_one {n : Nat} (h : n < 10) : padded 1 n = [Nat.digitChar n] := by
  unfold padded Decimal.digitChars
  rw [Nat.toDigits_of_lt_base h]
  rfl

/-- A number below a hundred in two places. -/
theorem padded_two {n : Nat} (h : n < 100) :
    padded 2 n = [Nat.digitChar (n / 10), Nat.digitChar (n % 10)] := by
  rw [padded_succ (by norm_num), padded_one (by omega)]
  rfl

/-- A number in four places: its hundreds in two, and two more. -/
theorem padded_four (n : Nat) :
    padded 4 n = padded 2 (n / 100) ++ padded 2 (n % 100) := by
  have htens : n / 10 % 10 = n % 100 / 10 := by omega
  have hones : n % 10 = n % 100 % 10 := by omega
  rw [padded_succ (by norm_num), padded_succ (by norm_num), Nat.div_div_eq_div_mul,
    padded_two (n := n % 100) (by omega), htens, hones, List.append_assoc]
  rfl

/-- A day of the calendar has a year of four digits and a month and a day of two. -/
theorem bounds_of_isDay {year month day : Nat} (h : isDay year month day = true) :
    year < 10000 ∧ 1 ≤ month ∧ month ≤ 12 ∧ 1 ≤ day ∧ day ≤ daysIn year month ∧ day < 100 := by
  simp only [isDay, Bool.and_eq_true, decide_eq_true_eq] at h
  obtain ⟨⟨⟨⟨⟨-, hyear⟩, hmonth⟩, hmonth'⟩, hday⟩, hday'⟩ := h
  have : daysIn year month ≤ 31 := by
    unfold daysIn
    split
    · split <;> omega
    · split <;> omega
  omega

end Calendar

/-- A number of fixed width is written in digits. -/
theorem Calendar.isDigit_of_mem_padded {width n : Nat} :
    ∀ c ∈ padded width n, c.isDigit = true := by
  intro c hc
  rcases List.mem_append.1 hc with hc | hc
  · rw [List.eq_of_mem_replicate hc]
    rfl
  · exact Decimal.isDigit_of_mem_digitChars c hc

/-- The text of a date is plain. -/
theorem Date.isPlain_toText (d : Date) : Text.IsPlain d.toText := by
  have hpadded : ∀ width n, ∀ c ∈ Calendar.padded width n, Text.isPlain c = true :=
    fun width n c hc => Text.isPlain_of_isDigit (Calendar.isDigit_of_mem_padded c hc)
  apply Text.isPlain_ofList
  simp only [List.forall_mem_append, List.forall_mem_cons]
  exact ⟨⟨hpadded _ _, by decide, hpadded _ _⟩, by decide, hpadded _ _⟩

/-! ## Reading places -/

namespace Moment

/-- A digit is read as its value. -/
theorem digit_digitChar (e : MomentError) {k : Nat} (h : k < 10) (cs : List Char) :
    digit e (Nat.digitChar k :: cs) = .ok (k, cs) := by
  have hdigit : (Nat.digitChar k).isDigit = true := by
    rw [Nat.isDigit_digitChar, decide_eq_true h]
  show (if (Nat.digitChar k).isDigit = true then _ else _) = _
  rw [if_pos hdigit, Nat.toNat_digitChar_of_lt_ten h, Nat.add_sub_cancel_left]

/-- Two places are read as the number in them. -/
theorem twoDigits_padded (e : MomentError) {n : Nat} (h : n < 100) (cs : List Char) :
    twoDigits e (Calendar.padded 2 n ++ cs) = .ok (n, cs) := by
  have hsplit : 10 * (n / 10) + n % 10 = n := by omega
  rw [Calendar.padded_two h]
  unfold twoDigits
  simp only [List.cons_append, List.nil_append, digit_digitChar e (show n / 10 < 10 by omega),
    digit_digitChar e (show n % 10 < 10 by omega), bind, Except.bind, pure, Except.pure, hsplit]

/-- A mark that is there is read. -/
theorem mark_cons (e : MomentError) (c : Char) (cs : List Char) : mark e c (c :: cs) = .ok cs :=
  if_pos rfl

/-- A plain character takes one place. -/
theorem storedChars_of_isPlain {s : String} (h : Text.IsPlain s) : storedChars s = s.toList := by
  have hsize : ∀ c ∈ s.toList, List.replicate c.utf8Size c = [c] := by
    intro c hc
    obtain ⟨-, hhigh⟩ := Text.isPlain_iff.1 (h c hc)
    have hone : c.utf8Size = 1 := Char.utf8Size_eq_one_iff.2 (by
      show c.toNat ≤ 127
      omega)
    rw [hone, List.replicate_one]
  unfold storedChars
  rw [h.points_eq, Text.charPoints, List.flatMap_map, List.flatMap_congr hsize]
  simp

/-- The text of a date is read as the start of its day. -/
theorem readDay_toText (d : Date) :
    readDay d.toText.toList = .ok (⟨d.year, d.month, d.day, true⟩, []) := by
  obtain ⟨hyear, hmonth, hmonth', hday, hday', hlimit⟩ := Calendar.bounds_of_isDay d.isDay
  have hchars : d.toText.toList = Calendar.padded 2 (d.year / 100) ++
      (Calendar.padded 2 (d.year % 100) ++ '-' :: (Calendar.padded 2 d.month ++
        '-' :: (Calendar.padded 2 d.day ++ []))) := by
    rw [Date.toText, String.toList_ofList, Calendar.padded_four]
    simp only [List.append_assoc, List.cons_append, List.append_nil]
  have htwo : ∀ n, n < 100 → (Calendar.padded 2 n).length = 2 := by
    intro n hn
    rw [Calendar.padded_two hn]
    rfl
  have hlength : ¬ d.toText.toList.length < 10 := by
    rw [hchars]
    simp only [List.length_append, List.length_cons, htwo _ (show d.year / 100 < 100 by omega),
      htwo _ (show d.year % 100 < 100 by omega), htwo _ (show d.month < 100 by omega),
      htwo _ hlimit]
    omega
  have hjoin : 100 * (d.year / 100) + d.year % 100 = d.year := by omega
  have hmonths : ¬ (d.month < 1 ∨ 12 < d.month) := by omega
  have hdays : ¬ (d.day < 1 ∨ Calendar.daysIn d.year d.month < d.day) := by omega
  unfold readDay
  rw [if_neg hlength, hchars]
  simp only [twoDigits_padded _ (show d.year / 100 < 100 by omega),
    twoDigits_padded _ (show d.year % 100 < 100 by omega),
    twoDigits_padded _ (show d.month < 100 by omega), twoDigits_padded _ hlimit, mark_cons,
    bind, Except.bind, pure, Except.pure, hjoin, Bool.or_eq_true, decide_eq_true_eq, if_neg hmonths,
    if_neg hdays]

end Moment

/-- The text of a date is read as that date. -/
theorem Date.ofValue_toText (d : Date) : Date.ofValue (.text d.toText) = .accepted d := by
  have hchars : Moment.ofChars (Moment.storedChars d.toText) =
      .ok ⟨d.year, d.month, d.day, true⟩ := by
    rw [Moment.storedChars_of_isPlain d.isPlain_toText, Moment.ofChars, Moment.readDay_toText]
    rfl
  have hmoment : Moment.ofText d.toText = .ok ⟨d.year, d.month, d.day, true⟩ := by
    unfold Moment.ofText
    simp only [hchars]
  simp only [Date.ofValue, d.isPlain_toText.isWhole, hmoment, Date.ofMoment?, Date.ofMoment, if_true,
    dif_pos d.isDay]

end DealerPay
