import DealerPay.Decimal.Numeral
import Mathlib.Data.List.TakeWhile
import Mathlib.Tactic.NormNum

/-!
# Numbers and their texts

The text of a number spells that number: its sign, each of its digits and its exponent come back, of
a zero as well, in the positional form as in the one with an exponent.

* `Numeral.digitsValue_digitChars`: the digits of a natural number spell it.
* `Numeral.unsigned?_pointed`: where the point stands among digits, and what exponent follows them,
  decides the exponent that is read.
* `Numeral.ofText?_toText` is the round trip for numbers whose exponents a numeral can reach.
-/

namespace DealerPay

/-! ## Digits -/

/-- A natural number is written with as many digits as it has. -/
theorem Decimal.length_digitChars (n : Nat) : (digitChars n).length = digitCount n := by
  unfold digitChars
  fun_induction digitCount n with
  | case1 n h => rw [Nat.toDigits_of_lt_base h, List.length_singleton]
  | case2 n h ih =>
    rw [Nat.toDigits_of_base_le (by norm_num) (not_lt.1 h), List.length_append, ih,
      List.length_singleton]

/-- The digits of a natural number are digits. -/
theorem Decimal.isDigit_of_mem_digitChars {n : Nat} : ∀ c ∈ digitChars n, c.isDigit = true :=
  fun _ hc => Nat.isDigit_of_mem_toDigits (by norm_num) le_rfl hc

/-- The last digit of a natural number stands behind the digits of its tens. -/
theorem Decimal.digitChars_append_digit {k d : Nat} (hk : 0 < k) (hd : d < 10) :
    digitChars (10 * k + d) = digitChars k ++ [Nat.digitChar d] := by
  unfold digitChars
  rw [← Nat.toDigits_append_toDigits (by norm_num) hk hd, Nat.toDigits_of_lt_base hd]

/-- A natural number has a digit. -/
theorem Decimal.digitChars_ne_nil (n : Nat) : digitChars n ≠ [] := Nat.toDigits_ne_nil

/-- A digit is none of the letters and signs of a numeral. -/
theorem Text.ne_of_isDigit {c x : Char} (h : c.isDigit = true) (hx : x.isDigit = false) :
    c ≠ x := by
  rintro rfl
  rw [h] at hx
  cases hx

/-- A digit is no letter and stays as it is in lower case. -/
theorem Text.toLower_of_isDigit {c : Char} (h : c.isDigit = true) : c.toLower = c := by
  have hc := Char.isDigit_iff_toNat.1 h
  unfold Char.toLower
  split
  · next hupper =>
    have : 65 ≤ c.toNat := hupper.1
    have : c.toNat ≤ 57 := hc.2
    omega
  · rfl

namespace Numeral

open Decimal (digitChars pointed signChars exponentChars)

/-- The value of digits is computed as the library computes it. -/
theorem digitsValue_eq (cs : List Char) : digitsValue cs = Nat.ofDigitChars 10 cs 0 :=
  Nat.ofDigitChars_eq_foldl.symm

/-- The digits of a natural number spell it. -/
@[simp] theorem digitsValue_digitChars (n : Nat) : digitsValue (digitChars n) = n := by
  rw [digitsValue_eq]
  exact Nat.ofDigitChars_ten_toDigits

/-- Zeros in front do not count. -/
@[simp] theorem digitsValue_zeros_append (k : Nat) (cs : List Char) :
    digitsValue (List.replicate k '0' ++ cs) = digitsValue cs := by
  rw [digitsValue_eq, digitsValue_eq, Nat.ofDigitChars_append, Nat.ofDigitChars_replicate_zero,
    Nat.mul_zero]

/-- The value of digits is below ten to the count of them. -/
theorem digitsValue_lt {cs : List Char} (h : ∀ c ∈ cs, c.isDigit = true) :
    digitsValue cs < 10 ^ cs.length := by
  induction cs with
  | nil => simp [digitsValue]
  | cons c rest ih =>
    have hrest := ih fun x hx => h x (List.mem_cons_of_mem c hx)
    have hc : c.toNat - 48 ≤ 9 := by
      have := (Char.isDigit_iff_toNat.1 (h c List.mem_cons_self)).2
      have hnine : '9'.toNat = 57 := rfl
      omega
    rw [digitsValue_eq] at hrest ⊢
    calc Nat.ofDigitChars 10 (c :: rest) 0
        = 10 ^ rest.length * (c.toNat - 48) + Nat.ofDigitChars 10 rest 0 := by
          rw [Nat.ofDigitChars_cons, Nat.ofDigitChars_eq_ofDigitChars_zero]
          simp
      _ < 10 ^ rest.length * 9 + 10 ^ rest.length :=
          Nat.add_lt_add_of_le_of_lt (Nat.mul_le_mul_left _ hc) hrest
      _ = 10 ^ (c :: rest).length := by
          rw [List.length_cons, pow_succ]
          omega

/-- Digits that end where something else starts are taken as a whole. -/
theorem takeWhile_digits {digits rest : List Char} (hdigits : ∀ c ∈ digits, c.isDigit = true)
    (hrest : ∀ c ∈ rest.head?, c.isDigit = false) :
    (digits ++ rest).takeWhile Char.isDigit = digits := by
  rw [List.takeWhile_append_of_pos hdigits]
  cases rest with
  | nil => simp
  | cons c rest => simp [hrest c rfl]

/-- What is left behind digits starts where they end. -/
theorem dropWhile_digits {digits rest : List Char} (hdigits : ∀ c ∈ digits, c.isDigit = true)
    (hrest : ∀ c ∈ rest.head?, c.isDigit = false) :
    (digits ++ rest).dropWhile Char.isDigit = rest := by
  rw [List.dropWhile_append_of_pos hdigits]
  cases rest with
  | nil => rfl
  | cons c rest => simp [hrest c rfl]

/-- Digits with a point are digits before it, one at least, and as many behind it as there are
places; together they are the digits that were given, behind zeros for those that are missing. -/
theorem exists_pointed_eq {digits : List Char} (hdigits : ∀ c ∈ digits, c.isDigit = true)
    {places : Nat} (hplaces : places ≠ 0) :
    ∃ front fraction, pointed digits places = front ++ '.' :: fraction ∧
      (∀ c ∈ front, c.isDigit = true) ∧ front ≠ [] ∧ (∀ c ∈ fraction, c.isDigit = true) ∧
      fraction.length = places ∧
      front ++ fraction = List.replicate (places + 1 - digits.length) '0' ++ digits := by
  unfold pointed
  rw [if_neg hplaces]
  generalize hpadded : List.replicate (places + 1 - digits.length) '0' ++ digits = padded
  have hlength : places < padded.length := by
    rw [← hpadded, List.length_append, List.length_replicate]
    omega
  have hall : ∀ c ∈ padded, c.isDigit = true := by
    intro c hc
    rw [← hpadded, List.mem_append] at hc
    rcases hc with hc | hc
    · rw [List.eq_of_mem_replicate hc]
      rfl
    · exact hdigits c hc
  refine ⟨_, _, rfl, fun c hc => hall c (List.mem_of_mem_take hc), ?_,
    fun c hc => hall c (List.mem_of_mem_drop hc), ?_, ?_⟩
  · rw [ne_eq, ← List.length_eq_zero_iff, List.length_take]
    omega
  · rw [List.length_drop]
    omega
  · exact List.take_append_drop _ _

/-- Digits with a point start with a digit. -/
theorem exists_pointed_eq_cons {digits : List Char} (hdigits : ∀ c ∈ digits, c.isDigit = true)
    (hne : digits ≠ []) (places : Nat) :
    ∃ c rest, pointed digits places = c :: rest ∧ c.isDigit = true := by
  have hcons : ∀ {cs : List Char}, (∀ c ∈ cs, c.isDigit = true) → cs ≠ [] → ∀ more,
      ∃ c rest, cs ++ more = c :: rest ∧ c.isDigit = true := by
    intro cs hcs hne more
    obtain ⟨c, rest, rfl⟩ := List.exists_cons_of_ne_nil hne
    exact ⟨c, rest ++ more, rfl, hcs c List.mem_cons_self⟩
  by_cases hplaces : places = 0
  · have hwhole : pointed digits places = digits ++ [] := by
      rw [pointed, if_pos hplaces, List.append_nil]
    rw [hwhole]
    exact hcons hdigits hne []
  · obtain ⟨front, fraction, heq, hfront, hfront', -⟩ := exists_pointed_eq hdigits hplaces
    rw [heq]
    exact hcons hfront hfront' _

/-- Digits with a point are digits and a point. -/
theorem isDigit_or_eq_of_mem_pointed {digits : List Char}
    (hdigits : ∀ c ∈ digits, c.isDigit = true) {places : Nat} {c : Char}
    (hc : c ∈ pointed digits places) : c.isDigit = true ∨ c = '.' := by
  by_cases hplaces : places = 0
  · rw [pointed, if_pos hplaces] at hc
    exact .inl (hdigits c hc)
  · obtain ⟨front, fraction, heq, hfront, -, hfraction, -⟩ := exists_pointed_eq hdigits hplaces
    rw [heq, List.mem_append, List.mem_cons] at hc
    rcases hc with hc | hc | hc
    · exact .inl (hfront c hc)
    · exact .inr hc
    · exact .inl (hfraction c hc)

/-! ## Numerals -/

section Unsigned

variable {front fraction tail : List Char} {e : Int}

/-- Digits without a point count whole units of what the exponent says. -/
theorem unsigned?_append (hfront : ∀ c ∈ front, c.isDigit = true) (hne : front ≠ [])
    (htail : trailer? tail = some e) (hstart : ∀ c ∈ tail.head?, c.isDigit = false ∧ c ≠ '.') :
    unsigned? (front ++ tail) = some ⟨false, digitsValue front, e⟩ := by
  have hsplit : splitFraction tail = ([], tail) := by
    unfold splitFraction
    split
    · exact absurd rfl (hstart '.' rfl).2
    · rfl
  have hempty : front.isEmpty = false := by simpa using hne
  unfold unsigned?
  dsimp only
  rw [takeWhile_digits hfront fun c hc => (hstart c hc).1,
    dropWhile_digits hfront fun c hc => (hstart c hc).1, hsplit]
  simp [htail, hempty]

/-- Digits behind a point lower the exponent by one each. -/
theorem unsigned?_append_point (hfront : ∀ c ∈ front, c.isDigit = true)
    (hfraction : ∀ c ∈ fraction, c.isDigit = true) (hne : front ++ fraction ≠ [])
    (htail : trailer? tail = some e) (hstart : ∀ c ∈ tail.head?, c.isDigit = false) :
    unsigned? (front ++ '.' :: (fraction ++ tail)) =
      some ⟨false, digitsValue (front ++ fraction), e - fraction.length⟩ := by
  have hpoint : ∀ c ∈ ('.' :: (fraction ++ tail)).head?, c.isDigit = false := by
    intro c hc
    cases hc
    rfl
  have hempty : (front.isEmpty && fraction.isEmpty) = false := by
    rw [← Bool.not_eq_true, Bool.and_eq_true, List.isEmpty_iff, List.isEmpty_iff]
    exact fun h => hne (List.append_eq_nil_iff.2 h)
  unfold unsigned?
  dsimp only
  rw [takeWhile_digits hfront hpoint, dropWhile_digits hfront hpoint]
  simp only [splitFraction, takeWhile_digits hfraction hstart, dropWhile_digits hfraction hstart]
  simp [htail, hempty]

/-- The place of the point among digits and the exponent that follows them make the exponent that is
read. -/
theorem unsigned?_pointed {digits : List Char} (hdigits : ∀ c ∈ digits, c.isDigit = true)
    (hne : digits ≠ []) (places : Nat) (htail : trailer? tail = some e)
    (hstart : ∀ c ∈ tail.head?, c.isDigit = false ∧ c ≠ '.') :
    unsigned? (pointed digits places ++ tail) = some ⟨false, digitsValue digits, e - places⟩ := by
  by_cases hplaces : places = 0
  · have hwhole : pointed digits places = digits := if_pos hplaces
    rw [hwhole, unsigned?_append hdigits hne htail hstart, hplaces, Nat.cast_zero, Int.sub_zero]
  · obtain ⟨front, fraction, heq, hfront, hfront', hfraction, hlength, hall⟩ :=
      exists_pointed_eq hdigits hplaces
    have hsome : front ++ fraction ≠ [] := fun h => hfront' (List.append_eq_nil_iff.1 h).1
    rw [heq, List.append_assoc, List.cons_append, unsigned?_append_point hfront hfraction hsome
      htail fun c hc => (hstart c hc).1, hall, digitsValue_zeros_append, hlength]

end Unsigned

/-- An exponent is read as itself. -/
theorem trailer?_exponentChars (e : Int) : trailer? (exponentChars e) = some e := by
  have hdigits : (digitChars e.natAbs).all Char.isDigit = true :=
    List.all_eq_true.2 Decimal.isDigit_of_mem_digitChars
  have hempty : (digitChars e.natAbs).isEmpty = false := by
    simpa using Decimal.digitChars_ne_nil e.natAbs
  show exponent? ((if e < 0 then '-' else '+') :: digitChars e.natAbs) = some e
  unfold exponent?
  rcases lt_or_ge e 0 with he | he
  · have habs : -(e.natAbs : Int) = e := by omega
    simp only [if_pos he, splitSign, hempty, hdigits, digitsValue_digitChars, habs, Bool.not_true,
      Bool.or_false, Bool.false_eq_true, if_false, if_true]
  · have habs : (e.natAbs : Int) = e := by omega
    simp only [if_neg (not_lt.2 he), splitSign, hempty, hdigits, digitsValue_digitChars, habs,
      Bool.not_true, Bool.or_false, Bool.false_eq_true, if_false]

/-! ## Finite numbers -/

/-- The spelling of a magnitude: digits with a point among them, and an exponent or nothing. -/
def magnitudeChars (d : Decimal) : List Char :=
  if d.exponent ≤ 0 ∧ -6 ≤ d.adjusted then
    pointed (digitChars d.coefficient) (-d.exponent).toNat
  else
    pointed (digitChars d.coefficient) (digitCount d.coefficient - 1) ++ exponentChars d.adjusted

/-- The text of a number is its sign and the spelling of its magnitude. -/
theorem toList_toText (d : Decimal) :
    d.toText.toList = signChars d.negative ++ magnitudeChars d := by
  unfold Decimal.toText magnitudeChars
  split
  · next h =>
    unfold Decimal.positional Decimal.positionalChars
    rw [String.toList_ofList]
    split
    · next hzero =>
      have hexp : d.exponent.toNat = 0 := by omega
      have hexp' : (-d.exponent).toNat = 0 := by omega
      rw [hexp, hexp', Decimal.scaled_eq, tenTo_zero, Nat.mul_one, pointed, if_pos rfl]
    · rfl
  · rw [String.toList_ofList]
    unfold Decimal.scientificChars
    dsimp only
    rw [Decimal.length_digitChars, List.append_assoc]

/-- A magnitude is read as itself. -/
theorem unsigned?_magnitudeChars (d : Decimal) :
    unsigned? (magnitudeChars d) = some { d with negative := false } := by
  have hdigits := Decimal.isDigit_of_mem_digitChars (n := d.coefficient)
  have hne := Decimal.digitChars_ne_nil d.coefficient
  unfold magnitudeChars
  split
  · next h =>
    have hexp : (0 : Int) - (-d.exponent).toNat = d.exponent := by omega
    have hend : trailer? [] = some 0 := rfl
    have hread := unsigned?_pointed hdigits hne (-d.exponent).toNat hend (by simp)
    rw [List.append_nil] at hread
    rw [hread, digitsValue_digitChars, hexp]
  · have hpos := digitCount_pos d.coefficient
    have hexp : d.adjusted - (digitCount d.coefficient - 1 : Nat) = d.exponent := by
      unfold Decimal.adjusted
      omega
    have hend := trailer?_exponentChars d.adjusted
    rw [unsigned?_pointed hdigits hne _ hend (by simp [exponentChars]), digitsValue_digitChars,
      hexp]

/-- A magnitude starts with a digit. -/
theorem exists_magnitudeChars_eq_cons (d : Decimal) :
    ∃ c rest, magnitudeChars d = c :: rest ∧ c.isDigit = true := by
  have hcons := exists_pointed_eq_cons (Decimal.isDigit_of_mem_digitChars (n := d.coefficient))
    (Decimal.digitChars_ne_nil d.coefficient)
  unfold magnitudeChars
  split
  · exact hcons _
  · obtain ⟨c, rest, heq, hc⟩ := hcons (digitCount d.coefficient - 1)
    exact ⟨c, rest ++ exponentChars d.adjusted, by rw [heq, List.cons_append], hc⟩

/-- What starts with a digit is no marker. -/
theorem special?_of_isDigit (negative : Bool) {c : Char} {rest : List Char}
    (hc : c.isDigit = true) : special? negative (c :: rest) = none := by
  have hne : ∀ x : Char, x.isDigit = false → c.toLower ≠ x := by
    intro x hx
    rw [Text.toLower_of_isDigit hc]
    exact Text.ne_of_isDigit hc hx
  unfold special?
  rw [List.map_cons]
  split
  · next h => exact absurd (List.cons.inj h).1 (hne 'i' rfl)
  · next h => exact absurd (List.cons.inj h).1 (hne 'i' rfl)
  · next h => exact absurd (List.cons.inj h).1 (hne 'n' rfl)
  · next h => exact absurd (List.cons.inj h).1 (hne 's' rfl)
  · rfl

/-- The sign of a magnitude is told from its digits. -/
theorem splitSign_signChars (negative : Bool) {c : Char} {rest : List Char}
    (hc : c.isDigit = true) :
    splitSign (signChars negative ++ c :: rest) = (negative, c :: rest) := by
  cases negative with
  | true => rfl
  | false =>
    show splitSign (c :: rest) = _
    unfold splitSign
    split
    · next h => exact absurd (List.cons.inj h).1 (Text.ne_of_isDigit hc rfl)
    · next h => exact absurd (List.cons.inj h).1 (Text.ne_of_isDigit hc rfl)
    · rfl

/-- The characters of a number's text spell the number. -/
theorem ofAscii?_toText {d : Decimal} (h : d.spellable = true) :
    ofAscii? d.toText.toList = some (.finite d) := by
  obtain ⟨c, rest, heq, hc⟩ := exists_magnitudeChars_eq_cons d
  have hread := unsigned?_magnitudeChars d
  rw [heq] at hread
  have hspell : ({ d with negative := false } : Decimal).spellable = true := h
  unfold ofAscii?
  rw [toList_toText, heq, splitSign_signChars _ hc]
  dsimp only
  rw [special?_of_isDigit _ hc, hread]
  simp only [hspell, if_true]

/-! ## Texts -/

/-- Whether a character is one of those that plain numbers are written with. -/
def isPlain (c : Char) : Bool := c.isDigit || ['+', '-', '.', 'E'].contains c

/-- The text of a number is written in such characters. -/
theorem isPlain_of_mem_toText {d : Decimal} : ∀ c ∈ d.toText.toList, isPlain c = true := by
  have hdigits : ∀ n, ∀ c ∈ digitChars n, isPlain c = true := by
    intro n c hc
    rw [isPlain, Decimal.isDigit_of_mem_digitChars c hc, Bool.true_or]
  have hpointed : ∀ places, ∀ c ∈ pointed (digitChars d.coefficient) places, isPlain c = true := by
    intro places c hc
    rcases isDigit_or_eq_of_mem_pointed Decimal.isDigit_of_mem_digitChars hc with hc | rfl
    · rw [isPlain, hc, Bool.true_or]
    · rfl
  intro c hc
  rw [toList_toText, List.mem_append] at hc
  rcases hc with hc | hc
  · unfold signChars at hc
    split at hc
    · rw [List.mem_singleton.1 hc]
      rfl
    · cases hc
  · unfold magnitudeChars at hc
    split at hc
    · exact hpointed _ c hc
    · rw [List.mem_append] at hc
      rcases hc with hc | hc
      · exact hpointed _ c hc
      · rcases List.mem_cons.1 hc with rfl | hc
        · rfl
        · rcases List.mem_cons.1 hc with rfl | hc
          · split <;> rfl
          · exact hdigits _ c hc

/-- A character of plain numbers is visible, is no underscore and counts as it is. -/
theorem asciiChar?_of_isPlain {c : Char} (h : isPlain c = true) :
    Text.isBlank c = false ∧ c ≠ '_' ∧ asciiChar? c = some c := by
  have hrange : 0x21 ≤ c.toNat ∧ c.toNat < 0x5F := by
    rcases Bool.or_eq_true_iff.1 h with h | h
    · have hdigit : 48 ≤ c.toNat ∧ c.toNat ≤ 57 := Char.isDigit_iff_toNat.1 h
      omega
    · simp only [List.contains_eq_mem, decide_eq_true_eq, List.mem_cons, List.not_mem_nil,
        or_false] at h
      rcases h with rfl | rfl | rfl | rfl <;> decide
  refine ⟨?_, ?_, if_pos (by omega)⟩
  · have hscattered : Text.scatteredBlanks.contains c.toNat = false := by
      simp only [Text.scatteredBlanks, List.contains_eq_mem, List.mem_cons, List.not_mem_nil,
        or_false, decide_eq_false_iff_not]
      omega
    unfold Text.isBlank
    simp only [hscattered, Bool.or_false, Bool.or_eq_false_iff, Bool.and_eq_false_iff,
      decide_eq_false_iff_not]
    omega
  · rintro rfl
    exact absurd hrange.2 (by decide)

/-- A text in such characters is read as it is. -/
theorem significant?_of_isPlain {s : String} (h : ∀ c ∈ s.toList, isPlain c = true) :
    significant? s = some s.toList := by
  have hblank : ∀ {cs : List Char}, (∀ c ∈ cs, isPlain c = true) →
      cs.dropWhile Text.isBlank = cs := by
    intro cs hcs
    rw [List.dropWhile_eq_self_iff]
    intro hlength
    rw [(asciiChar?_of_isPlain (hcs _ (List.getElem_mem hlength))).1]
    exact Bool.false_ne_true
  have htrim : Text.trimChars s.toList = s.toList := by
    unfold Text.trimChars
    rw [hblank h, hblank fun c hc => h c (List.mem_reverse.1 hc), List.reverse_reverse]
  have hfilter : s.toList.filter (· ≠ '_') = s.toList := by
    rw [List.filter_eq_self]
    intro c hc
    simpa using (asciiChar?_of_isPlain (h c hc)).2.1
  have hmap : ∀ {cs : List Char}, (∀ c ∈ cs, isPlain c = true) → cs.mapM asciiChar? = some cs := by
    intro cs hcs
    induction cs with
    | nil => rfl
    | cons c rest ih =>
      rw [List.mapM_cons, (asciiChar?_of_isPlain (hcs c List.mem_cons_self)).2.2,
        ih fun x hx => hcs x (List.mem_cons_of_mem c hx)]
      rfl
  rw [significant?, htrim, hfilter, hmap h]

/-- The text of a number whose exponents are within reach spells that number. -/
theorem ofText?_toText {d : Decimal} (h : d.spellable = true) :
    ofText? d.toText = some (.finite d) := by
  rw [ofText?, significant?_of_isPlain isPlain_of_mem_toText]
  exact ofAscii?_toText h

/-- The markers are no numbers. -/
theorem special?_ne_finite {negative : Bool} {cs : List Char} {d : Decimal} :
    special? negative cs ≠ some (.finite d) := by
  unfold special?
  split
  · simp
  · simp
  · simp
  · simp
  · simp

/-- The exponents of a number that a text spells are within reach. -/
theorem spellable_of_ofText? {s : String} {d : Decimal} (h : ofText? s = some (.finite d)) :
    d.spellable = true := by
  obtain ⟨cs, -, h⟩ := Option.bind_eq_some_iff.1 h
  unfold ofAscii? at h
  dsimp only at h
  split at h
  · next hspecial =>
    rw [h] at hspecial
    exact absurd hspecial special?_ne_finite
  · split at h
    · split at h
      · next hspell =>
        cases h
        exact hspell
      · cases h
    · cases h

end Numeral

end DealerPay
