import DealerPay.Proofs.Decimal.Spelling
import Mathlib.Data.List.Basic
import Mathlib.Data.List.Induction

/-!
# The grammar of numerals

Which characters write a finite number, said without the scanner that reads them.

* `Numeral.IsFinite` is the grammar: a sign or none (`Numeral.IsSign`), digits, a fraction or none
  (`Numeral.IsFraction`), with one digit at least in all, and an exponent or none
  (`Numeral.IsExponent`).
* `Numeral.ofAscii?_eq_finite_iff`: the scanner accepts exactly that, as the number `Numeral.written`
  whose digits are all of those that are there.
* `Numeral.counted` are the characters of a text that count. `Numeral.ofText?_eq_finite_iff` says the
  same of texts.
* `Numeral.digitChars_digitsValue`: digits are kept as they are written, but for zeros in front.

An infinity and the markers are in no such form, and neither is what holds a character that is no
ASCII character and no digit of any script.
-/

namespace DealerPay

namespace Numeral

open Decimal (digitChars)

/-! ## The grammar -/

/-- Whether characters write a sign, which makes a number negative or does not. -/
inductive IsSign : List Char → Bool → Prop
  /-- Nothing is written. -/
  | none : IsSign [] false
  /-- A plus sign is. -/
  | plus : IsSign ['+'] false
  /-- A minus sign is. -/
  | minus : IsSign ['-'] true

/-- Whether characters write a fraction of these digits. -/
inductive IsFraction : List Char → List Char → Prop
  /-- Nothing is written. -/
  | none : IsFraction [] []
  /-- There is a point, and digits are behind it. -/
  | point {digits : List Char} (h : ∀ c ∈ digits, c.isDigit = true) :
    IsFraction ('.' :: digits) digits

/-- Whether characters write an exponent. -/
inductive IsExponent : List Char → ℤ → Prop
  /-- Nothing is written. -/
  | none : IsExponent [] 0
  /-- There is a letter for it, and digits are behind the letter and a sign or none. -/
  | marked {letter : Char} {sign digits : List Char} {negative : Bool}
    (hletter : letter = 'e' ∨ letter = 'E') (hsign : IsSign sign negative)
    (hdigits : ∀ c ∈ digits, c.isDigit = true) (hne : digits ≠ []) :
    IsExponent (letter :: (sign ++ digits))
      (if negative then -(Nat.ofDigitChars 10 digits 0 : ℤ) else Nat.ofDigitChars 10 digits 0)

/-- Whether characters write a finite number with this sign, these digits in front of the point and
behind it, and this exponent. -/
inductive IsFinite : List Char → Bool → List Char → List Char → ℤ → Prop
  /-- One part is behind the other, and there is a digit in front of the point or behind it. -/
  | mk {sign front point fraction tail : List Char} {negative : Bool} {e : ℤ}
    (hsign : IsSign sign negative) (hfront : ∀ c ∈ front, c.isDigit = true)
    (hfraction : IsFraction point fraction) (hexponent : IsExponent tail e)
    (hne : front ++ fraction ≠ []) :
    IsFinite (sign ++ (front ++ (point ++ tail))) negative front fraction e

/-- The number that is written with this sign, these digits in front of the point and behind it, and
this exponent. -/
def written (negative : Bool) (front fraction : List Char) (e : ℤ) : Decimal :=
  ⟨negative, digitsValue (front ++ fraction), e - fraction.length⟩

/-! ## Signs -/

/-- What is split off as a sign is one, and nothing is lost. -/
theorem exists_of_splitSign {cs body : List Char} {negative : Bool}
    (h : splitSign cs = (negative, body)) : ∃ sign, IsSign sign negative ∧ cs = sign ++ body := by
  unfold splitSign at h
  split at h
  · cases h
    exact ⟨_, .plus, rfl⟩
  · cases h
    exact ⟨_, .minus, rfl⟩
  · cases h
    exact ⟨_, .none, rfl⟩

/-- A sign in front of what does not start with one is split off. -/
theorem IsSign.splitSign_append {sign body : List Char} {negative : Bool}
    (h : IsSign sign negative) (hbody : ∀ c ∈ body.head?, c ≠ '+' ∧ c ≠ '-') :
    splitSign (sign ++ body) = (negative, body) := by
  cases h with
  | none =>
    show splitSign body = _
    unfold splitSign
    split
    · exact absurd rfl (hbody '+' rfl).1
    · exact absurd rfl (hbody '-' rfl).2
    · rfl
  | plus => rfl
  | minus => rfl

/-- A digit is no sign. -/
theorem ne_sign_of_isDigit {c : Char} (h : c.isDigit = true) : c ≠ '+' ∧ c ≠ '-' :=
  ⟨Text.ne_of_isDigit h rfl, Text.ne_of_isDigit h rfl⟩

/-! ## Fractions and exponents -/

/-- What is split off as a fraction is one, and nothing is lost. -/
theorem exists_isFraction_splitFraction (cs : List Char) :
    ∃ point, IsFraction point (splitFraction cs).1 ∧ cs = point ++ (splitFraction cs).2 := by
  unfold splitFraction
  split
  · next rest =>
    refine ⟨_, .point fun c hc => List.mem_takeWhile_imp hc, ?_⟩
    rw [List.cons_append, List.takeWhile_append_dropWhile]
  · exact ⟨_, .none, rfl⟩

/-- What is read as an exponent is one. -/
theorem isExponent_of_trailer? {cs : List Char} {e : ℤ} (h : trailer? cs = some e) :
    IsExponent cs e := by
  unfold trailer? at h
  split at h
  · cases h
    exact .none
  · next letter rest =>
    split at h
    · next hletter =>
      rw [Bool.or_eq_true, decide_eq_true_eq, decide_eq_true_eq] at hletter
      unfold exponent? at h
      cases hsplit : splitSign rest with | mk negative digits
      obtain ⟨sign, hsign, rfl⟩ := exists_of_splitSign hsplit
      rw [hsplit] at h
      dsimp only at h
      split at h
      · cases h
      · next hdigits =>
        rw [Bool.or_eq_true, not_or, List.isEmpty_iff, Bool.not_eq_true', Bool.not_eq_false,
          List.all_eq_true] at hdigits
        cases h
        rw [digitsValue_eq]
        exact .marked hletter hsign hdigits.2 hdigits.1
    · cases h

/-- An exponent is read as such. -/
theorem IsExponent.trailer?_eq {cs : List Char} {e : ℤ} (h : IsExponent cs e) :
    trailer? cs = some e := by
  cases h with
  | none => rfl
  | @marked letter sign digits negative hletter hsign hdigits hne =>
    have hhead : ∀ c ∈ digits.head?, c ≠ '+' ∧ c ≠ '-' := fun c hc =>
      ne_sign_of_isDigit (hdigits c (List.mem_of_mem_head? hc))
    have hletter' : (letter = 'e' || letter = 'E') = true := by simpa using hletter
    have hempty : digits.isEmpty = false := by simpa using hne
    have hall : digits.all Char.isDigit = true := List.all_eq_true.2 hdigits
    unfold trailer?
    simp only [hletter', if_true, exponent?, hsign.splitSign_append hhead, hempty, hall,
      Bool.not_true, Bool.or_false, Bool.false_eq_true, if_false, digitsValue_eq]

/-- An exponent starts neither with a digit nor with a point. -/
theorem IsExponent.head_ne {cs : List Char} {e : ℤ} (h : IsExponent cs e) :
    ∀ c ∈ cs.head?, c.isDigit = false ∧ c ≠ '.' := by
  intro c hc
  cases h with
  | none => cases hc
  | marked hletter =>
    cases hc
    rcases hletter with rfl | rfl <;> decide

/-! ## Numbers without a sign -/

section Unsigned

variable {cs front point fraction tail : List Char} {e : ℤ} {d : Decimal}

/-- What is read as a number without a sign is written as one. -/
theorem exists_of_unsigned? (h : unsigned? cs = some d) :
    ∃ front point fraction tail e, cs = front ++ (point ++ tail) ∧
      (∀ c ∈ front, c.isDigit = true) ∧ IsFraction point fraction ∧ IsExponent tail e ∧
      front ++ fraction ≠ [] ∧ d = written false front fraction e := by
  unfold unsigned? at h
  dsimp only at h
  obtain ⟨point, hpoint, hbehind⟩ :=
    exists_isFraction_splitFraction (cs.dropWhile Char.isDigit)
  obtain ⟨e, he, h⟩ := Option.bind_eq_some_iff.1 h
  split at h
  · cases h
  · next hsome =>
    cases h
    refine ⟨_, point, _, _, e, ?_, fun c hc => List.mem_takeWhile_imp hc, hpoint,
      isExponent_of_trailer? he, ?_, rfl⟩
    · rw [← hbehind, List.takeWhile_append_dropWhile]
    · rw [Bool.and_eq_true, List.isEmpty_iff, List.isEmpty_iff] at hsome
      exact fun hnil => hsome (List.append_eq_nil_iff.1 hnil)

/-- A number without a sign is read as such. -/
theorem unsigned?_eq_written (hfront : ∀ c ∈ front, c.isDigit = true)
    (hfraction : IsFraction point fraction) (htail : IsExponent tail e)
    (hne : front ++ fraction ≠ []) :
    unsigned? (front ++ (point ++ tail)) = some (written false front fraction e) := by
  cases hfraction with
  | none =>
    rw [List.append_nil] at hne
    rw [List.nil_append, unsigned?_append hfront hne htail.trailer?_eq htail.head_ne, written,
      List.append_nil, List.length_nil, Nat.cast_zero, Int.sub_zero]
  | point hdigits =>
    rw [List.cons_append]
    exact unsigned?_append_point hfront hdigits hne htail.trailer?_eq fun c hc =>
      (htail.head_ne c hc).1

/-- A number without a sign starts with a digit or a point. -/
theorem exists_eq_cons (tail : List Char) (hfront : ∀ c ∈ front, c.isDigit = true)
    (hfraction : IsFraction point fraction) (hne : front ++ fraction ≠ []) :
    ∃ c rest, front ++ (point ++ tail) = c :: rest ∧ (c.isDigit = true ∨ c = '.') := by
  cases front with
  | cons c rest => exact ⟨c, _, rfl, .inl (hfront c List.mem_cons_self)⟩
  | nil =>
    cases hfraction with
    | none => exact absurd rfl hne
    | point => exact ⟨'.', _, rfl, .inr rfl⟩

end Unsigned

/-! ## Numbers -/

/-- What starts with a digit or a point is no marker. -/
theorem special?_of_isDigit_or_point (negative : Bool) {c : Char} {rest : List Char}
    (hc : c.isDigit = true ∨ c = '.') : special? negative (c :: rest) = none := by
  rcases hc with hc | rfl
  · exact special?_of_isDigit negative hc
  · rfl

/-- A finite number is read behind its sign. -/
theorem IsFinite.splitSign_eq {cs : List Char} {negative : Bool} {front fraction : List Char}
    {e : ℤ} (h : IsFinite cs negative front fraction e) :
    ∃ c rest, splitSign cs = (negative, c :: rest) ∧ (c.isDigit = true ∨ c = '.') ∧
      unsigned? (c :: rest) = some (written false front fraction e) := by
  obtain ⟨hsign, hfront, hfraction, hexponent, hne⟩ := h
  rename_i sign point tail
  have hread := unsigned?_eq_written hfront hfraction hexponent hne
  obtain ⟨c, rest, hbody, hc⟩ := exists_eq_cons tail hfront hfraction hne
  have hhead : ∀ x ∈ (c :: rest).head?, x ≠ '+' ∧ x ≠ '-' := by
    intro x hx
    cases hx
    rcases hc with hc | rfl
    · exact ne_sign_of_isDigit hc
    · decide
  rw [hbody] at hread ⊢
  exact ⟨c, rest, hsign.splitSign_append hhead, hc, hread⟩

/-- The scanner accepts exactly what the grammar writes, as long as the exponents of the number are
within reach. -/
theorem ofAscii?_eq_finite_iff {cs : List Char} {d : Decimal} :
    ofAscii? cs = some (.finite d) ↔ d.spellable = true ∧ ∃ negative front fraction e,
      IsFinite cs negative front fraction e ∧ d = written negative front fraction e := by
  constructor
  · intro h
    unfold ofAscii? at h
    cases hsplit : splitSign cs with | mk negative body
    obtain ⟨sign, hsign, rfl⟩ := exists_of_splitSign hsplit
    rw [hsplit] at h
    dsimp only at h
    split at h
    · next hspecial =>
      rw [h] at hspecial
      exact absurd hspecial special?_ne_finite
    · split at h
      · next m hm =>
        split at h
        · next hspell =>
          cases h
          obtain ⟨front, point, fraction, tail, e, rfl, hfront, hfraction, hexponent, hne, rfl⟩ :=
            exists_of_unsigned? hm
          exact ⟨hspell, negative, front, fraction, e,
            .mk hsign hfront hfraction hexponent hne, rfl⟩
        · cases h
      · cases h
  · rintro ⟨hspell, negative, front, fraction, e, hcs, rfl⟩
    obtain ⟨c, rest, hsplit, hc, hread⟩ := hcs.splitSign_eq
    have hspell' : (written false front fraction e).spellable = true := hspell
    unfold ofAscii?
    simp only [hsplit, special?_of_isDigit_or_point negative hc, hread, hspell', if_true]
    rfl

/-! ## The characters that count -/

/-- A digit of any script as the digit of the same value in ASCII, and another character as it is. -/
def asDigit (c : Char) : Char :=
  match Text.digitValue? c with
  | some v => Char.ofNat (48 + v)
  | none => c

/-- What counts of a text: all but the blanks around it and the underscores, with the digits of
every script as those in ASCII. -/
def counted (s : String) : List Char :=
  ((Text.trimChars s.toList).filter (· ≠ '_')).map asDigit

/-- An ASCII digit stays as it is. -/
theorem asDigit_of_lt {c : Char} (h : c.toNat < 128) : asDigit c = c := by
  unfold asDigit
  split
  · next v hv =>
    unfold Text.digitValue? at hv
    obtain ⟨z, hz, rfl⟩ := Option.map_eq_some_iff.1 hv
    have hmem := List.mem_of_find?_eq_some hz
    have hrange := List.find?_some hz
    simp only [Bool.and_eq_true, decide_eq_true_eq] at hrange
    have hzero : z = 48 := by
      have hlow : ∀ y ∈ Text.digitZeros, y < 128 → y = 48 := by decide
      exact hlow z hmem (by omega)
    have hc : 48 + (c.toNat - z) = c.toNat := by omega
    rw [hc, Char.ofNat_toNat]
  · rfl

/-- The digit of a value below ten is an ASCII character. -/
theorem toNat_ofNat_lt : ∀ {v : Nat}, v < 10 → (Char.ofNat (48 + v)).toNat < 128 := by
  decide

/-- A character counts as itself in ASCII or as the digit that it is, if it is one of both. -/
theorem asciiChar?_eq_some_iff {c x : Char} :
    asciiChar? c = some x ↔ asDigit c = x ∧ x.toNat < 128 := by
  unfold asciiChar?
  by_cases hc : c.toNat < 128
  · rw [if_pos hc, asDigit_of_lt hc, Option.some_inj]
    constructor
    · rintro rfl
      exact ⟨rfl, hc⟩
    · exact fun h => h.1
  · rw [if_neg hc]
    unfold asDigit
    cases hv : Text.digitValue? c with
    | none =>
      simp only [Option.map_none, reduceCtorEq, false_iff]
      rintro ⟨rfl, hlt⟩
      exact hc hlt
    | some v =>
      rw [Option.map_some, Option.some_inj]
      constructor
      · rintro rfl
        exact ⟨rfl, toNat_ofNat_lt (Text.digitValue?_lt hv)⟩
      · exact fun h => h.1

/-- The characters of a text that count are read if all of them are in ASCII or digits. -/
theorem significant?_eq_some_iff {s : String} {cs : List Char} :
    significant? s = some cs ↔ counted s = cs ∧ ∀ c ∈ cs, c.toNat < 128 := by
  unfold significant? counted
  generalize (Text.trimChars s.toList).filter (· ≠ '_') = raw
  induction raw generalizing cs with
  | nil =>
    constructor
    · intro h
      cases h
      exact ⟨rfl, by simp⟩
    · rintro ⟨rfl, -⟩
      rfl
  | cons c rest ih =>
    rw [List.mapM_cons, List.map_cons]
    constructor
    · intro h
      obtain ⟨x, hx, h⟩ := Option.bind_eq_some_iff.1 h
      obtain ⟨xs, hxs, h⟩ := Option.bind_eq_some_iff.1 h
      cases h
      obtain ⟨hx, hlt⟩ := asciiChar?_eq_some_iff.1 hx
      obtain ⟨hxs, hrest⟩ := ih.1 hxs
      exact ⟨by rw [hx, hxs], List.forall_mem_cons.2 ⟨hlt, hrest⟩⟩
    · rintro ⟨rfl, h⟩
      obtain ⟨hlt, hrest⟩ := List.forall_mem_cons.1 h
      rw [asciiChar?_eq_some_iff.2 ⟨rfl, hlt⟩, ih.2 ⟨rfl, hrest⟩]
      rfl

/-- The digits of a finite number are digits. -/
theorem IsFinite.isDigit_of_mem {cs : List Char} {negative : Bool} {front fraction : List Char}
    {e : ℤ} (h : IsFinite cs negative front fraction e) :
    ∀ c ∈ front ++ fraction, c.isDigit = true := by
  obtain ⟨-, hfront, hfraction, -, -⟩ := h
  intro c hc
  rcases List.mem_append.1 hc with hc | hc
  · exact hfront c hc
  · cases hfraction with
    | none => cases hc
    | point hdigits => exact hdigits c hc

/-- A finite number is written in ASCII characters. -/
theorem IsFinite.toNat_lt {cs : List Char} {negative : Bool} {front fraction : List Char} {e : ℤ}
    (h : IsFinite cs negative front fraction e) : ∀ c ∈ cs, c.toNat < 128 := by
  have hdigit : ∀ {c : Char}, c.isDigit = true → c.toNat < 128 := by
    intro c hc
    have hrange : 48 ≤ c.toNat ∧ c.toNat ≤ 57 := Char.isDigit_iff_toNat.1 hc
    omega
  have hsigns : ∀ {sign : List Char} {negative : Bool}, IsSign sign negative →
      ∀ c ∈ sign, c.toNat < 128 := by
    intro sign negative hsign
    cases hsign <;> simp
  obtain ⟨hsign, hfront, hfraction, hexponent, -⟩ := h
  intro c hc
  simp only [List.mem_append] at hc
  rcases hc with hc | hc | hc | hc
  · exact hsigns hsign c hc
  · exact hdigit (hfront c hc)
  · cases hfraction with
    | none => cases hc
    | point hfraction =>
      rcases List.mem_cons.1 hc with rfl | hc
      · decide
      · exact hdigit (hfraction c hc)
  · cases hexponent with
    | none => cases hc
    | marked hletter hsign' hdigits' =>
      rcases List.mem_cons.1 hc with rfl | hc
      · rcases hletter with rfl | rfl <;> decide
      · rcases List.mem_append.1 hc with hc | hc
        · exact hsigns hsign' c hc
        · exact hdigit (hdigits' c hc)

/-- A text spells a finite number exactly if what counts of it writes one, with exponents within
reach. -/
theorem ofText?_eq_finite_iff {s : String} {d : Decimal} :
    ofText? s = some (.finite d) ↔ d.spellable = true ∧ ∃ negative front fraction e,
      IsFinite (counted s) negative front fraction e ∧ d = written negative front fraction e := by
  unfold ofText?
  rw [Option.bind_eq_some_iff]
  constructor
  · rintro ⟨cs, hcs, hread⟩
    rw [(significant?_eq_some_iff.1 hcs).1]
    exact ofAscii?_eq_finite_iff.1 hread
  · intro h
    obtain ⟨-, negative, front, fraction, e, hwritten, -⟩ := id h
    exact ⟨counted s, significant?_eq_some_iff.2 ⟨rfl, hwritten.toNat_lt⟩,
      ofAscii?_eq_finite_iff.2 h⟩

/-! ## The digits that are kept -/

/-- Digits without the zeros in front of them; of zeros alone there remains one. -/
def withoutZeros (digits : List Char) : List Char :=
  match digits.dropWhile (· = '0') with
  | [] => ['0']
  | kept => kept

/-- A digit is the one of its value. -/
theorem digitChar_toNat_sub {c : Char} (h : c.isDigit = true) :
    Nat.digitChar (c.toNat - 48) = c := by
  have hrange : 48 ≤ c.toNat ∧ c.toNat ≤ 57 := Char.isDigit_iff_toNat.1 h
  have htable : ∀ v < 10, Nat.digitChar v = Char.ofNat (48 + v) := by decide
  have hc : 48 + (c.toNat - 48) = c.toNat := by omega
  rw [htable _ (by omega), hc, Char.ofNat_toNat]

/-- Digits that do not start with a zero are those of the number that they spell. -/
theorem digitChars_digitsValue_of_head {digits : List Char}
    (hdigits : ∀ c ∈ digits, c.isDigit = true) (hne : digits ≠ [])
    (hhead : digits.head? ≠ some '0') : digitChars (digitsValue digits) = digits := by
  induction digits using List.reverseRecOn with
  | nil => exact absurd rfl hne
  | append_singleton front c ih =>
    have hc : c.isDigit = true := hdigits c (by simp)
    have hrange : 48 ≤ c.toNat ∧ c.toNat ≤ 57 := Char.isDigit_iff_toNat.1 hc
    have hvalue : digitsValue (front ++ [c]) = 10 * digitsValue front + (c.toNat - 48) := by
      unfold digitsValue
      rw [List.foldl_append]
      rfl
    rw [hvalue]
    rcases eq_or_ne front [] with rfl | hfront
    · show digitChars (0 + (c.toNat - 48)) = [c]
      rw [Nat.zero_add, Decimal.digitChars, Nat.toDigits_of_lt_base (by omega),
        digitChar_toNat_sub hc]
    · rw [List.head?_append_of_ne_nil _ hfront] at hhead
      have hprefix := ih (fun x hx => hdigits x (List.mem_append_left _ hx)) hfront hhead
      -- digits that start with another one than zero spell no zero
      have hpos : 0 < digitsValue front := by
        rw [Nat.pos_iff_ne_zero]
        intro hzero
        rw [hzero] at hprefix
        rw [← hprefix] at hhead
        exact hhead rfl
      rw [Decimal.digitChars_append_digit hpos (by omega), hprefix, digitChar_toNat_sub hc]

/-- Digits are kept as they are written, but for the zeros in front of them. -/
theorem digitChars_digitsValue {digits : List Char} (hdigits : ∀ c ∈ digits, c.isDigit = true) :
    digitChars (digitsValue digits) = withoutZeros digits := by
  have hzeros : digits.takeWhile (· = '0') =
      List.replicate (digits.takeWhile (· = '0')).length '0' :=
    List.eq_replicate_of_mem fun c hc => by simpa using List.mem_takeWhile_imp hc
  have hvalue : digitsValue digits = digitsValue (digits.dropWhile (· = '0')) := by
    nth_rewrite 1 [← List.takeWhile_append_dropWhile (p := (· = '0')) (l := digits)]
    rw [hzeros, digitsValue_zeros_append]
  unfold withoutZeros
  rw [hvalue]
  split
  · next hnil =>
    rw [hnil]
    rfl
  · next hkept =>
    have hhead := List.head?_dropWhile_not (p := (· = '0')) digits
    refine digitChars_digitsValue_of_head (fun c hc => hdigits c ?_) hkept ?_
    · exact (List.dropWhile_sublist _).mem hc
    · intro hzero
      rw [hzero] at hhead
      simp at hhead

end Numeral

end DealerPay
