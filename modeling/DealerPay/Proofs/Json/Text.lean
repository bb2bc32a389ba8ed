import DealerPay.Json.Printer
import DealerPay.Json.Reader
import DealerPay.Proofs.Texts

/-!
# Texts in JSON

A text that is written between quotation marks is read as that text, whatever its points are and
whatever follows the closing mark.

* `Json.codeUnit?_hexDigits`: four hexadecimal digits spell the code unit that they were made of.
* `Json.readText_pointEscape` is the step: the spelling of one point is read as that point.
* `Json.readText_flatMap` is the run over all of them.

Two halves of a character are an exception: next to each other they are read as the character.
`Text.isApart` leaves them out, and `Text.comesBack` says which texts are read as what they were.
-/

namespace DealerPay

/-! ## Texts that come back -/

namespace Text

/-- Whether two points next to each other are the halves of one character. -/
def Point.joins : Point → Point → Bool
  | half high, half low => isHighHalf high.unit && isLowHalf low.unit
  | _, _ => false

/-- Whether there are no halves of one character next to each other. -/
def isApart : List Point → Bool
  | p :: q :: rest => !p.joins q && isApart (q :: rest)
  | _ => true

/-- Whether a text is read as what it was when it has been written down. -/
def comesBack (s : String) : Bool := isSpelled s && isApart (points s)

/-- Points behind the first one are apart with it. -/
theorem isApart_of_cons {p : Point} {ps : List Point} (h : isApart (p :: ps) = true) :
    isApart ps = true := by
  cases ps with
  | nil => rfl
  | cons q rest => exact (Bool.and_eq_true_iff.1 h).2

/-- Characters are apart. -/
theorem isApart_of_isChar {ps : List Point} (h : ∀ p ∈ ps, p.isChar = true) :
    isApart ps = true := by
  induction ps with
  | nil => rfl
  | cons p rest ih =>
    rw [List.forall_mem_cons] at h
    cases rest with
    | nil => rfl
    | cons q rest =>
      have hjoins : p.joins q = false := by
        cases p with
        | char c => rfl
        | half half => cases h.1
      rw [isApart, hjoins, ih h.2]
      rfl

/-- A whole text comes back. -/
theorem comesBack_of_isWhole {s : String} (h : isWhole s = true) : comesBack s = true := by
  obtain ⟨hspelled, hchars⟩ := Bool.and_eq_true_iff.1 h
  exact Bool.and_eq_true_iff.2 ⟨hspelled, isApart_of_isChar (List.all_eq_true.1 hchars)⟩

/-- A plain text comes back. -/
theorem comesBack_of_isPlain {s : String} (h : IsPlain s) : comesBack s = true :=
  comesBack_of_isWhole h.isWhole

end Text

namespace Json

open Text (hexDigit hexDigits Point Half)

/-! ## Code units -/

/-- A hexadecimal digit has the value that it was made of. -/
theorem hexValue?_hexDigit : ∀ n < 16, hexValue? (hexDigit n) = some n := by decide

/-- Four hexadecimal digits spell the code unit that they were made of. -/
theorem codeUnit?_hexDigits {u : Nat} (h : u < 0x10000) :
    ∃ a b c d, hexDigits 4 u = [a, b, c, d] ∧ codeUnit? a b c d = some u := by
  refine ⟨_, _, _, _, rfl, ?_⟩
  unfold codeUnit?
  rw [hexValue?_hexDigit _ (by omega), hexValue?_hexDigit _ (by omega),
    hexValue?_hexDigit _ (by omega), hexValue?_hexDigit _ (by omega)]
  show some _ = some u
  congr 1
  omega

/-- Nothing but a backslash starts the second half of a pair. -/
theorem lowHalf?_of_ne {c : Char} (h : c ≠ '\\') (rest : List Char) :
    lowHalf? (c :: rest) = .ok none := by
  unfold lowHalf?
  split
  · next heq => exact absurd (List.cons.inj heq).1 h
  · rfl

/-- A code unit that is spelled out is the second half of a pair if it is one of a second half. -/
theorem lowHalf?_unitEscape {u : Nat} (h : u < 0x10000) (e : Char) (rest : List Char) :
    lowHalf? (unitEscape u ++ e :: rest) =
      .ok (if Text.isLowHalf u then some (u, e :: rest) else none) := by
  obtain ⟨a, b, c, d, hdigits, hunit⟩ := codeUnit?_hexDigits h
  rw [unitEscape, hdigits]
  simp only [List.cons_append, List.nil_append, lowHalf?, hunit]

/-- A character is the point of its code unit. -/
theorem unitPoint_toNat (c : Char) (rest : List Char) :
    unitPoint c.toNat rest = .ok (.char c, rest) := by
  unfold unitPoint
  rw [(Text.not_isHalf c).1, Point.ofUnit_toNat]
  rfl

/-- A half is the point of its code unit, unless the other half of a character follows it. -/
theorem unitPoint_half {h : Half} {rest : List Char}
    (hnext : Text.isHighHalf h.unit = true → lowHalf? rest = .ok none) :
    unitPoint h.unit rest = .ok (.half h, rest) := by
  unfold unitPoint
  split
  · next hhigh =>
    simp only [hnext hhigh, Point.ofUnit_unit]
  · rw [Point.ofUnit_unit]

/-- A character beyond the code units is the one of its pair of them. -/
theorem unitPoint_pair {c : Char} (h : 0x10000 ≤ c.toNat) (e : Char) (rest : List Char) :
    unitPoint (0xD800 + (c.toNat - 0x10000) / 0x400)
      (unitEscape (0xDC00 + (c.toNat - 0x10000) % 0x400) ++ e :: rest) =
        .ok (.char c, e :: rest) := by
  have hvalid : c.toNat < 0xD800 ∨ 0xDFFF < c.toNat ∧ c.toNat < 0x110000 := c.valid
  generalize hhigh : 0xD800 + (c.toNat - 0x10000) / 0x400 = high
  generalize hlow : 0xDC00 + (c.toNat - 0x10000) % 0x400 = low
  have hishigh : Text.isHighHalf high = true := by
    simp only [Text.isHighHalf, Bool.and_eq_true, decide_eq_true_eq]
    omega
  have hislow : Text.isLowHalf low = true := by
    simp only [Text.isLowHalf, Bool.and_eq_true, decide_eq_true_eq]
    omega
  have hpair : Text.pairChar high low = c := by
    have hsum : 0x10000 + (high - 0xD800) * 0x400 + (low - 0xDC00) = c.toNat := by omega
    rw [Text.pairChar, hsum, Char.ofNat_toNat]
  unfold unitPoint
  rw [hishigh, lowHalf?_unitEscape (by omega), hislow]
  simp only [if_true, hpair]

/-! ## Points -/

/-- A character behind a backslash and its code is read as the point of that code. -/
theorem escape_unitEscape (opening : Nat) {u : Nat} (h : u < 0x10000) (e : Char)
    (rest : List Char) :
    escape opening ('u' :: hexDigits 4 u ++ e :: rest) = unitPoint u (e :: rest) := by
  obtain ⟨a, b, c, d, hdigits, hunit⟩ := codeUnit?_hexDigits h
  rw [hdigits]
  simp only [List.cons_append, List.nil_append, escape, hunit]

/-- A point behind a backslash is followed by the rest of the text. -/
theorem readText_of_escape {opening fuel : Nat} {rest after : List Char} {p : Point}
    (h : escape opening rest = .ok (p, after)) :
    readText opening (fuel + 1) ('\\' :: rest) = do
      let (more, after) ← readText opening fuel after
      return (p.spelling ++ more, after) := by
  rw [readText, if_neg (by decide), if_pos rfl, h]
  rfl

/-- The spelling of a character is read as that character. -/
theorem readText_charEscape (opening fuel : Nat) (c e : Char) (rest : List Char) :
    readText opening (fuel + 1) (charEscape c ++ e :: rest) = do
      let (more, after) ← readText opening fuel (e :: rest)
      return ((Point.char c).spelling ++ more, after) := by
  unfold charEscape
  dsimp only
  split
  · next hmarked =>
    have hescape : escape opening (c :: e :: rest) = .ok (.char c, e :: rest) := by
      rcases Bool.or_eq_true_iff.1 hmarked with h | h
      · rw [of_decide_eq_true h]
        rfl
      · rw [of_decide_eq_true h]
        rfl
    exact readText_of_escape hescape
  · next hmarked =>
    simp only [Bool.or_eq_true, decide_eq_true_eq, not_or] at hmarked
    split
    · next hplain =>
      simp only [Bool.and_eq_true, decide_eq_true_eq] at hplain
      have hspelling : (Point.char c).spelling = [c] := by
        refine if_neg ?_
        rintro rfl
        exact absurd hplain.2 (by decide)
      rw [List.cons_append, List.nil_append, readText, if_neg hmarked.1, if_neg hmarked.2,
        if_neg (by omega), hspelling]
      rfl
    · split
      · next hunit =>
        have hescape := escape_unitEscape opening hunit e rest
        rw [unitPoint_toNat] at hescape
        exact readText_of_escape hescape
      · next hbeyond =>
        have hvalid : c.toNat < 0xD800 ∨ 0xDFFF < c.toNat ∧ c.toNat < 0x110000 := c.valid
        have hescape : escape opening ('u' :: hexDigits 4 (0xD800 + (c.toNat - 0x10000) / 0x400) ++
            (unitEscape (0xDC00 + (c.toNat - 0x10000) % 0x400) ++ e :: rest)) =
              .ok (.char c, e :: rest) :=
          (escape_unitEscape opening (by omega) '\\' _).trans (unitPoint_pair (by omega) e rest)
        rw [List.append_assoc]
        exact readText_of_escape hescape

/-- The spelling of a point is read as that point, unless it is half of a character and the other
half follows it. -/
theorem readText_pointEscape (opening fuel : Nat) {p : Point} {e : Char} {rest : List Char}
    (hnext : ∀ h, p = .half h → Text.isHighHalf h.unit = true → lowHalf? (e :: rest) = .ok none) :
    readText opening (fuel + 1) (pointEscape p ++ e :: rest) = do
      let (more, after) ← readText opening fuel (e :: rest)
      return (p.spelling ++ more, after) := by
  cases p with
  | char c => exact readText_charEscape opening fuel c e rest
  | half h =>
    have hunit : h.unit < 0x10000 := by
      have := h.bounds
      omega
    have hescape := escape_unitEscape opening hunit e rest
    rw [unitPoint_half (hnext h rfl)] at hescape
    exact readText_of_escape hescape

/-! ## Texts -/

/-- The spelling of a character does not start with the second half of a pair. -/
theorem lowHalf?_charEscape (c e : Char) (rest : List Char) :
    lowHalf? (charEscape c ++ e :: rest) = .ok none := by
  have hlow := (Text.not_isHalf c).2
  unfold charEscape
  dsimp only
  split
  · next hmarked =>
    rcases Bool.or_eq_true_iff.1 hmarked with h | h
    · rw [of_decide_eq_true h]
      rfl
    · rw [of_decide_eq_true h]
      rfl
  · next hmarked =>
    simp only [Bool.or_eq_true, decide_eq_true_eq, not_or] at hmarked
    split
    · exact lowHalf?_of_ne hmarked.2 _
    · split
      · next hunit =>
        rw [lowHalf?_unitEscape hunit, hlow]
        rfl
      · next hbeyond =>
        have hvalid : c.toNat < 0xD800 ∨ 0xDFFF < c.toNat ∧ c.toNat < 0x110000 := c.valid
        have hhigh : Text.isLowHalf (0xD800 + (c.toNat - 0x10000) / 0x400) = false := by
          simp only [Text.isLowHalf, Bool.and_eq_false_iff, decide_eq_false_iff_not]
          omega
        rw [List.append_assoc]
        refine (lowHalf?_unitEscape (by omega) '\\' _).trans ?_
        rw [hhigh]
        rfl

/-- The spelling of a point does not start with the second half of a pair, unless the point is
one. -/
theorem lowHalf?_pointEscape {h : Half} {p : Point} (hhigh : Text.isHighHalf h.unit = true)
    (hp : (Point.half h).joins p = false) (e : Char) (rest : List Char) :
    lowHalf? (pointEscape p ++ e :: rest) = .ok none := by
  cases p with
  | char c => exact lowHalf?_charEscape c e rest
  | half l =>
    have hunit : l.unit < 0x10000 := by
      have := l.bounds
      omega
    have hlow : Text.isLowHalf l.unit = false := by
      simpa only [Point.joins, hhigh, Bool.true_and] using hp
    rw [pointEscape, lowHalf?_unitEscape hunit, hlow]
    rfl

/-- A text up to its closing mark is read as that text. -/
theorem readText_flatMap (opening : Nat) {ps : List Point} (hps : Text.isApart ps = true)
    (rest : List Char) (fuel : Nat) (h : ps.length < fuel) :
    readText opening fuel (ps.flatMap pointEscape ++ '"' :: rest) =
      .ok (Text.spelling ps, rest) := by
  induction ps generalizing fuel with
  | nil =>
    obtain ⟨fuel, rfl⟩ := Nat.exists_eq_add_of_lt h
    rw [List.flatMap_nil, List.nil_append, readText, if_pos rfl]
    rfl
  | cons p ps ih =>
    obtain ⟨fuel, rfl⟩ : ∃ k, fuel = k + 1 := ⟨fuel - 1, by omega⟩
    have hrun := ih (Text.isApart_of_cons hps) fuel (by rw [List.length_cons] at h; omega)
    -- what comes next is the spelling of another point or the closing mark
    obtain ⟨e, after, heq⟩ : ∃ e after, ps.flatMap pointEscape ++ '"' :: rest = e :: after := by
      apply List.exists_cons_of_ne_nil
      simp
    have hnext : ∀ h, p = .half h → Text.isHighHalf h.unit = true →
        lowHalf? (e :: after) = .ok none := by
      rintro half rfl hhigh
      rw [← heq]
      cases ps with
      | nil => exact lowHalf?_of_ne (by decide) rest
      | cons q ps =>
        have hjoins : (Point.half half).joins q = false := by
          simpa using (Bool.and_eq_true_iff.1 hps).1
        obtain ⟨x, more, hmore⟩ : ∃ x more, ps.flatMap pointEscape ++ '"' :: rest = x :: more := by
          apply List.exists_cons_of_ne_nil
          simp
        rw [List.flatMap_cons, List.append_assoc, hmore]
        exact lowHalf?_pointEscape hhigh hjoins x more
    rw [List.flatMap_cons, List.append_assoc, heq, readText_pointEscape opening fuel hnext, ← heq,
      hrun]
    rfl

end Json

end DealerPay
