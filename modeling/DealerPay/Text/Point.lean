/-!
# Points of texts

A text may hold halves of characters. Text that another program cut into units of 16 bits can break
off in the middle of a character, and what is left of it stands in the text by itself.

* `Half` is such a half, `Point` a character or a half.
* `spell` keeps points in a string, `points` takes them out again (`points_spell`). A half is spelled
  by `halfMark` and a sign for it, `halfMark` itself by two of them; all else is spelled as it is.
* `isSpelled` says that a string is the spelling of its points, `isWhole` that these are characters.
  A string without the mark is whole as it stands (`isWhole_of_not_mem`).
* `patched` has signs for what is unknown in the place of halves.
-/

namespace DealerPay.Text

/-! ## Halves of characters -/

/-- Whether a code unit is the first half of a pair. -/
def isHighHalf (u : Nat) : Bool := 0xD800 ≤ u && u ≤ 0xDBFF

/-- Whether a code unit is the second half of a pair. -/
def isLowHalf (u : Nat) : Bool := 0xDC00 ≤ u && u ≤ 0xDFFF

/-- Half of a character. -/
structure Half where
  /-- Its code unit. -/
  unit : Nat
  /-- This is the first or the second half of a pair. -/
  isHalf : (isHighHalf unit || isLowHalf unit) = true
deriving DecidableEq, Repr

/-- The half with a code unit, if it is one of a half. -/
def Half.ofUnit? (u : Nat) : Option Half :=
  if h : (isHighHalf u || isLowHalf u) = true then some ⟨u, h⟩ else none

/-- The code unit of a half is its own. -/
@[simp] theorem Half.ofUnit?_unit (h : Half) : ofUnit? h.unit = some h := dif_pos h.isHalf

/-- The code units of halves. -/
theorem Half.bounds (h : Half) : 0xD800 ≤ h.unit ∧ h.unit ≤ 0xDFFF := by
  have hunit := h.isHalf
  simp only [isHighHalf, isLowHalf, Bool.or_eq_true, Bool.and_eq_true, decide_eq_true_eq] at hunit
  omega

/-- The number of a character is no code unit of a half. -/
theorem not_isHalf (c : Char) : isHighHalf c.toNat = false ∧ isLowHalf c.toNat = false := by
  have hvalid : c.toNat < 0xD800 ∨ 0xDFFF < c.toNat ∧ c.toNat < 0x110000 := c.valid
  simp only [isHighHalf, isLowHalf, Bool.and_eq_false_iff, decide_eq_false_iff_not]
  omega

/-- A character is no half. -/
theorem Half.ofUnit?_toNat (c : Char) : ofUnit? c.toNat = none := by
  obtain ⟨hhigh, hlow⟩ := not_isHalf c
  rw [ofUnit?, dif_neg]
  simp [hhigh, hlow]

/-! ## Points -/

/-- What a text is made of. -/
inductive Point where
  /-- A character. -/
  | char (c : Char)
  /-- Half of one. -/
  | half (h : Half)
deriving DecidableEq, Repr

namespace Point

/-- Whether a point is a character. -/
def isChar : Point → Bool
  | char _ => true
  | half _ => false

/-- The point of a code unit that stands alone. -/
def ofUnit (u : Nat) : Point :=
  match Half.ofUnit? u with
  | some h => half h
  | none => char (Char.ofNat u)

/-- A half is the point of its code unit. -/
theorem ofUnit_unit (h : Half) : ofUnit h.unit = half h := by
  rw [ofUnit, Half.ofUnit?_unit]

/-- A character is the point of its number. -/
theorem ofUnit_toNat (c : Char) : ofUnit c.toNat = char c := by
  rw [ofUnit, Half.ofUnit?_toNat, Char.ofNat_toNat]

end Point

/-! ## Spelling -/

/-- The character that the spelling of a half starts with. It is the last one of all, which has no
meaning in any text. -/
def halfMark : Char := Char.ofNat 0x10FFFF

/-- How far the sign of a half is from its code unit, among the characters for private use. -/
def signDistance : Nat := 0xE2800

/-- The sign of a half. -/
def Half.sign (h : Half) : Char := Char.ofNat (h.unit + signDistance)

/-- The half that a character is the sign of. -/
def Half.ofSign? (c : Char) : Option Half := ofUnit? (c.toNat - signDistance)

/-- The sign of a half is its own. -/
theorem Half.ofSign?_sign (h : Half) : ofSign? h.sign = some h := by
  have hbounds := h.bounds
  have hdistance : signDistance = 0xE2800 := rfl
  have hvalid : (h.unit + signDistance).isValidChar := .inr ⟨by omega, by omega⟩
  have hnumber : h.sign.toNat = h.unit + signDistance := by
    rw [sign, Char.ofNat, dif_pos hvalid]
    rfl
  rw [ofSign?, hnumber, Nat.add_sub_cancel, ofUnit?_unit]

/-- The mark is no sign. -/
theorem Half.sign_ne_halfMark (h : Half) : h.sign ≠ halfMark := by
  intro hsign
  have hmark : ofSign? halfMark = none := by decide
  rw [← hsign, ofSign?_sign] at hmark
  cases hmark

/-- A point as characters. -/
def Point.spelling : Point → List Char
  | char c => if c = halfMark then [halfMark, halfMark] else [c]
  | half h => [halfMark, h.sign]

/-- Points as characters. -/
def spelling (ps : List Point) : List Char := ps.flatMap Point.spelling

/-- Points as a string. -/
def spell (ps : List Point) : String := String.ofList (spelling ps)

/-- The point that two characters spell together, if they do. -/
def pairPoint? (c d : Char) : Option Point :=
  if c = halfMark then
    if d = halfMark then some (.char halfMark) else (Half.ofSign? d).map .half
  else none

/-- The points that characters spell. A mark that has no business where it stands is a character like
others. -/
def pointsOf : List Char → List Point
  | [] => []
  | [c] => [.char c]
  | c :: d :: rest =>
    match pairPoint? c d with
    | some p => p :: pointsOf rest
    | none => .char c :: pointsOf (d :: rest)

/-- The points of a text. -/
def points (s : String) : List Point := pointsOf s.toList

/-- The points of a string in which the mark is a character like others. -/
def charPoints (s : String) : List Point := s.toList.map .char

/-- Whether a string is how its points are spelled. -/
def isSpelled (s : String) : Bool := spell (points s) == s

/-- Whether a text has no halves of characters in it. -/
def isWhole (s : String) : Bool := isSpelled s && (points s).all Point.isChar

/-- Another character than the mark is a point of its own. -/
theorem pointsOf_cons {c : Char} (h : c ≠ halfMark) (cs : List Char) :
    pointsOf (c :: cs) = .char c :: pointsOf cs := by
  cases cs with
  | nil => rfl
  | cons d rest =>
    have hpair : pairPoint? c d = none := if_neg h
    simp only [pointsOf, hpair]

/-- The spelling of a point is read as that point, whatever follows it. -/
theorem pointsOf_spelling (p : Point) (cs : List Char) :
    pointsOf (p.spelling ++ cs) = p :: pointsOf cs := by
  cases p with
  | char c =>
    rw [Point.spelling]
    split
    · next hmark =>
      have hpair : pairPoint? halfMark halfMark = some (.char halfMark) := by decide
      simp only [List.cons_append, List.nil_append, pointsOf, hpair, hmark]
    · next hmark => exact pointsOf_cons hmark cs
  | half h =>
    have hpair : pairPoint? halfMark h.sign = some (.half h) := by
      rw [pairPoint?, if_pos rfl, if_neg h.sign_ne_halfMark, Half.ofSign?_sign, Option.map_some]
    simp only [Point.spelling, List.cons_append, List.nil_append, pointsOf, hpair]

/-- The points of a text are those that it was spelled from. -/
@[simp] theorem points_spell (ps : List Point) : points (spell ps) = ps := by
  rw [points, spell, String.toList_ofList]
  induction ps with
  | nil => rfl
  | cons p rest ih => rw [spelling, List.flatMap_cons, pointsOf_spelling, ← spelling, ih]

/-- A text that is spelled is the spelling of its points. -/
theorem spell_points {s : String} (h : isSpelled s = true) : spell (points s) = s := eq_of_beq h

/-! ## Texts without the mark -/

/-- Characters other than the mark are spelled as they are. -/
theorem spelling_map_char {cs : List Char} (h : halfMark ∉ cs) : spelling (cs.map .char) = cs := by
  induction cs with
  | nil => rfl
  | cons c rest ih =>
    rw [List.mem_cons, not_or] at h
    rw [List.map_cons, spelling, List.flatMap_cons, Point.spelling, if_neg (Ne.symm h.1),
      ← spelling, ih h.2, List.singleton_append]

/-- A text without the mark has its characters for points. -/
theorem points_of_not_mem {s : String} (h : halfMark ∉ s.toList) : points s = charPoints s := by
  have hs : spell (charPoints s) = s := by
    rw [spell, charPoints, spelling_map_char h, String.ofList_toList]
  rw [← hs, points_spell, hs]

/-- A text without the mark is whole. -/
theorem isWhole_of_not_mem {s : String} (h : halfMark ∉ s.toList) : isWhole s = true := by
  have hs : spell (points s) = s := by
    rw [points_of_not_mem h, spell, charPoints, spelling_map_char h, String.ofList_toList]
  rw [isWhole, isSpelled, hs, beq_self_eq_true, Bool.true_and, points_of_not_mem h, charPoints,
    List.all_map]
  exact List.all_eq_true.2 fun _ _ => rfl

/-! ## Texts without halves -/

/-- The character that stands for one that is unknown. -/
def unknownChar : Char := Char.ofNat 0xFFFD

/-- A text in which every byte of a half is replaced by the sign for an unknown character. -/
def patched (s : String) : String :=
  spell ((points s).flatMap fun
    | .char c => [.char c]
    | .half _ => List.replicate 3 (.char unknownChar))

end DealerPay.Text
