import DealerPay.Proofs.Json.Ascii
import DealerPay.Proofs.Json.Contents

/-!
# Texts that were JSON

The texts of data that was JSON come back when it is written down again: two halves of a character
that are spelled next to each other are read as the character, so that none are left.

* `Text.SpellsChars` says of characters that there are no halves among the points that they spell.
* `Json.unitPoint_eq_ok` and `Json.IsPointOf` are about one point behind a backslash,
  `Json.ReadsApart` is about the points of a text from some place on.
* `Json.comesBack_of_parse` has the whole, and `Json.parse_render_iff` says of every document that
  it is read from its JSON as what comes back of it exactly if its texts come back.

Halves that stand in the text as they are, and not as code units behind a backslash, are left out.
The text of a call can have them, where two next to each other are kept.
-/

namespace DealerPay

/-! ## Characters that spell characters -/

namespace Text

/-- Whether characters are the spelling of characters. -/
def SpellsChars (cs : List Char) : Prop := ∃ us : List Char, spelling (us.map .char) = cs

/-- The mark of halves is spelled by two of them, every other character by itself. -/
theorem SpellsChars.cons_cases {c : Char} {cs : List Char} (h : SpellsChars (c :: cs)) :
    (c ≠ halfMark ∧ SpellsChars cs) ∨
      (c = halfMark ∧ ∃ rest, cs = halfMark :: rest ∧ SpellsChars rest) := by
  obtain ⟨us, hus⟩ := h
  cases us with
  | nil => cases hus
  | cons u us =>
    rw [List.map_cons, spelling, List.flatMap_cons, ← spelling, Point.spelling] at hus
    split at hus
    · cases hus
      exact .inr ⟨rfl, _, rfl, us, rfl⟩
    · next hmark =>
      cases hus
      exact .inl ⟨hmark, us, rfl⟩

/-- What such characters go on with is the spelling of characters. -/
theorem SpellsChars.of_goesOn {cs rest : List Char} (h : SpellsChars cs)
    (hrest : Json.GoesOn cs rest) : SpellsChars rest := by
  obtain ⟨taken, htaken, rfl⟩ := hrest
  induction taken with
  | nil => exact h
  | cons c taken ih =>
    rw [List.mem_cons, not_or] at htaken
    rcases h.cons_cases with ⟨-, h⟩ | ⟨rfl, -⟩
    · exact ih htaken.2 h
    · exact absurd rfl htaken.1

/-- A point is apart from others that are if it is apart from the first of them. -/
theorem isApart_cons {p : Point} {ps : List Point} (h : isApart ps = true)
    (hfirst : ∀ q ∈ ps.head?, p.joins q = false) : isApart (p :: ps) = true := by
  cases ps with
  | nil => rfl
  | cons q rest =>
    rw [isApart, hfirst q rfl, h]
    rfl

/-- What is spelled from points that are apart comes back. -/
theorem comesBack_spell {ps : List Point} (h : isApart ps = true) :
    comesBack (spell ps) = true := by
  rw [comesBack, isSpelled, points_spell, beq_self_eq_true, h]
  rfl

/-- The half of a code unit that stands alone has that code unit. -/
theorem unit_eq_of_ofUnit {u : Nat} {h : Half} (hu : Point.ofUnit u = .half h) : h.unit = u := by
  unfold Point.ofUnit Half.ofUnit? at hu
  split at hu
  · next half hhalf =>
    split at hhalf
    · cases hhalf
      cases hu
      rfl
    · cases hhalf
  · cases hu

end Text

namespace Json

open Text (Point Half SpellsChars)

/-! ## Code units -/

/-- The mark of halves is no hexadecimal digit. -/
theorem ne_halfMark_of_hexValue? {c : Char} {n : Nat} (h : hexValue? c = some n) :
    Text.halfMark ≠ c := by
  rintro rfl
  have hmark : hexValue? Text.halfMark = none := by decide
  rw [hmark] at h
  cases h

/-- Behind a code unit that is spelled out it goes on. -/
theorem goesOn_of_codeUnit? {a b c d : Char} {u : Nat} (h : codeUnit? a b c d = some u)
    (rest : List Char) : GoesOn ('u' :: a :: b :: c :: d :: rest) rest := by
  unfold codeUnit? at h
  simp only [Option.bind_eq_bind, Option.bind_eq_some_iff] at h
  obtain ⟨_, ha, _, hb, _, hc, _, hd, -⟩ := h
  refine ⟨['u', a, b, c, d], ?_, rfl⟩
  simp only [List.mem_cons, List.not_mem_nil, or_false, not_or]
  exact ⟨by decide, ne_halfMark_of_hexValue? ha, ne_halfMark_of_hexValue? hb,
    ne_halfMark_of_hexValue? hc, ne_halfMark_of_hexValue? hd⟩

/-- Behind the second half of a pair it goes on. -/
theorem goesOn_of_lowHalf? {cs after : List Char} {low : Nat}
    (h : lowHalf? cs = .ok (some (low, after))) : GoesOn cs after := by
  unfold lowHalf? at h
  split at h
  · split at h
    · cases h
    · next hunit =>
      split at h
      · cases h
        exact (goesOn_cons (by decide) _).trans (goesOn_of_codeUnit? hunit _)
      · cases h
  · cases h

/-- What is known of a point with the rest behind it, where `before` is the text from the backslash
on. -/
structure IsPointOf (before : List Char) (p : Point) (after : List Char) : Prop where
  /-- The text goes on with the rest. -/
  goesOn : GoesOn before after
  /-- Behind a first half that stands alone there is no second one. -/
  high : ∀ h, p = .half h → Text.isHighHalf h.unit = true → lowHalf? after = .ok none
  /-- A second half that stands alone was spelled out. -/
  low : ∀ h, p = .half h → Text.isLowHalf h.unit = true → lowHalf? before ≠ .ok none

/-- The point of a code unit is a character, or the half of that code unit where no second half
follows a first one. -/
theorem unitPoint_eq_ok {u : Nat} {rest after : List Char} {p : Point}
    (h : unitPoint u rest = .ok (p, after)) :
    GoesOn rest after ∧ ∀ half, p = .half half →
      half.unit = u ∧ (Text.isHighHalf u = true → lowHalf? after = .ok none) := by
  unfold unitPoint at h
  split at h
  · split at h
    · cases h
    · next hlow =>
      cases h
      exact ⟨goesOn_of_lowHalf? hlow, fun _ hhalf => by cases hhalf⟩
    · next hlow =>
      cases h
      exact ⟨.refl _, fun _ hhalf => ⟨Text.unit_eq_of_ofUnit hhalf, fun _ => hlow⟩⟩
  · next hhigh =>
    cases h
    exact ⟨.refl _, fun _ hhalf => ⟨Text.unit_eq_of_ofUnit hhalf, fun h => absurd h hhigh⟩⟩

/-- A letter behind a backslash that stands for a character is not the mark of halves. -/
theorem ne_halfMark_of_escaped? {c r : Char} (h : escaped? c = some r) : c ≠ Text.halfMark := by
  rintro rfl
  have hmark : escaped? Text.halfMark = none := by decide
  rw [hmark] at h
  cases h

/-- What is read behind a backslash is a point of the text. -/
theorem isPointOf_of_escape {opening : Nat} {rest after : List Char} {p : Point}
    (h : escape opening rest = .ok (p, after)) : IsPointOf ('\\' :: rest) p after := by
  unfold escape at h
  split at h
  · cases h
  · next a b c d e behind =>
    split at h
    · cases h
    · next u hunit =>
      obtain ⟨hafter, hhalf⟩ := unitPoint_eq_ok h
      have hbehind := (goesOn_of_codeUnit? hunit (e :: behind)).trans hafter
      refine ⟨(goesOn_cons (by decide) _).trans hbehind, ?_, ?_⟩
      · intro half hp hhigh
        obtain ⟨rfl, hnone⟩ := hhalf half hp
        exact hnone hhigh
      · intro half hp hlow
        obtain ⟨rfl, -⟩ := hhalf half hp
        simp only [lowHalf?, hunit, hlow, if_true]
        intro hnone
        cases hnone
  · cases h
  · split at h
    · next hletter =>
      cases h
      refine ⟨(goesOn_cons (by decide) _).trans (goesOn_cons (ne_halfMark_of_escaped? hletter) _),
        ?_, ?_⟩
      · intro _ hp
        cases hp
      · intro _ hp
        cases hp
    · cases h

/-! ## Texts -/

/-- What is known of the points that are read from some place in a text on, up to its end. -/
structure ReadsApart (cs : List Char) (ps : List Point) (after : List Char) : Prop where
  /-- They are apart. -/
  apart : Text.isApart ps = true
  /-- If the first one is a second half, it was spelled out. -/
  first : ∀ h, ps.head? = some (.half h) → Text.isLowHalf h.unit = true → lowHalf? cs ≠ .ok none
  /-- Behind the text there is the spelling of characters. -/
  rest : SpellsChars after

/-- A character in front of points that are apart. -/
theorem ReadsApart.char {cs cs' after : List Char} {ps : List Point} (h : ReadsApart cs ps after)
    (c : Char) : ReadsApart cs' (.char c :: ps) after where
  apart := Text.isApart_cons h.apart fun _ _ => rfl
  first _ hfirst := by cases hfirst
  rest := h.rest

/-- A point behind a backslash in front of points that are apart: the halves of one character would
have been read as the character. -/
theorem ReadsApart.point {cs behind after : List Char} {p : Point} {ps : List Point}
    (h : ReadsApart behind ps after) (hp : IsPointOf cs p behind) :
    ReadsApart cs (p :: ps) after where
  apart := by
    refine Text.isApart_cons h.apart fun q hq => ?_
    cases p with
    | char c => rfl
    | half high =>
      cases q with
      | char c => rfl
      | half low =>
        rw [Bool.eq_false_iff]
        intro hjoins
        obtain ⟨hhigh, hlow⟩ := Bool.and_eq_true_iff.1 hjoins
        exact h.first low hq hlow (hp.high high rfl hhigh)
  first half hfirst := hp.low half (Option.some.inj hfirst)
  rest := h.rest

/-- Of the mark of halves in a text it is read that it is there. -/
theorem exists_of_readText_halfMark {opening fuel : Nat} {rest chars after : List Char}
    (h : readText opening fuel (Text.halfMark :: rest) = .ok (chars, after)) :
    ∃ k more, fuel = k + 1 ∧ readText opening k rest = .ok (more, after) ∧
      chars = Text.halfMark :: more := by
  cases fuel with
  | zero => cases h
  | succ k =>
    rw [readText, if_neg (by decide), if_neg (by decide), if_neg (by decide), bind_eq_ok] at h
    obtain ⟨⟨more, after'⟩, hmore, h⟩ := h
    cases h
    exact ⟨k, more, rfl, hmore, rfl⟩

/-- What is read of a text in characters is the spelling of points that are apart. -/
theorem readsApart_of_readText {opening fuel : Nat} {cs chars after : List Char}
    (hcs : SpellsChars cs) (h : readText opening fuel cs = .ok (chars, after)) :
    ∃ ps, Text.spelling ps = chars ∧ ReadsApart cs ps after := by
  -- the mark of halves takes two steps
  induction fuel using Nat.strong_induction_on generalizing cs chars after with
  | h fuel ih =>
    unfold readText at h
    split at h
    · cases h
    · cases h
    · next fuel c rest =>
      split at h
      · next hc =>
        cases h
        refine ⟨[], rfl, rfl, fun _ hfirst => ?_, ?_⟩
        · cases hfirst
        · exact hcs.of_goesOn (goesOn_cons (by rw [hc]; decide) _)
      · split at h
        · next hc =>
          subst hc
          obtain ⟨⟨p, behind⟩, hescape, h⟩ := bind_eq_ok.1 h
          obtain ⟨⟨more, after'⟩, hmore, h⟩ := bind_eq_ok.1 h
          cases h
          have hp := isPointOf_of_escape hescape
          obtain ⟨ps, rfl, hps⟩ := ih fuel (Nat.lt_succ_self fuel) (hcs.of_goesOn hp.goesOn) hmore
          exact ⟨p :: ps, List.flatMap_cons, hps.point hp⟩
        · split at h
          · cases h
          · obtain ⟨⟨more, after'⟩, hmore, h⟩ := bind_eq_ok.1 h
            cases h
            rcases hcs.cons_cases with ⟨hmark, hrest⟩ | ⟨rfl, rest, rfl, hrest⟩
            · obtain ⟨ps, rfl, hps⟩ := ih fuel (Nat.lt_succ_self fuel) hrest hmore
              refine ⟨.char c :: ps, ?_, hps.char c⟩
              rw [Text.spelling, List.flatMap_cons, Point.spelling, if_neg hmark]
              rfl
            · obtain ⟨k, more, rfl, hbehind, rfl⟩ := exists_of_readText_halfMark hmore
              obtain ⟨ps, rfl, hps⟩ := ih k (by omega) hrest hbehind
              exact ⟨.char Text.halfMark :: ps, rfl, hps.char Text.halfMark⟩

/-! ## Data -/

/-- There are no texts in a word. -/
theorem allTexts_of_word? {cs rest : List Char} {v : Value} {p : String → Bool}
    (h : word? cs = some (v, rest)) : v.allTexts p = true := by
  unfold word? at h
  split at h <;> cases h <;> rfl

/-- Nor in a number. -/
theorem allTexts_of_readNumber {cs rest : List Char} {v : Value} {p : String → Bool}
    (h : readNumber cs = .ok (v, rest)) : v.allTexts p = true := by
  unfold readNumber at h
  dsimp only at h
  split at h
  · cases h
  · split at h
    · split at h
      · cases h
      · cases h
        rfl
    · cases h
      rfl

/-- In characters that are the spelling of characters there are texts that come back. -/
theorem holds_comesBack : Holds SpellsChars (fun s => Text.comesBack s = true)
    fun v => v.allTexts Text.comesBack = true where
  rest := SpellsChars.of_goesOn
  text hcs h := by
    obtain ⟨ps, rfl, hps⟩ := readsApart_of_readText hcs h
    exact ⟨Text.comesBack_spell hps.apart, hps.rest⟩
  value hs := hs
  word := allTexts_of_word?
  number := allTexts_of_readNumber
  list hitems := by
    rw [Value.allTexts_list, List.all_eq_true]
    exact hitems
  object hfields := by
    rw [Value.allTexts_object, List.all_eq_true]
    exact fun f hf => Bool.and_eq_true_iff.2 (hfields f hf)

/-- The texts of data that is read of characters come back. -/
theorem comesBack_of_parse {depth : Nat} {s : String} {v : Value} (h : parse depth s = .ok v) :
    v.allTexts Text.comesBack = true :=
  holds_comesBack.of_parsePoints ⟨s.toList, rfl⟩ h

mutual

/-- The texts of what comes back are those that were written down, and plain ones. -/
theorem allTexts_dumped {p : String → Bool} (hp : ∀ s, Text.IsPlain s → p s = true) :
    ∀ v : Value, (dumped v).allTexts p = v.allTexts p
  | .number n => hp _ n.isPlain_toText
  | .list items => itemsAllTexts_dumped hp items
  | .object fields => fieldsAllTexts_dumped hp fields
  | .null | .bool _ | .int _ | .float _ | .text _ => rfl

/-- The texts of items that come back are theirs. -/
theorem itemsAllTexts_dumped {p : String → Bool} (hp : ∀ s, Text.IsPlain s → p s = true) :
    ∀ items : List Value, Value.itemsAllTexts p (dumpedItems items) = Value.itemsAllTexts p items
  | [] => rfl
  | v :: rest => by
    rw [dumpedItems, Value.itemsAllTexts, Value.itemsAllTexts, allTexts_dumped hp v,
      itemsAllTexts_dumped hp rest]

/-- The names and the texts of fields that come back are theirs. -/
theorem fieldsAllTexts_dumped {p : String → Bool} (hp : ∀ s, Text.IsPlain s → p s = true) :
    ∀ fields : List (String × Value),
      Value.fieldsAllTexts p (dumpedFields fields) = Value.fieldsAllTexts p fields
  | [] => rfl
  | (_, v) :: rest => by
    rw [dumpedFields, Value.fieldsAllTexts, Value.fieldsAllTexts, allTexts_dumped hp v,
      fieldsAllTexts_dumped hp rest]

end

/-- A document is read of its JSON as what comes back of it exactly if its texts come back. -/
theorem parse_render_iff {depth : Nat} {v : Value} (h : isDocument depth v = true) :
    parse depth (render v) = .ok (dumped v) ↔ v.allTexts Text.comesBack = true := by
  constructor
  · intro hparse
    rw [← allTexts_dumped fun _ => Text.comesBack_of_isPlain]
    exact comesBack_of_parse hparse
  · exact fun htexts => parse_render ⟨h, htexts⟩

/-- The first half of a character comes back, with the second half behind it it does not. -/
example :
    let high : Half := ⟨0xD83D, by decide⟩
    let low : Half := ⟨0xDE00, by decide⟩
    Text.comesBack (Text.spell [.half high]) = true ∧
      Text.comesBack (Text.spell [.half high, .half low]) = false := by
  decide +kernel

end Json

end DealerPay
