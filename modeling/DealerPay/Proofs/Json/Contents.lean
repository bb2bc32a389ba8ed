import DealerPay.Json.Reader
import DealerPay.Proofs.Outcome
import Mathlib.Data.List.TakeWhile

/-!
# What is read of a text

A value that is read of a text is made of the words, the numbers and the texts that stand there.
What is known of them wherever they stand is known of the value.

* `Json.GoesOn`: blanks, words and numbers are taken off the front of a text. The mark of halves is
  not among them.
* `Json.Holds` lists what has to be known of the parts, for characters of some sort.
* `Json.Finds` is what follows for all that is read with so much fuel: one step for values, items
  and fields each, then `Json.Holds.finds` by induction and `Json.Holds.of_parsePoints` for whole
  texts.
-/

namespace DealerPay

/-- Where a field is set, its name and its value are all that can be new. -/
theorem Fields.forall_mem_put {fs : Fields} {key : String} {v : Value} {P : String → Prop}
    {Q : Value → Prop} (hfs : ∀ f ∈ fs, P f.1 ∧ Q f.2) (hkey : P key) (hv : Q v) :
    ∀ f ∈ fs.put key v, P f.1 ∧ Q f.2 := by
  induction fs with
  | nil => exact List.forall_mem_singleton.2 ⟨hkey, hv⟩
  | cons field rest ih =>
    rw [List.forall_mem_cons] at hfs
    rw [put]
    split
    · exact List.forall_mem_cons.2 ⟨⟨hfs.1.1, hv⟩, hfs.2⟩
    · exact List.forall_mem_cons.2 ⟨hfs.1, ih hfs.2⟩

namespace Json

/-! ## What is taken off a text -/

/-- Whether characters go on with a rest behind others that are not the mark of halves. -/
def GoesOn (cs rest : List Char) : Prop := ∃ taken, Text.halfMark ∉ taken ∧ taken ++ rest = cs

/-- Characters go on with themselves. -/
theorem GoesOn.refl (cs : List Char) : GoesOn cs cs := ⟨[], List.not_mem_nil, rfl⟩

/-- The rest of a rest is one. -/
theorem GoesOn.trans {cs ds es : List Char} (h : GoesOn cs ds) (h' : GoesOn ds es) :
    GoesOn cs es := by
  obtain ⟨xs, hxs, rfl⟩ := h
  obtain ⟨ys, hys, rfl⟩ := h'
  exact ⟨xs ++ ys, by rw [List.mem_append, not_or]; exact ⟨hxs, hys⟩, List.append_assoc xs ys es⟩

/-- Behind a character that is not the mark it goes on. -/
theorem goesOn_cons {c : Char} (h : c ≠ Text.halfMark) (cs : List Char) : GoesOn (c :: cs) cs :=
  ⟨[c], by rw [List.mem_singleton]; exact Ne.symm h, rfl⟩

/-- Behind characters of a class that the mark is not in it goes on. -/
theorem goesOn_dropWhile {p : Char → Bool} (h : p Text.halfMark = false) (cs : List Char) :
    GoesOn cs (cs.dropWhile p) := by
  refine ⟨cs.takeWhile p, fun hmem => ?_, List.takeWhile_append_dropWhile⟩
  rw [List.mem_takeWhile_imp hmem] at h
  cases h

/-- Behind blanks it goes on. -/
theorem goesOn_skipSpace (cs : List Char) : GoesOn cs (skipSpace cs) :=
  goesOn_dropWhile (by decide) cs

/-- Behind blanks and a character it goes on. -/
theorem goesOn_of_skipSpace {c : Char} {cs rest : List Char} (h : skipSpace cs = c :: rest)
    (hc : c ≠ Text.halfMark) : GoesOn cs rest :=
  (h ▸ goesOn_skipSpace cs).trans (goesOn_cons hc rest)

/-- Behind a word it goes on. -/
theorem goesOn_of_word? {cs rest : List Char} {v : Value} (h : word? cs = some (v, rest)) :
    GoesOn cs rest := by
  unfold word? at h
  split at h
  · cases h
    exact ⟨['n', 'u', 'l', 'l'], by decide, rfl⟩
  · cases h
    exact ⟨['t', 'r', 'u', 'e'], by decide, rfl⟩
  · cases h
    exact ⟨['f', 'a', 'l', 's', 'e'], by decide, rfl⟩
  · cases h
    exact ⟨['N', 'a', 'N'], by decide, rfl⟩
  · cases h
    exact ⟨['I', 'n', 'f', 'i', 'n', 'i', 't', 'y'], by decide, rfl⟩
  · cases h
    exact ⟨['-', 'I', 'n', 'f', 'i', 'n', 'i', 't', 'y'], by decide, rfl⟩
  · cases h

/-- Behind the digits before a point it goes on. -/
theorem goesOn_of_wholeDigits? {cs front rest : List Char}
    (h : wholeDigits? cs = some (front, rest)) : GoesOn cs rest := by
  unfold wholeDigits? at h
  split at h
  · cases h
    exact goesOn_cons (by decide) _
  · dsimp only at h
    split at h
    · cases h
    · cases h
      exact goesOn_dropWhile (by decide) cs

/-- Behind a point and digits it goes on. -/
theorem goesOn_fractionDigits (cs : List Char) : GoesOn cs (fractionDigits cs).2 := by
  unfold fractionDigits
  split
  · next rest =>
    dsimp only
    split
    · exact .refl _
    · exact (goesOn_cons (by decide) rest).trans (goesOn_dropWhile (by decide) rest)
  · exact .refl _

/-- Behind a sign it goes on. -/
theorem goesOn_splitSign (cs : List Char) : GoesOn cs (Numeral.splitSign cs).2 := by
  unfold Numeral.splitSign
  split
  · exact goesOn_cons (by decide) _
  · exact goesOn_cons (by decide) _
  · exact .refl _

/-- Behind an exponent it goes on. -/
theorem goesOn_exponentPart (cs : List Char) : GoesOn cs (exponentPart cs).2 := by
  unfold exponentPart
  split
  · next c rest =>
    split
    · next hletter =>
      have hmark : c ≠ Text.halfMark := by
        rintro rfl
        exact absurd hletter (by decide)
      dsimp only
      split
      · exact .refl _
      · exact (goesOn_cons hmark rest).trans
          ((goesOn_splitSign rest).trans (goesOn_dropWhile (by decide) _))
    · exact .refl _
  · exact .refl _

/-- Behind a number it goes on. -/
theorem goesOn_of_readNumber {cs rest : List Char} {v : Value}
    (h : readNumber cs = .ok (v, rest)) : GoesOn cs rest := by
  unfold readNumber at h
  dsimp only at h
  split at h
  · cases h
  · next front after hwhole =>
    have hrest : GoesOn cs (exponentPart (fractionDigits after).2).2 := by
      refine GoesOn.trans ?_ ((goesOn_of_wholeDigits? hwhole).trans
        ((goesOn_fractionDigits after).trans (goesOn_exponentPart _)))
      -- a sign may come first
      split
      · exact goesOn_cons (by decide) _
      · exact .refl _
    split at h
    · split at h
      · cases h
      · cases h
        exact hrest
    · cases h
      exact hrest

/-! ## What is known of the parts -/

/-- What is known of the texts and the values that stand in characters of a sort: texts and names
have one property, values another. -/
structure Holds (S : List Char → Prop) (T : String → Prop) (K : Value → Prop) : Prop where
  /-- What it goes on with is of the sort. -/
  rest : ∀ {cs rest : List Char}, S cs → GoesOn cs rest → S rest
  /-- A text has the property of texts, and what is behind it is of the sort. -/
  text : ∀ {opening fuel : Nat} {cs chars after : List Char}, S cs →
    readText opening fuel cs = .ok (chars, after) → T (String.ofList chars) ∧ S after
  /-- A text is a value. -/
  value : ∀ {s : String}, T s → K (.text s)
  /-- A word is one. -/
  word : ∀ {cs rest : List Char} {v : Value}, word? cs = some (v, rest) → K v
  /-- A number is one. -/
  number : ∀ {cs rest : List Char} {v : Value}, readNumber cs = .ok (v, rest) → K v
  /-- A list of values is one. -/
  list : ∀ {items : List Value}, (∀ v ∈ items, K v) → K (.list items)
  /-- An object of names and values is one. -/
  object : ∀ {fields : Fields}, (∀ f ∈ fields, T f.1 ∧ K f.2) → K (.object fields)

/-- Whether all that is read with so much fuel has these properties. -/
structure Finds (S : List Char → Prop) (T : String → Prop) (K : Value → Prop) (fuel : Nat) :
    Prop where
  /-- A value has. -/
  value : ∀ {depth : Nat} {cs rest : List Char} {v : Value}, S cs →
    readValue fuel depth cs = .ok (v, rest) → K v ∧ S rest
  /-- Items have. -/
  items : ∀ {depth : Nat} {cs rest : List Char} {items : List Value}, S cs →
    readItems fuel depth cs = .ok (items, rest) → (∀ v ∈ items, K v) ∧ S rest
  /-- Fields have, if those before them have. -/
  fields : ∀ {depth : Nat} {cs rest : List Char} {before fields : Fields}, S cs →
    (∀ f ∈ before, T f.1 ∧ K f.2) → readFields fuel depth before cs = .ok (fields, rest) →
      (∀ f ∈ fields, T f.1 ∧ K f.2) ∧ S rest

namespace Holds

variable {S : List Char → Prop} {T : String → Prop} {K : Value → Prop} (hk : Holds S T K)
  {fuel depth : Nat} {cs rest : List Char}
include hk

/-- A value has the properties if its parts have. -/
theorem value_succ (ih : Finds S T K fuel) (hcs : S cs) {v : Value}
    (h : readValue (fuel + 1) depth cs = .ok (v, rest)) : K v ∧ S rest := by
  unfold readValue at h
  split at h
  · cases h
  · cases h
  · next k c after hfuel =>
    cases hfuel
    split at h
    · next hc =>
      have hafter : S after := hk.rest hcs (goesOn_cons (by rw [hc]; decide) after)
      obtain ⟨⟨chars, after'⟩, htext, h⟩ := bind_eq_ok.1 h
      cases h
      obtain ⟨hs, hrest⟩ := hk.text hafter htext
      exact ⟨hk.value hs, hrest⟩
    · split at h
      · next hc =>
        have hafter : S after := hk.rest hcs (goesOn_cons (by rw [hc]; decide) after)
        split at h
        · cases h
        · split at h
          · next hspace =>
            cases h
            exact ⟨hk.list (List.forall_mem_nil K),
              hk.rest hafter (goesOn_of_skipSpace hspace (by decide))⟩
          · obtain ⟨⟨items, after'⟩, hitems, h⟩ := bind_eq_ok.1 h
            cases h
            obtain ⟨hall, hrest⟩ := ih.items (hk.rest hafter (goesOn_skipSpace after)) hitems
            exact ⟨hk.list hall, hrest⟩
      · split at h
        · next hc =>
          have hafter : S after := hk.rest hcs (goesOn_cons (by rw [hc]; decide) after)
          split at h
          · cases h
          · split at h
            · next hspace =>
              cases h
              exact ⟨hk.object (List.forall_mem_nil _),
                hk.rest hafter (goesOn_of_skipSpace hspace (by decide))⟩
            · obtain ⟨⟨fields, after'⟩, hfields, h⟩ := bind_eq_ok.1 h
              cases h
              obtain ⟨hall, hrest⟩ := ih.fields (hk.rest hafter (goesOn_skipSpace after))
                (List.forall_mem_nil _) hfields
              exact ⟨hk.object hall, hrest⟩
        · split at h
          · next hword =>
            cases h
            exact ⟨hk.word hword, hk.rest hcs (goesOn_of_word? hword)⟩
          · exact ⟨hk.number h, hk.rest hcs (goesOn_of_readNumber h)⟩

/-- Items have the properties if values have. -/
theorem items_succ (ih : Finds S T K fuel) (hcs : S cs) {items : List Value}
    (h : readItems (fuel + 1) depth cs = .ok (items, rest)) : (∀ v ∈ items, K v) ∧ S rest := by
  rw [readItems, bind_eq_ok] at h
  obtain ⟨⟨v, after⟩, hv, h⟩ := h
  obtain ⟨hv, hafter⟩ := ih.value hcs hv
  dsimp only at h
  split at h
  · next hspace =>
    cases h
    exact ⟨List.forall_mem_singleton.2 hv, hk.rest hafter (goesOn_of_skipSpace hspace (by decide))⟩
  · next hspace =>
    obtain ⟨⟨more, after'⟩, hmore, h⟩ := bind_eq_ok.1 h
    cases h
    have hcomma := (goesOn_of_skipSpace hspace (by decide)).trans (goesOn_skipSpace _)
    obtain ⟨hall, hrest⟩ := ih.items (hk.rest hafter hcomma) hmore
    exact ⟨List.forall_mem_cons.2 ⟨hv, hall⟩, hrest⟩
  · cases h

/-- Fields have the properties if values have. -/
theorem fields_succ (ih : Finds S T K fuel) (hcs : S cs) {before fields : Fields}
    (hbefore : ∀ f ∈ before, T f.1 ∧ K f.2)
    (h : readFields (fuel + 1) depth before cs = .ok (fields, rest)) :
    (∀ f ∈ fields, T f.1 ∧ K f.2) ∧ S rest := by
  unfold readFields at h
  split at h
  · cases h
  · next k after hfuel =>
    cases hfuel
    obtain ⟨⟨name, after'⟩, hname, h⟩ := bind_eq_ok.1 h
    obtain ⟨hname, hafter⟩ := hk.text (hk.rest hcs (goesOn_cons (by decide) after)) hname
    dsimp only at h
    split at h
    · next hspace =>
      obtain ⟨⟨v, after''⟩, hv, h⟩ := bind_eq_ok.1 h
      have hcolon := (goesOn_of_skipSpace hspace (by decide)).trans (goesOn_skipSpace _)
      obtain ⟨hv, hvalue⟩ := ih.value (hk.rest hafter hcolon) hv
      have hput := Fields.forall_mem_put hbefore hname hv
      dsimp only at h
      split at h
      · next hbrace =>
        cases h
        exact ⟨hput, hk.rest hvalue (goesOn_of_skipSpace hbrace (by decide))⟩
      · next hnext =>
        have hcomma := (goesOn_of_skipSpace hnext (by decide)).trans (goesOn_skipSpace _)
        exact ih.fields (hk.rest hvalue hcomma) hput h
      · cases h
    · cases h
  · cases h

/-- All that is read has the properties. -/
theorem finds (fuel : Nat) : Finds S T K fuel := by
  induction fuel with
  | zero =>
    refine ⟨fun _ h => ?_, fun _ h => ?_, fun _ _ h => ?_⟩
    · rw [readValue] at h
      cases h
    · rw [readItems] at h
      cases h
    · rw [readFields] at h
      cases h
  | succ fuel ih =>
    exact ⟨fun hcs => hk.value_succ ih hcs, fun hcs => hk.items_succ ih hcs,
      fun hcs hbefore => hk.fields_succ ih hcs hbefore⟩

/-- The value that points spell has the property of values. -/
theorem of_parsePoints {ps : List Text.Point} (hps : S (Text.spelling ps)) {v : Value}
    (h : parsePoints depth ps = .ok v) : K v := by
  unfold parsePoints at h
  dsimp only at h
  split at h
  · next hchars =>
    cases h
    obtain ⟨⟨v', after⟩, hv, hchars⟩ := bind_eq_ok.1 hchars
    dsimp only at hchars
    split at hchars
    · cases hchars
      exact ((hk.finds _).value (hk.rest hps (goesOn_skipSpace _)) hv).1
    · cases hchars
  · cases h
  · cases h
  · cases h

end Holds

end Json

end DealerPay
