import DealerPay.Proofs.Decimal.Spelling
import DealerPay.Text.Point

/-!
# Plain texts

Texts of characters of ASCII that can be seen, and spaces. All that the library has to say of
numbers is written in these.

* `Text.IsPlain` says it of a text; it is decided for a given one, and `Text.IsPlain.append` brings
  it from parts to the whole.
* `Numeral.isPlain_toText`, `Decimal.isPlain_positional`, `Decimal.isPlain_grouped` and
  `Text.isPlain_toString` have the ways in which numbers are written.
* `Text.IsPlain.isWhole` and `Text.IsPlain.points_eq`: there are no halves of characters in a plain
  text, and its points are its characters.
-/

namespace DealerPay

namespace Text

/-! ## Plain characters -/

/-- Whether a character is one of ASCII that can be seen, or a space. -/
def isPlain (c : Char) : Bool := 0x20 ≤ c.toNat && c.toNat < 0x7F

/-- The bounds of plain characters. -/
theorem isPlain_iff {c : Char} : isPlain c = true ↔ 0x20 ≤ c.toNat ∧ c.toNat < 0x7F := by
  simp [isPlain]

/-- A digit is plain. -/
theorem isPlain_of_isDigit {c : Char} (h : c.isDigit = true) : isPlain c = true := by
  have hdigit : 48 ≤ c.toNat ∧ c.toNat ≤ 57 := Char.isDigit_iff_toNat.1 h
  rw [isPlain_iff]
  omega

/-! ## Plain texts -/

/-- Whether all characters of a text are plain. -/
def IsPlain (s : String) : Prop := ∀ c ∈ s.toList, isPlain c = true

instance (s : String) : Decidable (IsPlain s) :=
  decidable_of_iff (s.toList.all isPlain = true) List.all_eq_true

variable {s t : String}

/-- A text of plain parts is plain. -/
theorem IsPlain.append (hs : IsPlain s) (ht : IsPlain t) : IsPlain (s ++ t) := by
  unfold IsPlain
  rw [String.toList_append, List.forall_mem_append]
  exact ⟨hs, ht⟩

/-- A text of plain characters is plain. -/
theorem isPlain_ofList {cs : List Char} (h : ∀ c ∈ cs, isPlain c = true) :
    IsPlain (String.ofList cs) := by
  unfold IsPlain
  rwa [String.toList_ofList]

/-- Plain texts with a plain one between them are plain. -/
theorem isPlain_intercalate {sep : String} (hsep : IsPlain sep) {ss : List String}
    (h : ∀ s ∈ ss, IsPlain s) : IsPlain (sep.intercalate ss) := by
  induction ss with
  | nil => exact (by decide : IsPlain "")
  | cons s rest ih =>
    rw [List.forall_mem_cons] at h
    cases rest with
    | nil =>
      rw [String.intercalate_singleton]
      exact h.1
    | cons t rest =>
      rw [String.intercalate_cons_cons]
      exact (h.1.append hsep).append (ih h.2)

/-- So are they between brackets that are plain. -/
theorem isPlain_enclosed {opening sep closing : String} (hopening : IsPlain opening)
    (hsep : IsPlain sep) (hclosing : IsPlain closing) {ss : List String}
    (h : ∀ s ∈ ss, IsPlain s) : IsPlain (opening ++ sep.intercalate ss ++ closing) :=
  (hopening.append (isPlain_intercalate hsep h)).append hclosing

/-- A natural number is written in digits. -/
theorem isPlain_toString (n : Nat) : IsPlain (toString n) := by
  intro c hc
  have hdigits : (toString n).toList = Decimal.digitChars n := by
    simp [toString, Nat.repr, Decimal.digitChars]
  rw [hdigits] at hc
  exact isPlain_of_isDigit (Decimal.isDigit_of_mem_digitChars c hc)

/-- The mark of halves is not plain. -/
theorem IsPlain.not_mem (h : IsPlain s) : halfMark ∉ s.toList :=
  fun hmem => absurd (h halfMark hmem) (by decide)

/-- A plain text is whole. -/
theorem IsPlain.isWhole (h : IsPlain s) : Text.isWhole s = true := isWhole_of_not_mem h.not_mem

/-- The points of a plain text are its characters. -/
theorem IsPlain.points_eq (h : IsPlain s) : points s = charPoints s := points_of_not_mem h.not_mem

end Text

/-! ## Numbers -/

open Text (IsPlain isPlain_of_isDigit isPlain_ofList)

/-- A sign is plain. -/
theorem Decimal.isPlain_of_mem_signChars (negative : Bool) :
    ∀ c ∈ signChars negative, Text.isPlain c = true := by
  cases negative with
  | false => exact List.forall_mem_nil _
  | true => exact List.forall_mem_singleton.2 (by decide)

/-- A number without an exponent is written in plain text. -/
theorem Decimal.isPlain_positional (d : Decimal) : IsPlain d.positional := by
  apply isPlain_ofList
  rw [positionalChars, List.forall_mem_append]
  refine ⟨isPlain_of_mem_signChars _, fun c hc => ?_⟩
  split at hc
  · exact isPlain_of_isDigit (isDigit_of_mem_digitChars c hc)
  · rcases Numeral.isDigit_or_eq_of_mem_pointed isDigit_of_mem_digitChars hc with hc | rfl
    · exact isPlain_of_isDigit hc
    · decide

/-- Groups of plain characters are plain. -/
theorem Decimal.isPlain_of_mem_groupChars {digits : List Char}
    (h : ∀ c ∈ digits, Text.isPlain c = true) : ∀ c ∈ groupChars digits, Text.isPlain c = true := by
  have hgroups : ∀ cs : List Char, (∀ c ∈ cs, Text.isPlain c = true) →
      ∀ c ∈ groupReversed cs, Text.isPlain c = true := by
    intro cs
    fun_induction groupReversed cs with
    | case1 a b c d rest ih =>
      intro hcs
      simp only [List.forall_mem_cons] at hcs ⊢
      exact ⟨hcs.1, hcs.2.1, hcs.2.2.1, by decide, ih (List.forall_mem_cons.2 hcs.2.2.2)⟩
    | case2 short => exact id
  intro c hc
  exact hgroups _ (fun x hx => h x (List.mem_reverse.1 hx)) c (List.mem_reverse.1 hc)

/-- A number in whole units is written in plain text. -/
theorem Decimal.isPlain_grouped (d : Decimal) : IsPlain d.grouped :=
  isPlain_ofList (List.forall_mem_append.2 ⟨isPlain_of_mem_signChars _,
    isPlain_of_mem_groupChars fun c hc => isPlain_of_isDigit (isDigit_of_mem_digitChars c hc)⟩)

/-- What plain numbers are written with is plain. -/
theorem Numeral.isPlain_of_isPlain {c : Char} (h : isPlain c = true) : Text.isPlain c = true := by
  rcases Bool.or_eq_true_iff.1 h with h | h
  · exact isPlain_of_isDigit h
  · have hall : ['+', '-', '.', 'E'].all Text.isPlain = true := by decide
    exact List.all_eq_true.1 hall c (List.contains_iff_mem.1 h)

/-- A numeral is written in plain text. -/
theorem Numeral.isPlain_toText (n : Numeral) : IsPlain n.toText := by
  have hsign : ∀ negative, IsPlain (String.ofList (Decimal.signChars negative)) :=
    fun negative => isPlain_ofList (Decimal.isPlain_of_mem_signChars negative)
  cases n with
  | finite d => exact fun c hc => isPlain_of_isPlain (isPlain_of_mem_toText c hc)
  | infinite negative => exact (hsign negative).append (by decide)
  | notNumber negative signalling payload =>
    refine ((hsign negative).append ?_).append ?_
    · cases signalling <;> decide
    · split
      · decide
      · exact Text.isPlain_toString payload

end DealerPay
