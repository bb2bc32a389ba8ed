import DealerPay.Proofs.Json.Document
import DealerPay.Text.Encoding

/-!
# JSON in ASCII

A document is written in ASCII, and its bytes show no other encoding than the one they are kept in.

* `Text.reread?_of_isPlain`: a plain text is read again as it is.
* `Json.isPlain_render`: a document is written in plain text.
* `Json.parse_render` is the round trip.
-/

namespace DealerPay

/-! ## Plain texts -/

namespace Text

/-- A plain character is kept in one byte, which is not zero. -/
theorem ne_zero_of_mem_utf8EncodeChar {c : Char} (h : isPlain c = true) :
    ∀ b ∈ (String.utf8EncodeChar c).map UInt8.toNat, b ≠ 0 := by
  obtain ⟨hlow, hhigh⟩ := isPlain_iff.1 h
  have hval : c.val.toNat = c.toNat := rfl
  have hsize : c.utf8Size = 1 :=
    Char.utf8Size_eq_one_iff.2 (UInt32.le_iff_toNat_le.2 (by rw [hval]; simp; omega))
  rw [String.utf8EncodeChar_eq_singleton hsize]
  simp only [List.map_cons, List.map_nil, List.mem_singleton, forall_eq, UInt32.toNat_toUInt8]
  omega

/-- Bytes without a zero show that they are kept one by one. -/
theorem Encoding.ofBytes_eq_narrow {bytes : List Nat} (h : ∀ b ∈ bytes, b ≠ 0) :
    ofBytes bytes = narrow := by
  unfold ofBytes
  split <;> simp at h ⊢

/-- A plain text is read again as it is. -/
theorem reread?_of_isPlain {s : String} (h : IsPlain s) : reread? (points s) = some (points s) := by
  have hbytes : ∀ b ∈ bytesOf (points s), b ≠ 0 := by
    rw [h.points_eq]
    intro b hb
    obtain ⟨p, hp, hb⟩ := List.mem_flatMap.1 hb
    obtain ⟨c, hc, rfl⟩ := List.mem_map.1 hp
    exact ne_zero_of_mem_utf8EncodeChar (h c hc) b hb
  have hmark : .char byteOrderMark ∉ points s := by
    rw [h.points_eq]
    intro hmem
    obtain ⟨c, hc, hchar⟩ := List.mem_map.1 hmem
    cases hchar
    exact absurd (h _ hc) (by decide)
  generalize points s = ps at hbytes hmark
  cases ps with
  | nil => rfl
  | cons p rest =>
    rw [List.mem_cons, not_or] at hmark
    rw [reread?, if_neg (Ne.symm hmark.1), Encoding.ofBytes_eq_narrow hbytes, Encoding.reread?]

end Text

/-! ## Documents -/

namespace Json

open Text (IsPlain isPlain isPlain_ofList hexDigit hexDigits)

/-- A hexadecimal digit is plain. -/
theorem isPlain_hexDigit : ∀ n < 16, isPlain (hexDigit n) = true := by decide

/-- Hexadecimal digits are plain. -/
theorem isPlain_of_mem_hexDigits {width n : Nat} :
    ∀ c ∈ hexDigits width n, isPlain c = true := by
  induction width generalizing n with
  | zero => exact List.forall_mem_nil _
  | succ width ih =>
    rw [hexDigits, List.forall_mem_append, List.forall_mem_singleton]
    exact ⟨ih, isPlain_hexDigit _ (Nat.mod_lt n (by decide))⟩

/-- A code unit behind a backslash is plain. -/
theorem isPlain_of_mem_unitEscape (u : Nat) : ∀ c ∈ unitEscape u, isPlain c = true := by
  rw [unitEscape, List.forall_mem_cons, List.forall_mem_cons]
  exact ⟨by decide, by decide, isPlain_of_mem_hexDigits⟩

/-- The spelling of a character is plain. -/
theorem isPlain_of_mem_charEscape (c : Char) : ∀ x ∈ charEscape c, isPlain x = true := by
  unfold charEscape
  dsimp only
  split
  · next hmarked =>
    simp only [Bool.or_eq_true, decide_eq_true_eq] at hmarked
    rw [List.forall_mem_cons, List.forall_mem_singleton]
    refine ⟨by decide, ?_⟩
    rcases hmarked with rfl | rfl <;> decide
  · split
    · next hplain => exact List.forall_mem_singleton.2 hplain
    · split
      · exact isPlain_of_mem_unitEscape _
      · exact List.forall_mem_append.2
          ⟨isPlain_of_mem_unitEscape _, isPlain_of_mem_unitEscape _⟩

/-- The spelling of a point is plain. -/
theorem isPlain_of_mem_pointEscape (p : Text.Point) : ∀ x ∈ pointEscape p, isPlain x = true := by
  cases p with
  | char c => exact isPlain_of_mem_charEscape c
  | half h => exact isPlain_of_mem_unitEscape h.unit

/-- A text between quotation marks is plain. -/
theorem isPlain_renderText (s : String) : IsPlain (renderText s) := by
  unfold IsPlain
  rw [toList_renderText, List.forall_mem_cons, List.forall_mem_append]
  refine ⟨by decide, ?_, List.forall_mem_singleton.2 (by decide)⟩
  intro c hc
  obtain ⟨p, -, hc⟩ := List.mem_flatMap.1 hc
  exact isPlain_of_mem_pointEscape p c hc

/-- A document that is neither a list nor an object is plain. -/
theorem isPlain_render_atom {v : Value} (h : isDocument 0 v = true) : IsPlain (render v) := by
  cases v with
  | null => decide
  | bool b => cases b <;> decide
  | number n => exact isPlain_renderText n.toText
  | text s => exact isPlain_renderText s
  | int n => cases h
  | float x => cases h
  | list items => cases h
  | object fields => cases h

/-- A document is plain. -/
theorem isPlain_render {depth : Nat} {v : Value} (h : isDocument depth v = true) :
    IsPlain (render v) := by
  induction depth generalizing v with
  | zero => exact isPlain_render_atom h
  | succ depth ih =>
    cases v with
    | list items =>
      rw [render, renderItems_eq_map]
      refine Text.isPlain_enclosed (by decide) (by decide) (by decide) fun s hs => ?_
      obtain ⟨x, hx, rfl⟩ := List.mem_map.1 hs
      exact ih (isDocument_list_iff.1 h x hx)
    | object fields =>
      obtain ⟨-, hfields⟩ := isDocument_object_iff.1 h
      rw [render, renderFields_eq_map]
      refine Text.isPlain_enclosed (by decide) (by decide) (by decide) fun s hs => ?_
      obtain ⟨f, hf, rfl⟩ := List.mem_map.1 hs
      apply isPlain_ofList
      rw [fieldChars, List.forall_mem_append, List.forall_mem_cons]
      exact ⟨isPlain_renderText f.1, by decide, ih (hfields f hf)⟩
    | null => exact isPlain_render_atom rfl
    | bool b => exact isPlain_render_atom rfl
    | number n => exact isPlain_render_atom rfl
    | text s => exact isPlain_render_atom rfl
    | int n => cases h
    | float x => cases h

/-- A document is read back from the points that it is written in. -/
theorem parsePoints_render {depth : Nat} {v : Value} (h : ComesBack depth v) :
    parsePoints depth (Text.charPoints (render v)) = .ok (dumped v) := by
  have hspelling : Text.spelling (Text.charPoints (render v)) = (render v).toList :=
    Text.spelling_map_char (isPlain_render h.isDocument).not_mem
  simp only [parsePoints, hspelling, parseChars_render h]

/-- A document is read back from the text that it is written as. -/
theorem parse_render {depth : Nat} {v : Value} (h : ComesBack depth v) :
    parse depth (render v) = .ok (dumped v) :=
  parsePoints_render h

end Json

end DealerPay
