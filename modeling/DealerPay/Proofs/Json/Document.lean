import DealerPay.Proofs.Json.Text
import Mathlib.Data.List.Nodup

/-!
# Documents in JSON

What is written down as JSON is read again, with every decimal number turned into its text.

* `Json.dumped` is what comes back of a value. It is written as the value is (`Json.render_dumped`).
* `Json.isDocument` says which values come back: of texts, truth values, decimal numbers, lists and
  objects with different names, not too deep inside each other. Integers and binary floating-point
  numbers, which no record holds, are left out.
* `Value.allTexts` asks something of the texts and the names in a value; `Json.ComesBack` is a
  document in which all of them come back.
* `Json.readsBack` goes from the parts of a document to the whole. What follows the text of a
  document does not matter to its reading.
* `Json.parseChars_render` reads a document from its characters.
-/

namespace DealerPay

/-- A field that is new is put at the end. -/
theorem Fields.put_of_not_mem {fs : Fields} {key : String} {value : Value}
    (h : key ∉ fs.map Prod.fst) : fs.put key value = fs ++ [(key, value)] := by
  induction fs with
  | nil => rfl
  | cons field rest ih =>
    obtain ⟨k, v⟩ := field
    rw [List.map_cons, List.mem_cons, not_or] at h
    rw [put, if_neg (Ne.symm h.1), ih h.2, List.cons_append]

/-! ## Texts in values -/

namespace Value

variable {p : String → Bool}

mutual

/-- Whether all texts in a value pass a test, and the names of its fields. -/
def allTexts (p : String → Bool) : Value → Bool
  | text s => p s
  | list items => itemsAllTexts p items
  | object fields => fieldsAllTexts p fields
  | _ => true

/-- Whether all texts in these items pass a test. -/
def itemsAllTexts (p : String → Bool) : List Value → Bool
  | [] => true
  | v :: rest => allTexts p v && itemsAllTexts p rest

/-- Whether the names of these fields pass a test, and all texts in their values. -/
def fieldsAllTexts (p : String → Bool) : List (String × Value) → Bool
  | [] => true
  | (k, v) :: rest => p k && allTexts p v && fieldsAllTexts p rest

end

/-- The absent value holds no texts. -/
@[simp] theorem allTexts_null : allTexts p null = true := rfl

/-- Nor does a truth value. -/
@[simp] theorem allTexts_bool (b : Bool) : allTexts p (bool b) = true := rfl

/-- Nor does a decimal number. -/
@[simp] theorem allTexts_number (n : Numeral) : allTexts p (number n) = true := rfl

/-- A text is the only one that it holds. -/
@[simp] theorem allTexts_text (s : String) : allTexts p (text s) = p s := rfl

/-- The texts of a list are those of its items. -/
@[simp] theorem allTexts_list (items : List Value) :
    allTexts p (list items) = items.all (allTexts p) := by
  rw [allTexts]
  induction items with
  | nil => rfl
  | cons v rest ih => rw [itemsAllTexts, ih, List.all_cons]

/-- The texts of an object are the names and the texts of its fields. -/
@[simp] theorem allTexts_object (fields : Fields) :
    allTexts p (object fields) = fields.all fun f => p f.1 && allTexts p f.2 := by
  rw [allTexts]
  induction fields with
  | nil => rfl
  | cons f rest ih => rw [fieldsAllTexts, ih, List.all_cons]

end Value

namespace Json

/-! ## Dumps -/

mutual

/-- What comes back of a value that was written down: every decimal number as its text. -/
def dumped : Value → Value
  | .number n => .text n.toText
  | .list items => .list (dumpedItems items)
  | .object fields => .object (dumpedFields fields)
  | v => v

/-- What comes back of the items of a list. -/
def dumpedItems : List Value → List Value
  | [] => []
  | v :: rest => dumped v :: dumpedItems rest

/-- What comes back of fields. -/
def dumpedFields : List (String × Value) → List (String × Value)
  | [] => []
  | (k, v) :: rest => (k, dumped v) :: dumpedFields rest

end

/-- The items of a list come back one by one. -/
@[simp] theorem dumpedItems_eq_map (items : List Value) : dumpedItems items = items.map dumped := by
  induction items with
  | nil => rfl
  | cons v rest ih => rw [dumpedItems, ih, List.map_cons]

/-- Fields come back one by one, under their names. -/
@[simp] theorem dumpedFields_eq_map (fields : Fields) :
    dumpedFields fields = fields.map fun f => (f.1, dumped f.2) := by
  induction fields with
  | nil => rfl
  | cons f rest ih =>
    obtain ⟨k, v⟩ := f
    rw [dumpedFields, ih, List.map_cons]

/-- The value of a field comes back as the field of that name. -/
theorem get?_dumpedFields (fields : Fields) (key : String) :
    Fields.get? (dumpedFields fields) key = (fields.get? key).map dumped := by
  induction fields with
  | nil => rfl
  | cons f rest ih =>
    obtain ⟨k, v⟩ := f
    rw [dumpedFields, Fields.get?, Fields.get?]
    split
    · rfl
    · exact ih

mutual

/-- What comes back of a value is written as the value is. -/
theorem render_dumped : ∀ v : Value, render (dumped v) = render v
  | .list items => by rw [dumped, render, render, renderItems_dumped items]
  | .object fields => by rw [dumped, render, render, renderFields_dumped fields]
  | .null | .bool _ | .int _ | .float _ | .number _ | .text _ => rfl

/-- What comes back of items is written as the items are. -/
theorem renderItems_dumped : ∀ items : List Value,
    renderItems (dumpedItems items) = renderItems items
  | [] => rfl
  | v :: rest => by
    rw [dumpedItems, renderItems, renderItems, render_dumped v, renderItems_dumped rest]

/-- What comes back of fields is written as the fields are. -/
theorem renderFields_dumped : ∀ fields : List (String × Value),
    renderFields (dumpedFields fields) = renderFields fields
  | [] => rfl
  | (_, v) :: rest => by
    rw [dumpedFields, renderFields, renderFields, render_dumped v, renderFields_dumped rest]

end

/-- Whether a value comes back with its texts when lists and objects are followed so many levels
down. -/
def isDocument : Nat → Value → Bool
  | depth + 1, .list items => items.all (isDocument depth)
  | depth + 1, .object fields =>
    decide (fields.map Prod.fst).Nodup && fields.all fun f => isDocument depth f.2
  | _, .null | _, .bool _ | _, .number _ | _, .text _ => true
  | _, _ => false

section Parts

variable {depth : Nat}

/-- The absent value is a document. -/
@[simp] theorem isDocument_null : isDocument depth .null = true := by
  cases depth <;> rfl

/-- A truth value is a document. -/
@[simp] theorem isDocument_bool (b : Bool) : isDocument depth (.bool b) = true := by
  cases depth <;> rfl

/-- A decimal number is a document. -/
@[simp] theorem isDocument_number (n : Numeral) : isDocument depth (.number n) = true := by
  cases depth <;> rfl

/-- A text is a document. -/
@[simp] theorem isDocument_text (s : String) : isDocument depth (.text s) = true := by
  cases depth <;> rfl

/-- A list of documents is one. -/
@[simp] theorem isDocument_list_iff {items : List Value} :
    isDocument (depth + 1) (.list items) = true ↔ ∀ x ∈ items, isDocument depth x = true :=
  List.all_eq_true

/-- An object of documents under different names is one. -/
@[simp] theorem isDocument_object_iff {fields : Fields} :
    isDocument (depth + 1) (.object fields) = true ↔
      (fields.map Prod.fst).Nodup ∧ ∀ f ∈ fields, isDocument depth f.2 = true := by
  rw [isDocument, Bool.and_eq_true, decide_eq_true_iff, List.all_eq_true]

end Parts

/-- Whether a value comes back when lists and objects are followed so many levels down. -/
structure ComesBack (depth : Nat) (v : Value) : Prop where
  /-- It is a document of so many levels. -/
  isDocument : isDocument depth v = true
  /-- Its texts come back. -/
  texts : v.allTexts Text.comesBack = true

/-- The items of a list come back with it. -/
theorem ComesBack.of_mem {depth : Nat} {items : List Value}
    (h : ComesBack (depth + 1) (.list items)) : ∀ x ∈ items, ComesBack depth x :=
  fun x hx => ⟨isDocument_list_iff.1 h.isDocument x hx,
    List.all_eq_true.1 ((Value.allTexts_list items).symm.trans h.texts) x hx⟩

/-- The fields of an object come back with it. -/
theorem ComesBack.of_mem_fields {depth : Nat} {fields : Fields}
    (h : ComesBack (depth + 1) (.object fields)) :
    ∀ f ∈ fields, Text.comesBack f.1 = true ∧ ComesBack depth f.2 := by
  intro f hf
  obtain ⟨hname, htexts⟩ := Bool.and_eq_true_iff.1
    (List.all_eq_true.1 ((Value.allTexts_object fields).symm.trans h.texts) f hf)
  exact ⟨hname, (isDocument_object_iff.1 h.isDocument).2 f hf, htexts⟩

/-- The absent value can be sent. -/
@[simp] theorem isWritable_null : isWritable .null = true := rfl

/-- So can a truth value. -/
@[simp] theorem isWritable_bool (b : Bool) : isWritable (.bool b) = true := rfl

/-- So can an integer. -/
@[simp] theorem isWritable_int (n : Int) : isWritable (.int n) = true := rfl

/-- So can a decimal number, whatever it is. -/
@[simp] theorem isWritable_number (n : Numeral) : isWritable (.number n) = true := rfl

/-- A text can be sent if there are no halves of characters in it. -/
@[simp] theorem isWritable_text (s : String) : isWritable (.text s) = Text.isWhole s := rfl

/-- A list can be sent if its items can. -/
@[simp] theorem isWritable_list (items : List Value) :
    isWritable (.list items) = items.all isWritable := by
  rw [isWritable]
  induction items with
  | nil => rfl
  | cons v rest ih => rw [itemsWritable, ih, List.all_cons]

/-- An object can be sent if the names and values of its fields can. -/
@[simp] theorem isWritable_object (fields : Fields) :
    isWritable (.object fields) = fields.all fun f => Text.isWhole f.1 && isWritable f.2 := by
  rw [isWritable]
  induction fields with
  | nil => rfl
  | cons f rest ih => rw [fieldsWritable, ih, List.all_cons]

/-- A document can be sent if its texts can. -/
theorem isWritable_eq_allTexts {depth : Nat} {v : Value} (h : isDocument depth v = true) :
    isWritable v = v.allTexts Text.isWhole := by
  induction depth generalizing v with
  | zero =>
    cases v with
    | float x => cases h
    | list items => cases h
    | object fields => cases h
    | _ => rfl
  | succ depth ih =>
    cases v with
    | float x => cases h
    | list items =>
      rw [isWritable_list, Value.allTexts_list, Bool.eq_iff_iff, List.all_eq_true, List.all_eq_true]
      exact forall₂_congr fun x hx => by rw [ih (isDocument_list_iff.1 h x hx)]
    | object fields =>
      rw [isWritable_object, Value.allTexts_object, Bool.eq_iff_iff, List.all_eq_true,
        List.all_eq_true]
      exact forall₂_congr fun f hf => by rw [ih ((isDocument_object_iff.1 h).2 f hf)]
    | _ => rfl

mutual

/-- The texts of what can be sent come back. -/
theorem comesBack_of_isWritable : ∀ v : Value, isWritable v = true →
    v.allTexts Text.comesBack = true
  | .text _, h => Text.comesBack_of_isWhole h
  | .list items, h => comesBack_of_itemsWritable items h
  | .object fields, h => comesBack_of_fieldsWritable fields h
  | .null, _ | .bool _, _ | .int _, _ | .float _, _ | .number _, _ => rfl

/-- The texts of items that can be sent come back. -/
theorem comesBack_of_itemsWritable : ∀ items : List Value, itemsWritable items = true →
    Value.itemsAllTexts Text.comesBack items = true
  | [], _ => rfl
  | v :: rest, h => by
    rw [itemsWritable, Bool.and_eq_true] at h
    rw [Value.itemsAllTexts, comesBack_of_isWritable v h.1, comesBack_of_itemsWritable rest h.2]
    rfl

/-- The names of fields that can be sent come back, and so do the texts of their values. -/
theorem comesBack_of_fieldsWritable : ∀ fields : List (String × Value),
    fieldsWritable fields = true → Value.fieldsAllTexts Text.comesBack fields = true
  | [], _ => rfl
  | (k, v) :: rest, h => by
    rw [fieldsWritable, Bool.and_eq_true, Bool.and_eq_true] at h
    rw [Value.fieldsAllTexts, Text.comesBack_of_isWhole h.1.1, comesBack_of_isWritable v h.1.2,
      comesBack_of_fieldsWritable rest h.2]
    rfl

end

/-! ## Characters -/

/-- Items with commas between them: the first one, and each of the others behind a comma. -/
theorem toList_intercalate_cons (s : String) (ss : List String) :
    (",".intercalate (s :: ss)).toList = s.toList ++ ss.flatMap fun t => ',' :: t.toList := by
  induction ss generalizing s with
  | nil => simp
  | cons t ss ih =>
    rw [String.intercalate_cons_cons, String.toList_append, String.toList_append, ih,
      List.flatMap_cons, List.append_assoc]
    rfl

/-- The spelling of points has a character for each of them. -/
theorem length_le_length_flatMap (ps : List Text.Point) :
    ps.length ≤ (ps.flatMap pointEscape).length := by
  have hpos : ∀ p, 0 < (pointEscape p).length := by
    intro p
    cases p with
    | char c =>
      rw [pointEscape]
      unfold charEscape
      dsimp only
      split
      · simp
      · split
        · simp
        · split <;> simp [unitEscape]
    | half h => simp [pointEscape, unitEscape]
  induction ps with
  | nil => simp
  | cons p ps ih =>
    have := hpos p
    rw [List.flatMap_cons, List.length_append, List.length_cons]
    omega

/-- A text between quotation marks. -/
theorem toList_renderText (s : String) :
    (renderText s).toList = '"' :: ((Text.points s).flatMap pointEscape ++ ['"']) := by
  rw [renderText, String.toList_ofList, List.cons_append]

/-- The items of a list are written one by one. -/
theorem renderItems_eq_map (items : List Value) : renderItems items = items.map render := by
  induction items with
  | nil => rfl
  | cons v rest ih => rw [renderItems, ih, List.map_cons]

/-- A field: its name, a colon and its value. -/
def fieldChars (f : String × Value) : List Char :=
  (renderText f.1).toList ++ ':' :: (render f.2).toList

/-- Fields are written one by one. -/
theorem renderFields_eq_map (fields : Fields) :
    renderFields fields = fields.map fun f => String.ofList (fieldChars f) := by
  induction fields with
  | nil => rfl
  | cons f rest ih =>
    obtain ⟨k, v⟩ := f
    have hfield : renderText k ++ ":" ++ render v = String.ofList (fieldChars (k, v)) := by
      apply String.toList_injective
      simp [fieldChars]
    rw [renderFields, ih, List.map_cons, hfield]

/-- What a document starts with. -/
def openings : List Char := ['n', 't', 'f', '"', '[', '{']

/-- A document starts with a letter, a quotation mark or a bracket. -/
theorem exists_render_eq_cons {depth : Nat} {v : Value} (h : isDocument depth v = true) :
    ∃ c rest, (render v).toList = c :: rest ∧ c ∈ openings := by
  cases v with
  | null => exact ⟨'n', _, rfl, by decide⟩
  | bool b =>
    cases b with
    | true => exact ⟨'t', _, rfl, by decide⟩
    | false => exact ⟨'f', _, rfl, by decide⟩
  | int n => cases depth <;> cases h
  | float x => cases depth <;> cases h
  | number n => exact ⟨'"', _, toList_renderText n.toText, by decide⟩
  | text s => exact ⟨'"', _, toList_renderText s, by decide⟩
  | list items =>
    refine ⟨'[', (",".intercalate (renderItems items) ++ "]").toList, ?_, by decide⟩
    rw [render, String.append_assoc, String.toList_append]
    rfl
  | object fields =>
    refine ⟨'{', (",".intercalate (renderFields fields) ++ "\x7d").toList, ?_, by decide⟩
    rw [render, String.append_assoc, String.toList_append]
    rfl

/-- Nothing is skipped where a document starts. -/
theorem skipSpace_render {depth : Nat} {v : Value} (h : isDocument depth v = true)
    (rest : List Char) : skipSpace ((render v).toList ++ rest) = (render v).toList ++ rest := by
  obtain ⟨c, more, heq, hc⟩ := exists_render_eq_cons h
  have hspace : openings.all (fun c => !isSpace c) = true := by decide
  rw [heq, List.cons_append, skipSpace, List.dropWhile_cons_of_neg]
  simpa using List.all_eq_true.1 hspace c hc

/-- Nothing is skipped where a field starts. -/
theorem skipSpace_fieldChars (f : String × Value) (rest : List Char) :
    skipSpace (fieldChars f ++ rest) = fieldChars f ++ rest := by
  rw [fieldChars, toList_renderText]
  rfl

/-! ## Reading parts -/

section Steps

variable {fuel depth : Nat} {cs after rest : List Char} {v : Value}

/-- An item before the closing bracket is the last one. -/
theorem readItems_last (h : readValue fuel depth cs = .ok (v, ']' :: rest)) :
    readItems (fuel + 1) depth cs = .ok ([v], rest) := by
  rw [readItems, h]
  rfl

/-- An item before a comma is followed by others. -/
theorem readItems_more (h : readValue fuel depth cs = .ok (v, ',' :: after)) :
    readItems (fuel + 1) depth cs = do
      let (more, after) ← readItems fuel depth (skipSpace after)
      return (v :: more, after) := by
  rw [readItems, h]
  rfl

/-- A text between quotation marks is read as that text. -/
theorem readText_renderText {s : String} (h : Text.comesBack s = true) (rest : List Char) :
    ∃ body, (renderText s).toList ++ rest = '"' :: body ∧
      readText (body.length + 1) (body.length + 1) body = .ok (s.toList, rest) := by
  obtain ⟨hspelled, hapart⟩ := Bool.and_eq_true_iff.1 h
  have hchars : Text.spelling (Text.points s) = s.toList := by
    rw [← String.toList_ofList (l := Text.spelling (Text.points s)), ← Text.spell,
      Text.spell_points hspelled]
  refine ⟨(Text.points s).flatMap pointEscape ++ '"' :: rest, ?_, ?_⟩
  · rw [toList_renderText, List.cons_append, List.append_assoc]
    rfl
  · rw [← hchars]
    apply readText_flatMap _ hapart
    have := length_le_length_flatMap (Text.points s)
    rw [List.length_append]
    omega

/-- A field before the closing brace is the last one. -/
theorem readFields_last (before : Fields) {name : String} (hname : Text.comesBack name = true)
    (h : readValue fuel depth (skipSpace cs) = .ok (v, '}' :: rest)) :
    readFields (fuel + 1) depth before ((renderText name).toList ++ ':' :: cs) =
      .ok (before.put name v, rest) := by
  obtain ⟨body, heq, hread⟩ := readText_renderText hname (':' :: cs)
  rw [heq, readFields, hread]
  show (readValue fuel depth (skipSpace cs) >>= _) = _
  rw [h, String.ofList_toList]
  rfl

/-- A field before a comma is followed by others. -/
theorem readFields_more (before : Fields) {name : String} (hname : Text.comesBack name = true)
    (h : readValue fuel depth (skipSpace cs) = .ok (v, ',' :: after)) :
    readFields (fuel + 1) depth before ((renderText name).toList ++ ':' :: cs) =
      readFields fuel depth (before.put name v) (skipSpace after) := by
  obtain ⟨body, heq, hread⟩ := readText_renderText hname (':' :: cs)
  rw [heq, readFields, hread]
  show (readValue fuel depth (skipSpace cs) >>= _) = _
  rw [h, String.ofList_toList]
  rfl

/-- A list that has items is read by its items. -/
theorem readValue_of_readItems {items : List Value} (hne : ∀ after, skipSpace cs ≠ ']' :: after)
    (h : readItems fuel depth (skipSpace cs) = .ok (items, after)) :
    readValue (fuel + 1) (depth + 1) ('[' :: cs) = .ok (.list items, after) := by
  rw [readValue, if_neg (by decide), if_pos rfl]
  split
  · next heq => exact absurd heq (hne _)
  · rw [h]
    rfl

/-- An object that has fields is read by its fields. -/
theorem readValue_of_readFields {fields : Fields} (hne : ∀ after, skipSpace cs ≠ '}' :: after)
    (h : readFields fuel depth [] (skipSpace cs) = .ok (fields, after)) :
    readValue (fuel + 1) (depth + 1) ('{' :: cs) = .ok (.object fields, after) := by
  rw [readValue, if_neg (by decide), if_neg (by decide), if_pos rfl]
  split
  · next heq => exact absurd heq (hne _)
  · rw [h]
    rfl

end Steps

/-! ## Reading documents -/

/-- Whether every document of a depth whose texts come back is read as what comes back of it,
whatever follows. -/
def ReadsBack (depth : Nat) : Prop :=
  ∀ v, ComesBack depth v → ∀ fuel rest, 2 * (render v).toList.length ≤ fuel →
    readValue fuel depth ((render v).toList ++ rest) = .ok (dumped v, rest)

section Parts

variable {depth : Nat} (hback : ReadsBack depth)
include hback

/-- Items up to the closing bracket are read back if documents are. -/
theorem readItems_render {v : Value} {items : List Value}
    (hitems : ∀ x ∈ v :: items, ComesBack depth x) (fuel : Nat) (rest : List Char)
    (hfuel :
      2 * ((render v).toList ++ items.flatMap fun x => ',' :: (render x).toList).length < fuel) :
    readItems fuel depth ((render v).toList ++
      ((items.flatMap fun x => ',' :: (render x).toList) ++ ']' :: rest)) =
      .ok ((v :: items).map dumped, rest) := by
  induction items generalizing v fuel with
  | nil =>
    obtain ⟨fuel, rfl⟩ : ∃ k, fuel = k + 1 := ⟨fuel - 1, by omega⟩
    rw [List.length_append] at hfuel
    exact readItems_last (hback v (hitems v List.mem_cons_self) fuel _ (by omega))
  | cons w items ih =>
    obtain ⟨fuel, rfl⟩ : ∃ k, fuel = k + 1 := ⟨fuel - 1, by omega⟩
    rw [List.length_append, List.flatMap_cons, List.length_append, List.length_cons] at hfuel
    have hrest := ih (fun x hx => hitems x (List.mem_cons_of_mem v hx)) fuel
      (by rw [List.length_append]; omega)
    rw [List.flatMap_cons, List.append_assoc, List.cons_append,
      readItems_more (hback v (hitems v List.mem_cons_self) fuel _ (by omega)),
      skipSpace_render (hitems w (by simp)).isDocument, hrest]
    rfl

/-- A field of a document is read back by what reads its value. -/
theorem readValue_field {f : String × Value} (hf : ComesBack depth f.2) (fuel : Nat)
    (rest : List Char) (hfuel : 2 * (fieldChars f).length ≤ fuel) :
    readValue fuel depth (skipSpace ((render f.2).toList ++ rest)) = .ok (dumped f.2, rest) := by
  rw [fieldChars, List.length_append, List.length_cons] at hfuel
  rw [skipSpace_render hf.isDocument]
  exact hback f.2 hf fuel rest (by omega)

/-- Fields up to the closing brace are read back if documents are, behind those that were there
before. -/
theorem readFields_render (before : Fields) {f : String × Value} {fields : Fields}
    (hkeys : (before.map Prod.fst ++ (f :: fields).map Prod.fst).Nodup)
    (hfields : ∀ x ∈ f :: fields, Text.comesBack x.1 = true ∧ ComesBack depth x.2)
    (fuel : Nat) (rest : List Char)
    (hfuel : 2 * (fieldChars f ++ fields.flatMap fun x => ',' :: fieldChars x).length < fuel) :
    readFields fuel depth before
      (fieldChars f ++ ((fields.flatMap fun x => ',' :: fieldChars x) ++ '}' :: rest)) =
      .ok (before ++ (f :: fields).map fun x => (x.1, dumped x.2), rest) := by
  induction fields generalizing before f fuel with
  | nil =>
    obtain ⟨fuel, rfl⟩ : ∃ k, fuel = k + 1 := ⟨fuel - 1, by omega⟩
    rw [List.length_append] at hfuel
    have hnew : f.1 ∉ before.map Prod.fst := fun hmem =>
      List.disjoint_of_nodup_append hkeys hmem List.mem_cons_self
    obtain ⟨hname, hf⟩ := hfields f List.mem_cons_self
    have hvalue := readValue_field hback hf fuel
      ([] ++ '}' :: rest) (by omega)
    rw [List.flatMap_nil, fieldChars, List.append_assoc, List.cons_append,
      readFields_last before hname hvalue, Fields.put_of_not_mem hnew]
    rfl
  | cons g fields ih =>
    obtain ⟨fuel, rfl⟩ : ∃ k, fuel = k + 1 := ⟨fuel - 1, by omega⟩
    rw [List.length_append, List.flatMap_cons, List.length_append, List.length_cons] at hfuel
    have hnew : f.1 ∉ before.map Prod.fst := fun hmem =>
      List.disjoint_of_nodup_append hkeys hmem List.mem_cons_self
    obtain ⟨hname, hf⟩ := hfields f List.mem_cons_self
    have hvalue := readValue_field hback hf fuel
      (',' :: (fieldChars g ++ ((fields.flatMap fun x => ',' :: fieldChars x) ++ '}' :: rest)))
      (by omega)
    have hmore := ih (before ++ [(f.1, dumped f.2)]) (by simpa using hkeys)
      (fun x hx => hfields x (List.mem_cons_of_mem f hx)) fuel (by rw [List.length_append]; omega)
    rw [List.flatMap_cons, List.append_assoc, List.cons_append, fieldChars, List.append_assoc,
      List.cons_append, readFields_more before hname hvalue, Fields.put_of_not_mem hnew,
      skipSpace_fieldChars, hmore]
    simp

end Parts

/-- A text is read back. -/
theorem readValue_renderText {s : String} (h : Text.comesBack s = true) (fuel depth : Nat)
    (rest : List Char) :
    readValue (fuel + 1) depth ((renderText s).toList ++ rest) = .ok (.text s, rest) := by
  obtain ⟨body, heq, hread⟩ := readText_renderText h rest
  have hs : Value.text (String.ofList s.toList) = .text s := by rw [String.ofList_toList]
  rw [heq, ← hs]
  cases depth with
  | zero =>
    rw [readValue, if_pos rfl, hread]
    rfl
  | succ depth =>
    rw [readValue, if_pos rfl, hread]
    rfl

/-- A list is read back if documents one level further down are. -/
theorem readValue_list {depth : Nat} (hback : ReadsBack depth) {items : List Value}
    (hitems : ∀ x ∈ items, ComesBack depth x) {fuel : Nat} (rest : List Char)
    (hfuel : 2 * (render (.list items)).toList.length ≤ fuel) :
    readValue fuel (depth + 1) ((render (.list items)).toList ++ rest) =
      .ok (dumped (.list items), rest) := by
  have hchars : (render (.list items)).toList =
      '[' :: ((",".intercalate (items.map render)).toList ++ [']']) := by
    rw [render, renderItems_eq_map]
    simp
  rw [hchars, List.length_cons, List.length_append, List.length_singleton] at hfuel
  rw [hchars, List.cons_append, List.append_assoc]
  obtain ⟨fuel, rfl⟩ : ∃ k, fuel = k + 1 := ⟨fuel - 1, by omega⟩
  cases items with
  | nil => rfl
  | cons v items =>
    have hv := hitems v List.mem_cons_self
    rw [List.map_cons, toList_intercalate_cons, List.flatMap_map] at hfuel
    rw [List.map_cons, toList_intercalate_cons, List.flatMap_map, List.append_assoc]
    have hread := readItems_render hback hitems fuel rest (by omega)
    have hstart := skipSpace_render hv.isDocument
      ((items.flatMap fun x => ',' :: (render x).toList) ++ ([']'] ++ rest))
    rw [dumped, dumpedItems_eq_map]
    refine readValue_of_readItems ?_ (by rw [hstart]; exact hread)
    intro after heq
    obtain ⟨c, more, hcons, hc⟩ := exists_render_eq_cons hv.isDocument
    rw [hstart, hcons] at heq
    rw [(List.cons.inj heq).1] at hc
    exact absurd hc (by decide)

/-- An object is read back if documents one level further down are. -/
theorem readValue_object {depth : Nat} (hback : ReadsBack depth) {fields : Fields}
    (hkeys : (fields.map Prod.fst).Nodup)
    (hfields : ∀ x ∈ fields, Text.comesBack x.1 = true ∧ ComesBack depth x.2)
    {fuel : Nat} (rest : List Char) (hfuel : 2 * (render (.object fields)).toList.length ≤ fuel) :
    readValue fuel (depth + 1) ((render (.object fields)).toList ++ rest) =
      .ok (dumped (.object fields), rest) := by
  have hchars : (render (.object fields)).toList = '{' ::
      ((",".intercalate (fields.map fun f => String.ofList (fieldChars f))).toList ++ ['}']) := by
    rw [render, renderFields_eq_map]
    simp
  rw [hchars, List.length_cons, List.length_append, List.length_singleton] at hfuel
  rw [hchars, List.cons_append, List.append_assoc]
  obtain ⟨fuel, rfl⟩ : ∃ k, fuel = k + 1 := ⟨fuel - 1, by omega⟩
  cases fields with
  | nil => rfl
  | cons f fields =>
    rw [List.map_cons, toList_intercalate_cons, List.flatMap_map] at hfuel
    rw [List.map_cons, toList_intercalate_cons, List.flatMap_map, List.append_assoc]
    simp only [String.toList_ofList] at hfuel ⊢
    have hread := readFields_render hback [] hkeys hfields fuel rest (by omega)
    have hstart : skipSpace (fieldChars f ++
        ((fields.flatMap fun x => ',' :: fieldChars x) ++ (['}'] ++ rest))) = fieldChars f ++
        ((fields.flatMap fun x => ',' :: fieldChars x) ++ (['}'] ++ rest)) :=
      skipSpace_fieldChars f _
    rw [dumped, dumpedFields_eq_map]
    refine readValue_of_readFields ?_ (by rw [hstart]; exact hread)
    intro after heq
    rw [hstart, fieldChars, toList_renderText] at heq
    exact absurd (List.cons.inj heq).1 (by decide)

/-- A document that is neither a list nor an object is read back at every depth. -/
theorem readValue_atom {depth : Nat} {v : Value} (h : ComesBack 0 v) {fuel : Nat}
    (rest : List Char) (hfuel : 2 * (render v).toList.length ≤ fuel) :
    readValue fuel depth ((render v).toList ++ rest) = .ok (dumped v, rest) := by
  obtain ⟨hdocument, htexts⟩ := h
  obtain ⟨c, more, hcons, -⟩ := exists_render_eq_cons hdocument
  rw [hcons, List.length_cons] at hfuel
  obtain ⟨fuel, rfl⟩ : ∃ k, fuel = k + 1 := ⟨fuel - 1, by omega⟩
  cases v with
  | null => cases depth <;> rfl
  | bool b => cases b <;> cases depth <;> rfl
  | number n =>
    exact readValue_renderText (Text.comesBack_of_isPlain n.isPlain_toText) fuel depth rest
  | text s => exact readValue_renderText htexts fuel depth rest
  | int n => cases hdocument
  | float x => cases hdocument
  | list items => cases hdocument
  | object fields => cases hdocument

/-- Documents of every depth are read back. -/
theorem readsBack (depth : Nat) : ReadsBack depth := by
  induction depth with
  | zero => exact fun v h fuel rest hfuel => readValue_atom h rest hfuel
  | succ depth ih =>
    intro v h fuel rest hfuel
    cases v with
    | list items => exact readValue_list ih h.of_mem rest hfuel
    | object fields =>
      exact readValue_object ih (isDocument_object_iff.1 h.isDocument).1 h.of_mem_fields rest hfuel
    | null => exact readValue_atom ⟨rfl, rfl⟩ rest hfuel
    | bool b => exact readValue_atom ⟨rfl, rfl⟩ rest hfuel
    | number n => exact readValue_atom ⟨rfl, rfl⟩ rest hfuel
    | text s => exact readValue_atom ⟨rfl, h.texts⟩ rest hfuel
    | int n => cases h.isDocument
    | float x => cases h.isDocument

/-- A document whose texts come back is read from the characters that it is written in. -/
theorem parseChars_render {depth : Nat} {v : Value} (h : ComesBack depth v) :
    parseChars depth (render v).toList = .ok (dumped v) := by
  have hread := readsBack depth v h (2 * (render v).toList.length + 2) [] (by omega)
  rw [List.append_nil] at hread
  have hspace := skipSpace_render h.isDocument []
  rw [List.append_nil] at hspace
  unfold parseChars
  rw [hspace, hread]
  rfl

end Json

end DealerPay
