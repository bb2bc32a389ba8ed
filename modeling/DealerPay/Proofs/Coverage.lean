import DealerPay.Calendar
import DealerPay.Json.Printer
import DealerPay.Proofs.Amount

/-!
# What a reading finds

A reading reports all that is wrong with a value, unless arithmetic breaks it off. Which of the two
happens depends on the amounts in the value alone.

* `Reading.found` are the values that a reading finds fault with; `Reading.isHalted` says whether it
  was broken off.
* `Reading.Covers` ties a reading to the amounts in what it reads: it is broken off exactly if one of
  them is too large for arithmetic, and it finds each one that is bad. What it finds can be written
  where the whole can.
* `Reading.Covers.seq` and its companions build this up for records and lists, along
  `Fields.under`, `Value.inItems` and `Value.inFields`, which collect the amounts.
-/

namespace DealerPay

variable {α β : Type} {w : Prop}

/-! ## Parts of values that can be written -/

namespace Json

/-- The fields of a record that can be written can be written. -/
theorem isWritable_of_get? {fs : Fields} (h : fieldsWritable fs = true) {key : String} {v : Value}
    (hv : fs.get? key = some v) : isWritable v = true := by
  induction fs with
  | nil => cases hv
  | cons field rest ih =>
    obtain ⟨k, x⟩ := field
    rw [fieldsWritable, Bool.and_eq_true, Bool.and_eq_true] at h
    rw [Fields.get?] at hv
    split at hv
    · cases hv
      exact h.1.2
    · exact ih h.2 hv

end Json

/-! ## Readings -/

namespace Reading

/-- The values that a reading finds fault with. -/
def found : Reading α → List Value
  | accepted _ => []
  | refused first rest => (first :: rest).map Fault.found
  | halted _ => []

/-- Whether arithmetic broke a reading off. -/
def isHalted : Reading α → Bool
  | halted _ => true
  | _ => false

variable {x : Reading α} {f : Reading (α → β)}

@[simp] theorem found_map (g : α → β) : (g <$> x).found = x.found := by
  cases x <;> rfl

@[simp] theorem isHalted_map (g : α → β) : (g <$> x).isHalted = x.isHalted := by
  cases x <;> rfl

@[simp] theorem found_within (step : Step) : (x.within step).found = x.found := by
  cases x with
  | accepted a => rfl
  | refused first rest =>
    simp only [within, found, List.map_cons, List.map_map]
    rfl
  | halted s => rfl

@[simp] theorem isHalted_within (step : Step) : (x.within step).isHalted = x.isHalted := by
  cases x <;> rfl

@[simp] theorem isHalted_seq : (f <*> x).isHalted = (f.isHalted || x.isHalted) := by
  cases f <;> cases x <;> rfl

/-- What is wrong with either of two parts is found. -/
theorem found_seq (h : (f <*> x).isHalted = false) : (f <*> x).found = f.found ++ x.found := by
  cases f with
  | accepted g => cases x <;> rfl
  | refused first rest =>
    cases x with
    | accepted a => exact (List.append_nil _).symm
    | refused next more => simp [Seq.seq, ap, found]
    | halted s => cases h
  | halted s => cases h

/-- Nothing is found in a reading that was broken off. -/
theorem found_of_isHalted (h : x.isHalted = true) : x.found = [] := by
  cases x with
  | halted s => rfl
  | _ => cases h

/-- How a reading depends on the amounts in what it reads. `w` stands for the whole being one that
can be written. -/
structure Covers (w : Prop) (amounts : List Value) (x : Reading α) : Prop where
  /-- It is broken off exactly if an amount is too large for arithmetic. -/
  isHalted_iff : x.isHalted = true ↔ ∃ v ∈ amounts, Amount.IsTooLarge v
  /-- If it is not, it finds each amount that is bad. -/
  mem_found : x.isHalted = false → ∀ v ∈ amounts, Amount.IsBad v → v ∈ x.found
  /-- What it finds can be written if the whole can. -/
  isWritable : w → ∀ v ∈ x.found, Json.isWritable v = true

namespace Covers

variable {xs ys : List Value}

/-- A result that is there anyway covers nothing. -/
theorem accepted (a : α) : (Reading.accepted a).Covers w [] where
  isHalted_iff := by simp [isHalted]
  mem_found := by simp
  isWritable := by simp [found]

/-- A refusal covers nothing. -/
theorem refuse {r : Refusal} {v : Value} (hv : w → Json.isWritable v = true) :
    (Reading.refuse r v : Reading α).Covers w [] where
  isHalted_iff := by simp [isHalted, Reading.refuse]
  mem_found := by simp
  isWritable hw := by simpa [found, Reading.refuse] using hv hw

/-- A changed result covers the same. -/
theorem map (h : x.Covers w xs) (g : α → β) : (g <$> x).Covers w xs where
  isHalted_iff := by rw [isHalted_map, h.isHalted_iff]
  mem_found := by
    rw [isHalted_map, found_map]
    exact h.mem_found
  isWritable := by
    rw [found_map]
    exact h.isWritable

/-- Seen from further out, a reading covers the same. -/
theorem within (h : x.Covers w xs) (step : Step) : (x.within step).Covers w xs where
  isHalted_iff := by rw [isHalted_within, h.isHalted_iff]
  mem_found := by
    rw [isHalted_within, found_within]
    exact h.mem_found
  isWritable := by
    rw [found_within]
    exact h.isWritable

/-- Two readings cover together what each of them covers. -/
theorem seq (hf : f.Covers w xs) (hx : x.Covers w ys) : (f <*> x).Covers w (xs ++ ys) where
  isHalted_iff := by
    rw [isHalted_seq, Bool.or_eq_true, hf.isHalted_iff, hx.isHalted_iff]
    simp only [List.mem_append, or_and_right, exists_or]
  mem_found h := by
    rw [found_seq h]
    rw [isHalted_seq, Bool.or_eq_false_iff] at h
    intro v hv hbad
    rcases List.mem_append.1 hv with hv | hv
    · exact List.mem_append_left _ (hf.mem_found h.1 v hv hbad)
    · exact List.mem_append_right _ (hx.mem_found h.2 v hv hbad)
  isWritable hw := by
    cases h : (f <*> x).isHalted with
    | true => simp [found_of_isHalted h]
    | false =>
      rw [found_seq h]
      exact List.forall_mem_append.2 ⟨hf.isWritable hw, hx.isWritable hw⟩

/-- A part without amounts may be read behind the others. -/
theorem seq_plain (hf : f.Covers w xs) (hx : x.Covers w []) : (f <*> x).Covers w xs := by
  have h := hf.seq hx
  rwa [List.append_nil] at h

/-- Parts without amounts may be read before the first one with some. -/
theorem plain_seq (hf : f.Covers w []) (hx : x.Covers w ys) : (f <*> x).Covers w ys := by
  have h := hf.seq hx
  rwa [List.nil_append] at h

/-- A condition on the result covers the same. -/
theorem check (h : x.Covers w xs) {v : Value} (hv : w → Json.isWritable v = true) (ok : α → Bool)
    (r : Refusal) : (x.check ok r v).Covers w xs := by
  cases x with
  | accepted a =>
    unfold Reading.check andThen
    dsimp only
    split
    · exact h
    · -- the refusal is of the value itself, which had no bad amount in it: it was accepted before
      exact {
        isHalted_iff := h.isHalted_iff
        mem_found := by
          intro _ x hx hbad
          exact absurd (h.mem_found rfl x hx hbad) List.not_mem_nil
        isWritable := (refuse hv : (Reading.refuse r v : Reading α).Covers w []).isWritable }
  | refused first rest => exact h
  | halted s => exact h

end Covers

end Reading

/-! ## Plain values -/

namespace Value

variable {v : Value}

/-- A truth value that is one of its words or numbers is accepted or refused. -/
theorem covers_ofBool? (hv : w → Json.isWritable v = true) (b : Option Bool) :
    (v.ofBool? b).Covers w [] := by
  cases b with
  | none => exact .refuse hv
  | some b => exact .accepted b

/-- No amount is read where a truth value is. -/
theorem covers_readBool (hv : w → Json.isWritable v = true) : v.readBool.Covers w [] := by
  unfold readBool
  split
  · exact .accepted _
  · split
    · exact covers_ofBool? hv _
    · exact .refuse hv
  · split
    · exact covers_ofBool? hv _
    · exact .refuse hv
  · split
    · exact covers_ofBool? hv _
    · exact .refuse hv
  · exact .refuse hv

/-- No amount is read where a text is. -/
theorem covers_readText (hv : w → Json.isWritable v = true) : v.readText.Covers w [] := by
  unfold readText
  split
  · exact .accepted _
  · exact .refuse hv

/-- No amount is read where a word is. -/
theorem covers_readWord (choices : List (String × α)) (hv : w → Json.isWritable v = true) :
    (v.readWord choices).Covers w [] := by
  unfold readWord
  split
  · exact .accepted _
  · exact .refuse hv

/-- The reading of an amount covers it, whatever is made of one that is accepted. -/
theorem covers_ofAmount {y : Except Failure α}
    (herror : ∀ e, Amount.ofValue v = .error e ↔ y = .error e)
    (hv : w → Json.isWritable v = true) : (Reading.ofAmount v y).Covers w [v] := by
  rcases Amount.ofValue_cases v with ⟨hbad, hsmall, d, h⟩ | ⟨-, hsmall, e, h⟩ | ⟨hbad, hlarge, h⟩
  · obtain ⟨a, rfl⟩ : ∃ a, y = .ok a := by
      cases y with
      | ok a => exact ⟨a, rfl⟩
      | error e =>
        rw [(herror e).2 rfl] at h
        cases h
    exact {
      isHalted_iff := by simpa [Reading.ofAmount, Reading.isHalted] using hsmall
      mem_found := by simp [hbad]
      isWritable := (Reading.Covers.accepted a).isWritable }
  · rw [(herror _).1 h]
    exact {
      isHalted_iff := by simpa [Reading.ofAmount, Reading.refuse, Reading.isHalted] using hsmall
      mem_found := by simp [Reading.ofAmount, Reading.refuse, Reading.found]
      isWritable := (Reading.Covers.refuse hv : (Reading.refuse (α := α) _ v).Covers w []).isWritable }
  · rw [(herror _).1 h]
    exact {
      isHalted_iff := by simpa [Reading.ofAmount, Reading.isHalted] using hlarge
      mem_found := by simp [hbad]
      isWritable := by simp [Reading.ofAmount, Reading.found] }

/-- The reading of an amount covers it. -/
theorem covers_readAmount (hv : w → Json.isWritable v = true) : v.readAmount.Covers w [v] :=
  covers_ofAmount (fun _ => Iff.rfl) hv

/-- The reading of an amount that may be absent covers it. -/
theorem covers_readOptionalAmount (hv : w → Json.isWritable v = true) :
    v.readOptionalAmount.Covers w [v] := by
  apply covers_ofAmount _ hv
  intro e
  unfold Amount.optional
  split
  · next habs =>
    rw [Amount.ofValue, if_pos habs]
    exact iff_of_false (fun h => nomatch h) fun h => nomatch h
  · cases Amount.ofValue v with
    | ok d => exact iff_of_false (fun h => nomatch h) fun h => nomatch h
    | error e' => simp [Except.map]

end Value

/-- No amount is read where a point in time is. -/
theorem Date.covers_ofMoment? {v : Value} (hv : w → Json.isWritable v = true)
    (m : Except MomentError Moment) : (Date.ofMoment? v m).Covers w [] := by
  unfold ofMoment? ofMoment
  split
  · split
    · split
      · exact .accepted _
      · exact .refuse hv
    · exact .refuse hv
  · exact .refuse hv

/-- No amount is read where a date is. -/
theorem Date.covers_ofValue {v : Value} (hv : w → Json.isWritable v = true) :
    (Date.ofValue v).Covers w [] := by
  unfold ofValue
  split
  · split
    · exact covers_ofMoment? hv _
    · exact .refuse hv
  · split
    · exact .refuse hv
    · exact covers_ofMoment? hv _
  · exact covers_ofMoment? hv _
  · exact .refuse hv

/-! ## Fields, lists and records -/

namespace Fields

/-- What is collected from the value of a field, if it is there. -/
def under (fs : Fields) (key : String) (collect : Value → List Value) : List Value :=
  match fs.get? key with
  | some v => collect v
  | none => []

/-- What is collected from the value of a field with two names. -/
def underEither (fs : Fields) (key second : String) (collect : Value → List Value) : List Value :=
  match fs.get? key with
  | some v => collect v
  | none => fs.under second collect

variable {fs : Fields} {key second : String} {default : α} {read : Value → Reading α}
  {collect : Value → List Value}

/-- A field with a default covers what its value covers. -/
theorem covers_optional (hfs : w → Json.fieldsWritable fs = true)
    (hread : ∀ v, (w → Json.isWritable v = true) → (read v).Covers w (collect v)) :
    (fs.optional key default read).Covers w (fs.under key collect) := by
  unfold optional under
  cases hkey : fs.get? key with
  | some v => exact (hread v fun hw => Json.isWritable_of_get? (hfs hw) hkey).within _
  | none => exact .accepted _

/-- A field with a default covers nothing if its value covers nothing. -/
theorem covers_optional_plain (hfs : w → Json.fieldsWritable fs = true)
    (hread : ∀ v, (w → Json.isWritable v = true) → (read v).Covers w []) :
    (fs.optional key default read).Covers w [] := by
  have hnone : fs.under key (fun _ => []) = [] := by
    unfold under
    split <;> rfl
  rw [← hnone]
  exact covers_optional hfs hread

/-- A field with two names covers what its value covers. -/
theorem covers_renamed (hfs : w → Json.fieldsWritable fs = true)
    (hread : ∀ v, (w → Json.isWritable v = true) → (read v).Covers w (collect v)) :
    (fs.renamed key second default read).Covers w (fs.underEither key second collect) := by
  unfold renamed underEither
  cases hkey : fs.get? key with
  | some v => exact (hread v fun hw => Json.isWritable_of_get? (hfs hw) hkey).within _
  | none => exact covers_optional hfs hread

end Fields

namespace Value

/-- What is collected from the items of a list; from other values, nothing. -/
def inItems (collect : Value → List Value) : Value → List Value
  | list items => items.flatMap collect
  | _ => []

/-- What is collected from the fields of a record; from other values, nothing. -/
def inFields (collect : Fields → List Value) : Value → List Value
  | object fs => collect fs
  | _ => []

variable {v : Value} {collect : Value → List Value}

/-- The items of a list cover together what each of them covers. -/
theorem covers_readEach {read : Value → Reading α}
    (hread : ∀ v, (w → Json.isWritable v = true) → (read v).Covers w (collect v))
    {items : List Value} (hitems : w → Json.itemsWritable items = true) (i : Nat) :
    (readEach read i items).Covers w (items.flatMap collect) := by
  induction items generalizing i with
  | nil => exact .accepted []
  | cons v rest ih =>
    have hparts : w → Json.isWritable v = true ∧ Json.itemsWritable rest = true := by
      intro hw
      have h := hitems hw
      rwa [Json.itemsWritable, Bool.and_eq_true] at h
    rw [readEach, List.flatMap_cons]
    exact (((hread v fun hw => (hparts hw).1).within _).map _).seq
      (ih (fun hw => (hparts hw).2) (i + 1))

/-- A list covers what its items cover. -/
theorem covers_readItems {read : Value → Reading α} (refusal : Refusal)
    (hread : ∀ v, (w → Json.isWritable v = true) → (read v).Covers w (collect v))
    (hv : w → Json.isWritable v = true) :
    (readItems refusal read v).Covers w (v.inItems collect) := by
  cases v with
  | list items => exact covers_readEach hread hv 0
  | _ => exact .refuse hv

/-- A record covers what its fields cover. -/
theorem covers_readRecord {read : Fields → Reading α} {collect : Fields → List Value}
    (source : Source) (name : String)
    (hread : ∀ fs, (w → Json.fieldsWritable fs = true) → (read fs).Covers w (collect fs))
    (hv : w → Json.isWritable v = true) :
    (readRecord source name read v).Covers w (v.inFields collect) := by
  cases v with
  | object fs => exact hread fs hv
  | _ => cases source <;> exact .refuse hv

end Value

end DealerPay
