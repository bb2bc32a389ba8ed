import DealerPay.Reading

/-!
# What a reading accepts

A record is accepted when each of its fields is, so what is true of the results of all fields is
known of the record.

* `Reading.Ensures` says that whatever a reading accepts has a property.
* `Fields.ensures_required`, `Fields.ensures_optional`, `Fields.ensures_renamed` and
  `Value.ensures_readItems` carry a property from the reading of a value to that of a field and a
  list.
* `Value.readEach_set`: among items that are accepted, one that is put in the place of another
  decides alone about the list.
* `Reading.map_eq_accepted_iff` takes the reading of a record apart, together with
  `Reading.seq_eq_accepted_iff`.
-/

namespace DealerPay

variable {α β : Type}

namespace Reading

/-- Whatever the reading accepts has the property. -/
def Ensures (x : Reading α) (P : α → Prop) : Prop := ∀ a, x = accepted a → P a

variable {x : Reading α} {P : α → Prop}

/-- A changed result is accepted exactly when the result is. -/
theorem map_eq_accepted_iff {f : α → β} {b : β} :
    f <$> x = accepted b ↔ ∃ a, x = accepted a ∧ f a = b := by
  constructor
  · intro h
    cases x with
    | accepted a => exact ⟨a, rfl, accepted.inj h⟩
    | refused first rest => cases h
    | halted s => cases h
  · rintro ⟨a, rfl, rfl⟩
    rfl

/-- A reading that goes on is accepted exactly when both parts are. -/
theorem andThen_eq_accepted_iff {f : α → Reading β} {b : β} :
    x.andThen f = accepted b ↔ ∃ a, x = accepted a ∧ f a = accepted b := by
  constructor
  · intro h
    cases x with
    | accepted a => exact ⟨a, rfl, h⟩
    | refused first rest => cases h
    | halted s => cases h
  · rintro ⟨a, rfl, h⟩
    exact h

/-- Seen from one step further out, a reading accepts the same. -/
theorem within_eq_accepted_iff {step : Step} {a : α} :
    x.within step = accepted a ↔ x = accepted a := by
  cases x with
  | accepted b => exact Iff.rfl
  | refused first rest => constructor <;> intro h <;> cases h
  | halted s => constructor <;> intro h <;> cases h

/-- Seen from one step further out, a result is changed in the same way. -/
theorem within_map {step : Step} {f : α → β} : (f <$> x).within step = f <$> x.within step := by
  cases x <;> rfl

/-- Two changes of a result are one. -/
theorem map_map {γ : Type} {f : α → β} {g : β → γ} : g <$> f <$> x = (fun a => g (f a)) <$> x := by
  cases x <;> rfl

/-- What is accepted beside a reading only changes its result. -/
theorem map_seq_accepted {γ : Type} {f : α → β → γ} {b : β} :
    f <$> x <*> accepted b = (fun a => f a b) <$> x := by
  cases x <;> rfl

/-- A checked result meets the condition. -/
theorem check_eq_accepted_iff {ok : α → Bool} {r : Refusal} {v : Value} {a : α} :
    x.check ok r v = accepted a ↔ x = accepted a ∧ ok a = true := by
  unfold check
  rw [andThen_eq_accepted_iff]
  constructor
  · rintro ⟨b, hb, h⟩
    split at h
    · next hok =>
      cases h
      exact ⟨hb, hok⟩
    · cases h
  · rintro ⟨hx, hok⟩
    exact ⟨a, hx, if_pos hok⟩

/-- An amount is accepted exactly when it was computed. -/
theorem ofAmount_eq_accepted_iff {v : Value} {y : Except Failure α} {a : α} :
    ofAmount v y = accepted a ↔ y = .ok a := by
  rcases y with (e | s) | b
  · constructor <;> intro h <;> cases h
  · constructor <;> intro h <;> cases h
  · constructor
    · intro h
      cases h
      rfl
    · intro h
      cases h
      rfl

/-- What is ensured of a result is ensured of what is made of it. -/
theorem Ensures.map {f : α → β} {Q : β → Prop} (h : x.Ensures P) (hf : ∀ a, P a → Q (f a)) :
    (f <$> x).Ensures Q := by
  intro b hb
  obtain ⟨a, ha, rfl⟩ := map_eq_accepted_iff.1 hb
  exact hf a (h a ha)

/-- What is ensured whatever is read next is ensured of both together. -/
theorem Ensures.seq {f : Reading (α → β)} {Q : β → Prop} (h : f.Ensures fun g => ∀ a, Q (g a)) :
    (f <*> x).Ensures Q := by
  intro b hb
  obtain ⟨g, a, hg, -, rfl⟩ := seq_eq_accepted_iff.1 hb
  exact h g hg a

/-- What a reading ensures it ensures seen from further out. -/
theorem Ensures.within (h : x.Ensures P) (step : Step) : (x.within step).Ensures P :=
  fun a ha => h a (within_eq_accepted_iff.1 ha)

/-- The result of a reading, if it has one. -/
def result? : Reading α → Option α
  | accepted a => some a
  | _ => none

/-- A reading has a result exactly when it accepts one. -/
theorem result?_eq_some_iff {a : α} : x.result? = some a ↔ x = accepted a := by
  cases x with
  | accepted b => simp [result?]
  | refused first rest => simp [result?]
  | halted s => simp [result?]

end Reading

/-! ## Fields -/

namespace Fields

variable {fs : Fields} {key second : String} {default : α} {read : Value → Reading α}
  {P : α → Prop}

/-- A value that is found is that of a field of its name. -/
theorem mem_of_get? {v : Value} (h : fs.get? key = some v) : (key, v) ∈ fs := by
  induction fs with
  | nil => cases h
  | cons field rest ih =>
    rw [get?] at h
    split at h
    · next hkey =>
      cases h
      cases hkey
      exact List.mem_cons_self
    · exact List.mem_cons_of_mem field (ih h)

/-- A field without a default has what its value has. -/
theorem ensures_required (hread : ∀ v, fs.get? key = some v → (read v).Ensures P) :
    (fs.required key read).Ensures P := by
  unfold required
  split
  · next hv => exact (hread _ hv).within _
  · exact nofun

/-- A field with a default has what the default and its value have. -/
theorem ensures_optional (hdefault : P default)
    (hread : ∀ v, fs.get? key = some v → (read v).Ensures P) :
    (fs.optional key default read).Ensures P := by
  unfold optional
  split
  · next hv => exact (hread _ hv).within _
  · intro a ha
    cases ha
    exact hdefault

/-- A field of two names has what the default and its value have. -/
theorem ensures_renamed (hdefault : P default)
    (hread : ∀ k v, fs.get? k = some v → (read v).Ensures P) :
    (fs.renamed key second default read).Ensures P := by
  unfold renamed
  split
  · next hv => exact (hread _ _ hv).within _
  · exact ensures_optional hdefault (hread second)

end Fields

/-! ## Lists and records -/

namespace Value

variable {read : Value → Reading α} {P : α → Prop}

/-- The items of a list have what their values have. -/
theorem ensures_readEach {items : List Value} (hread : ∀ v ∈ items, (read v).Ensures P) (i : Nat) :
    (readEach read i items).Ensures fun xs => ∀ x ∈ xs, P x := by
  induction items generalizing i with
  | nil =>
    intro xs hxs
    cases hxs
    simp
  | cons v rest ih =>
    intro xs hxs
    rw [readEach] at hxs
    obtain ⟨g, ys, hg, hys, rfl⟩ := Reading.seq_eq_accepted_iff.1 hxs
    obtain ⟨y, hy, rfl⟩ := Reading.map_eq_accepted_iff.1 hg
    intro x hx
    rcases List.mem_cons.1 hx with rfl | hx
    · exact (hread v List.mem_cons_self).within _ x hy
    · exact ih (fun w hw => hread w (List.mem_cons_of_mem v hw)) (i + 1) ys hys x hx

/-- The items of a list have what their values have. -/
theorem ensures_readItems {refusal : Refusal} {v : Value}
    (hread : ∀ items, v = .list items → ∀ x ∈ items, (read x).Ensures P) :
    (readItems refusal read v).Ensures fun xs => ∀ x ∈ xs, P x := by
  unfold readItems
  split
  · exact ensures_readEach (hread _ rfl) 0
  · intro xs hxs
    cases hxs

/-- Where every item of a list is accepted, one item put in the place of another decides alone about
the list, and its faults carry the position of that place. -/
theorem readEach_set {items : List Value} {xs : List α} {k i : Nat}
    (h : readEach read k items = .accepted xs) (hi : i < xs.length) (v : Value) :
    readEach read k (items.set i v) =
      (fun x => xs.set i x) <$> (read v).within (.item (k + i)) := by
  induction items generalizing k i xs with
  | nil =>
    cases h
    exact absurd hi (Nat.not_lt_zero i)
  | cons w rest ih =>
    rw [readEach] at h
    obtain ⟨g, ys, hg, hys, rfl⟩ := Reading.seq_eq_accepted_iff.1 h
    obtain ⟨y, hy, rfl⟩ := Reading.map_eq_accepted_iff.1 hg
    cases i with
    | zero =>
      rw [List.set_cons_zero, readEach, hys, Reading.map_seq_accepted]
      rfl
    | succ i =>
      -- the positions of the rest start one further
      have hplace : k + 1 + i = k + (i + 1) := by omega
      rw [List.set_cons_succ, readEach, hy, Reading.map_accepted,
        ih hys (Nat.lt_of_succ_lt_succ hi), hplace]
      exact Reading.map_map

/-- What is read as a record is an object. -/
theorem readRecord_eq_accepted {source : Source} {name : String} {read : Fields → Reading α}
    {v : Value} {a : α} (h : readRecord source name read v = .accepted a) :
    ∃ fs, v = .object fs ∧ read fs = .accepted a := by
  obtain ⟨fs, hv, hfs⟩ := Reading.andThen_eq_accepted_iff.1 h
  cases v with
  | object =>
    cases hv
    exact ⟨fs, rfl, hfs⟩
  | _ => cases source <;> cases hv

end Value

end DealerPay
