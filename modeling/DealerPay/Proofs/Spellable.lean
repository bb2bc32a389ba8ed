import DealerPay.Proofs.Decimal.Spellable
import DealerPay.Proofs.Decimal.Spelling
import DealerPay.Proofs.Json.Contents
import DealerPay.Proofs.Steps
import DealerPay.Proofs.Valid

/-!
# Data that can be spelled

A number is no longer than a numeral can be, and its exponent is within the reach of one. The
numbers that are read from texts are spellable, and so is all that is computed of them.

* `Value.isSpellable` says that all integers and decimal numbers in a value are spellable. It holds
  of what a JSON text spells (`Json.isSpellable_of_parse`).
* `Deal.readsBack_of_ofValue` and `Rule.readsBack_of_readAll`: the figures of what is read of such a
  value are amounts that are spellable.
* `Breakdown.spellable_of_ofValue` and `Breakdown.spellable_of_evaluate`: so are the numbers of a
  breakdown that is read of such a value, and of one that a plan pays, whatever the deals are.
-/

namespace DealerPay

/-! ## Values -/

namespace Value

mutual

/-- Whether all integers and decimal numbers in a value can be spelled. -/
def isSpellable : Value → Bool
  | int n => (Decimal.ofInt n).spellable
  | number (.finite d) => d.spellable
  | list items => itemsSpellable items
  | object fields => fieldsSpellable fields
  | _ => true

/-- Whether all integers and decimal numbers in these items can be spelled. -/
def itemsSpellable : List Value → Bool
  | [] => true
  | v :: rest => isSpellable v && itemsSpellable rest

/-- Whether all integers and decimal numbers in the values of these fields can be spelled. -/
def fieldsSpellable : List (String × Value) → Bool
  | [] => true
  | (_, v) :: rest => isSpellable v && fieldsSpellable rest

end

variable {v : Value}

/-- A list is spellable exactly if its items are. -/
theorem isSpellable_list_iff {items : List Value} :
    (list items).isSpellable = true ↔ ∀ v ∈ items, v.isSpellable = true := by
  rw [isSpellable]
  induction items with
  | nil => simp [itemsSpellable]
  | cons w rest ih => rw [itemsSpellable, Bool.and_eq_true, ih, List.forall_mem_cons]

/-- An object is spellable exactly if the values of its fields are. -/
theorem isSpellable_object_iff {fs : Fields} :
    (object fs).isSpellable = true ↔ ∀ f ∈ fs, f.2.isSpellable = true := by
  rw [isSpellable]
  induction fs with
  | nil => simp [fieldsSpellable]
  | cons f rest ih => rw [fieldsSpellable, Bool.and_eq_true, ih, List.forall_mem_cons]

/-- The items of a list are spellable with it. -/
theorem isSpellable_of_mem {items : List Value} (h : (list items).isSpellable = true)
    (hv : v ∈ items) : v.isSpellable = true :=
  isSpellable_list_iff.1 h v hv

/-- The fields of an object are spellable with it. -/
theorem isSpellable_of_get? {fs : Fields} {key : String} (h : (object fs).isSpellable = true)
    (hv : fs.get? key = some v) : v.isSpellable = true :=
  isSpellable_object_iff.1 h (key, v) (Fields.mem_of_get? hv)

/-- What is gone through in a value is spellable with it. -/
theorem isSpellable_of_iterate? {items : List Value} (h : v.isSpellable = true)
    (hitems : v.iterate? = some items) : ∀ x ∈ items, x.isSpellable = true := by
  intro x hx
  cases v with
  | list items' =>
    cases hitems
    exact isSpellable_of_mem h hx
  | object fields =>
    cases hitems
    obtain ⟨f, -, rfl⟩ := List.mem_map.1 hx
    rfl
  | text s =>
    cases hitems
    obtain ⟨c, -, rfl⟩ := List.mem_map.1 hx
    rfl
  | _ => cases hitems

end Value

/-! ## Amounts -/

/-- Whether a number is an amount that can be spelled, so that its text is read as that amount. -/
def Decimal.ReadsBack (d : Decimal) : Prop := d.IsAmount ∧ d.spellable = true

/-- A number that a spellable value spells can be spelled. -/
theorem Amount.spellable_of_numeral? {v : Value} {d : Decimal} (hv : v.isSpellable = true)
    (h : numeral? v = some (.finite d)) : d.spellable = true := by
  cases v with
  | number n =>
    cases h
    exact hv
  | int n =>
    cases h
    exact hv
  | float x => exact Numeral.spellable_of_ofText? h
  | text s => exact Numeral.spellable_of_ofText? h
  | _ => cases h

/-- An amount that is read from a spellable value can be spelled. -/
theorem Amount.spellable_of_ofValue {v : Value} {d : Decimal} (hv : v.isSpellable = true)
    (h : ofValue v = .ok d) : d.spellable = true := by
  rcases ofValue_eq_ok_iff.1 h with ⟨-, rfl⟩ | ⟨hnumeral, -⟩
  · exact Decimal.spellable_zero
  · exact spellable_of_numeral? hv hnumeral

/-- Spellable values have such amounts in them. -/
theorem Amount.keeps_readsBack : Keeps (fun v => v.isSpellable = true) Decimal.ReadsBack where
  zero := ⟨Decimal.isAmount_zero, Decimal.spellable_zero⟩
  one := ⟨Decimal.isAmount_one, Decimal.spellable_one⟩
  of_mem h hv := Value.isSpellable_of_mem h hv
  of_get? h hv := Value.isSpellable_of_get? h hv
  of_ofValue hv h := ⟨isAmount_of_ofValue h, spellable_of_ofValue hv h⟩

/-- The figures of a deal that is read from a spellable value are such amounts. -/
theorem Deal.readsBack_of_ofValue {source : Source} {v : Value} {d : Deal}
    (hv : v.isSpellable = true) (h : ofValue source v = .accepted d) :
    ∀ x ∈ d.figures, x.ReadsBack := by
  obtain ⟨fs, rfl, hfs⟩ := Value.readRecord_eq_accepted h
  exact forall_figures Amount.keeps_readsBack hv hfs

/-- The figures of a rule that is read from a spellable value are such amounts. -/
theorem Rule.readsBack_of_ofValue {source : Source} {v : Value} {r : Rule}
    (hv : v.isSpellable = true) (h : ofValue source v = .accepted r) :
    ∀ x ∈ r.terms.figures, x.ReadsBack := by
  obtain ⟨kind, fs, rfl, hfs⟩ := exists_ofFields_of_ofValue h
  exact forall_figures Amount.keeps_readsBack hv hfs

/-- The figures of all rules that are read from a spellable value are such amounts. -/
theorem Rule.readsBack_of_readAll {v : Value} {rules : List Rule} (hv : v.isSpellable = true)
    (h : readAll v = .ok rules) : ∀ r ∈ rules, ∀ x ∈ r.terms.figures, x.ReadsBack := by
  unfold readAll at h
  split at h
  · next items hitems =>
    exact forall_mem_readList
      (fun x hx _ hr => readsBack_of_ofValue (Value.isSpellable_of_iterate? hv hitems x hx) hr) h
  · cases h

/-! ## Breakdowns -/

/-- The numbers of a breakdown: those of its lines and its totals. -/
def Breakdown.figures (b : Breakdown) : List Decimal :=
  b.items.map LineItem.amount ++
    [b.totalPay, b.totalUnits, b.totalGross, b.commission, b.bonus, b.basePay]

/-- A number of any size that is read from a spellable value can be spelled. -/
theorem Value.ensures_readDecimal {v : Value} (hv : v.isSpellable = true) :
    v.readDecimal.Ensures fun d => d.spellable = true := by
  intro d h
  unfold readDecimal at h
  split at h
  · cases h
  · cases h
  · cases h
  · cases h
  · split at h
    · next hnumeral =>
      cases h
      exact Amount.spellable_of_numeral? hv hnumeral
    · cases h
    · cases h

/-- A line that is read from a spellable value has an amount that can be spelled. -/
theorem LineItem.ensures_ofValue (source : Source) {v : Value} (hv : v.isSpellable = true) :
    (LineItem.ofValue source v).Ensures fun i => i.amount.spellable = true := by
  intro i hread
  obtain ⟨fs, rfl, hi⟩ : ∃ fs, v = .object fs ∧ ofFields fs = .accepted i :=
    Value.readRecord_eq_accepted hread
  simp only [ofFields, Reading.seq_eq_accepted_iff, Reading.map_eq_accepted_iff] at hi
  obtain ⟨_, _, ⟨_, _, ⟨_, -, rfl⟩, hamount, rfl⟩, -, rfl⟩ := hi
  exact Fields.ensures_required
    (fun _ hw => Value.ensures_readDecimal (Value.isSpellable_of_get? hv hw)) _ hamount

/-- All numbers of a breakdown that is read from a spellable value can be spelled. -/
theorem Breakdown.spellable_of_ofValue {source : Source} {v : Value} {b : Breakdown}
    (hv : v.isSpellable = true) (h : ofValue source v = .accepted b) :
    ∀ x ∈ b.figures, x.spellable = true := by
  obtain ⟨fs, rfl, hb⟩ : ∃ fs, v = .object fs ∧ ofFields source fs = .accepted b :=
    Value.readRecord_eq_accepted h
  have hlines : (Fields.optional fs "line_items" []
      (Value.readItems .notSequence (LineItem.ofValue source))).Ensures
        fun items => ∀ i ∈ items, i.amount.spellable = true := by
    refine Fields.ensures_optional (List.forall_mem_nil _) fun w hw => Value.ensures_readItems ?_
    rintro items rfl x hx
    exact LineItem.ensures_ofValue source
      (Value.isSpellable_of_mem (Value.isSpellable_of_get? hv hw) hx)
  have htotal : ∀ key, (readTotal fs key).Ensures fun d => d.spellable = true := fun key =>
    Fields.ensures_optional Decimal.spellable_zero fun w hw =>
      Value.ensures_readDecimal (Value.isSpellable_of_get? hv hw)
  simp only [ofFields, Reading.seq_eq_accepted_iff, Reading.map_eq_accepted_iff] at hb
  obtain ⟨_, _, ⟨_, _, ⟨_, _, ⟨_, _, ⟨_, _, ⟨_, _, ⟨_, _, ⟨_, _, ⟨_, hitems, rfl⟩, hpay, rfl⟩,
    hunits, rfl⟩, hgross, rfl⟩, hcommission, rfl⟩, hbonus, rfl⟩, hbase, rfl⟩, -, rfl⟩, -, rfl⟩ := hb
  intro x hx
  simp only [figures, List.mem_append, List.mem_map, List.mem_cons, List.not_mem_nil,
    or_false] at hx
  rcases hx with ⟨i, hi, rfl⟩ | rfl | rfl | rfl | rfl | rfl | rfl
  · exact hlines _ hitems i hi
  · exact htotal _ _ hpay
  · exact htotal _ _ hunits
  · exact htotal _ _ hgross
  · exact htotal _ _ hcommission
  · exact htotal _ _ hbonus
  · exact htotal _ _ hbase

namespace Plan

variable {p : Plan} {deals : List Deal} {b : Breakdown}

/-- The commission that a plan pays can be spelled: it is a running sum. -/
theorem Steps.spellable_commission (s : p.Steps deals b) : b.commission.spellable = true := by
  have hearned : s.earned.spellable = true := Decimal.spellable_of_sum s.subtotal_commission
  rcases eq_or_topUps_of_guaranteed s.guarantees with h | h
  · exact Decimal.spellable_of_foldlM hearned (foldlM_of_topUps h)
  · exact Decimal.spellable_of_foldlM hearned (foldlM_of_topUps h)

/-- The salary or draw that a plan pays can be spelled: it is one of the lines in cents. -/
theorem Steps.spellable_basePay (s : p.Steps deals b) : b.basePay.spellable = true := by
  have hbase : (BasePay.ofItems s.booked).amount = b.basePay := congrArg BasePay.amount s.base
  rw [← hbase]
  unfold BasePay.ofItems
  split
  · next i hi =>
    have hmem := List.mem_of_mem_filter (List.mem_of_getLast? hi)
    obtain ⟨r, -, es, -, e, -, hline⟩ := exists_of_mem_book s.book hmem
    exact Decimal.spellable_of_toCents (Earning.book_eq_ok hline).2
  · exact Decimal.spellable_zero

/-- What a plan pays in all can be spelled: it is a sum. -/
theorem Steps.spellable_totalPay (s : p.Steps deals b) : b.totalPay.spellable = true := by
  have hsettle := s.settle
  unfold BasePay.settle at hsettle
  split at hsettle
  · exact Decimal.spellable_of_add hsettle
  · obtain ⟨sum, -, hsettle⟩ := bind_eq_ok.1 hsettle
    exact Decimal.spellable_of_add hsettle

/-- The units that a plan counts can be spelled: they are a sum. -/
theorem Steps.spellable_totalUnits (s : p.Steps deals b) : b.totalUnits.spellable = true := by
  have hperiod := s.ofDeals
  simp only [Period.ofDeals, bind_eq_ok, pure_eq_ok] at hperiod
  obtain ⟨units, hunits, _, _, _, _, hperiod⟩ := hperiod
  rw [← s.units, ← hperiod]
  exact Decimal.spellable_of_sum hunits

/-- The gross that a plan counts can be spelled: it is a sum. -/
theorem spellable_totalGross (h : p.evaluate deals = .ok b) : b.totalGross.spellable = true := by
  simp only [evaluate, payFor, bind_eq_ok, liftM_eq_ok, pure_eq_ok] at h
  obtain ⟨_, _, _, _, _, _, _, _, _, _, _, _, _, _, _, _, gross, hgross, rfl⟩ := h
  exact Decimal.spellable_of_add hgross

end Plan

/-- All numbers of a breakdown that a plan pays can be spelled. -/
theorem Breakdown.spellable_of_evaluate {p : Plan} {deals : List Deal} {b : Breakdown}
    (h : p.evaluate deals = .ok b) : ∀ x ∈ b.figures, x.spellable = true := by
  obtain ⟨s⟩ := Plan.exists_steps h
  intro x hx
  simp only [figures, List.mem_append, List.mem_map, List.mem_cons, List.not_mem_nil,
    or_false] at hx
  rcases hx with ⟨i, hi, rfl⟩ | rfl | rfl | rfl | rfl | rfl | rfl
  · obtain ⟨y, hy⟩ := (s.isBooked_of_mem_items i hi).exists_toCents
    exact Decimal.spellable_of_toCents hy
  · exact s.spellable_totalPay
  · exact s.spellable_totalUnits
  · exact Plan.spellable_totalGross h
  · exact s.spellable_commission
  · exact Decimal.spellable_of_sum s.subtotal_bonus
  · exact s.spellable_basePay

/-! ## Data from JSON -/

namespace Json

/-- A word is spellable. -/
theorem isSpellable_of_word? {cs rest : List Char} {v : Value} (h : word? cs = some (v, rest)) :
    v.isSpellable = true := by
  unfold word? at h
  split at h <;> cases h <;> rfl

/-- The digits before a point are digits. -/
theorem isDigit_of_mem_wholeDigits? {cs front rest : List Char}
    (h : wholeDigits? cs = some (front, rest)) : ∀ c ∈ front, c.isDigit = true := by
  unfold wholeDigits? at h
  split at h
  · cases h
    simp
  · dsimp only at h
    split at h
    · cases h
    · cases h
      exact fun c hc => List.mem_takeWhile_imp hc

/-- An integer of as many digits as are read can be spelled. -/
theorem isSpellable_int {front : List Char} (hfront : ∀ c ∈ front, c.isDigit = true)
    (hlength : front.length ≤ longestInteger) (negative : Bool) :
    (Value.int (if negative then -(Numeral.digitsValue front : Int)
      else Numeral.digitsValue front)).isSpellable = true := by
  have hlt := Numeral.digitsValue_lt hfront
  generalize Numeral.digitsValue front = n at hlt
  have habs : (if negative then -(n : Int) else n).natAbs = n := by split <;> simp
  have hcount : digitCount n ≤ longestInteger := by
    rcases Nat.eq_zero_or_pos n with rfl | hn
    · rw [digitCount_zero]
      decide
    · exact (digitCount_le_iff hn).2 (hlt.trans_le (Nat.pow_le_pow_right (by norm_num) hlength))
  have hlongest : longestInteger = 4300 := rfl
  show (Decimal.ofInt _).spellable = true
  rw [Decimal.spellable_iff]
  unfold Decimal.adjusted Decimal.ofInt
  dsimp only
  rw [habs]
  omega

/-- A number in JSON is an integer that is not too long, or a binary floating-point number. -/
theorem isSpellable_of_readNumber {cs rest : List Char} {v : Value}
    (h : readNumber cs = .ok (v, rest)) : v.isSpellable = true := by
  unfold readNumber at h
  dsimp only at h
  split at h
  · cases h
  · next hwhole =>
    split at h
    · split at h
      · cases h
      · next hshort =>
        cases h
        exact isSpellable_int (isDigit_of_mem_wholeDigits? hwhole) (not_lt.1 hshort) _
    · cases h
      rfl

/-- Whatever the characters are, the values in them are spellable. -/
theorem holds_isSpellable :
    Holds (fun _ => True) (fun _ => True) fun v => v.isSpellable = true where
  rest _ _ := trivial
  text _ _ := ⟨trivial, trivial⟩
  value _ := rfl
  word := isSpellable_of_word?
  number := isSpellable_of_readNumber
  list := Value.isSpellable_list_iff.2
  object hfields := Value.isSpellable_object_iff.2 fun f hf => (hfields f hf).2

/-- What the points of a JSON text spell is spellable. -/
theorem isSpellable_of_parsePoints {depth : Nat} {ps : List Text.Point} {v : Value}
    (h : parsePoints depth ps = .ok v) : v.isSpellable = true :=
  holds_isSpellable.of_parsePoints trivial h

/-- What a JSON text spells is spellable. -/
theorem isSpellable_of_parse {depth : Nat} {s : String} {v : Value} (h : parse depth s = .ok v) :
    v.isSpellable = true :=
  isSpellable_of_parsePoints h

end Json

end DealerPay
