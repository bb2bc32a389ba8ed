import DealerPay.Plan.Basic
import DealerPay.Proofs.Amount
import DealerPay.Proofs.Exact.Envelope
import DealerPay.Proofs.Reading

/-!
# Deals and rules that were read

What is known of every deal and every rule that was read, from whatever it was read: its figures are
amounts, with any number of digits and any exponent, and a deal is one vehicle or half of one.

* `Amount.Keeps` says that the amounts read from values of some sort have a property;
  `Deal.forall_figures` and `Rule.forall_figures` carry it to the figures of deals and rules.
* `Deal.IsRead` and `Rule.IsRead` say that a record spells the deal or the rule;
  `Deal.isRead_of_ofValue` and `Rule.isRead_of_ofValue` are the ways to get there.
* `Deal.IsRead.isAmount`, `Deal.IsRead.isShare` and `Rule.IsRead.isAmount` are what follows.
-/

namespace DealerPay

/-! ## Fields of amounts -/

/-- Whether the amounts that are read from values of a sort have a property. The sort is one that
the parts of a value share with the whole. -/
structure Amount.Keeps (K : Value → Prop) (P : Decimal → Prop) : Prop where
  /-- An amount that is not there has the property. -/
  zero : P .zero
  /-- So has a count that is not there. -/
  one : P .one
  /-- The items of a list are of the sort. -/
  of_mem : ∀ {items : List Value} {v : Value}, K (.list items) → v ∈ items → K v
  /-- The fields of an object are of the sort. -/
  of_get? : ∀ {fs : Fields} {key : String} {v : Value}, K (.object fs) → fs.get? key = some v → K v
  /-- An amount that is read has the property. -/
  of_ofValue : ∀ {v : Value} {d : Decimal}, K v → Amount.ofValue v = .ok d → P d

/-- Whatever is read, what is accepted is in range. -/
theorem Amount.keeps_isAmount : Keeps (fun _ => True) Decimal.IsAmount where
  zero := Decimal.isAmount_zero
  one := Decimal.isAmount_one
  of_mem _ _ := trivial
  of_get? _ _ := trivial
  of_ofValue _ h := isAmount_of_ofValue h

section Keeps

variable {K : Value → Prop} {P : Decimal → Prop} (hk : Amount.Keeps K P)
include hk

namespace Value

variable {v : Value}

/-- An amount that was read has the property. -/
theorem ensures_readAmount (hv : K v) : v.readAmount.Ensures P :=
  fun _ h => hk.of_ofValue hv (Reading.ofAmount_eq_accepted_iff.1 h)

/-- An amount that was read where it may be absent has the property. -/
theorem ensures_readOptionalAmount (hv : K v) :
    v.readOptionalAmount.Ensures fun o => ∀ d ∈ o, P d := by
  intro o h d hd
  exact hk.of_ofValue hv (Amount.ofValue_of_optional (Reading.ofAmount_eq_accepted_iff.1 h) d hd)

end Value

namespace Fields

variable {fs : Fields} (hfs : K (.object fs))
include hfs

/-- An amount among the fields of a record, zero where it is not there. -/
theorem ensures_amount (key : String) :
    (fs.optional key Decimal.zero Value.readAmount).Ensures P :=
  ensures_optional hk.zero fun _ hv => Value.ensures_readAmount hk (hk.of_get? hfs hv)

/-- An amount of two names among the fields of a record. -/
theorem ensures_renamedAmount (key second : String) :
    (fs.renamed key second Decimal.zero Value.readAmount).Ensures P :=
  ensures_renamed hk.zero fun _ _ hv => Value.ensures_readAmount hk (hk.of_get? hfs hv)

/-- An amount among the fields of a record that may be absent. -/
theorem ensures_optionalAmount (key : String) :
    (fs.optional key none Value.readOptionalAmount).Ensures fun o => ∀ d ∈ o, P d :=
  ensures_optional (by simp) fun _ hv => Value.ensures_readOptionalAmount hk (hk.of_get? hfs hv)

end Fields

/-! ## Deals -/

/-- The figures of a deal have the property of the amounts that it is read from. -/
theorem Deal.forall_figures {fs : Fields} (hfs : K (.object fs)) {d : Deal}
    (h : Deal.ofFields fs = .accepted d) : ∀ x ∈ d.figures, P x := by
  simp only [ofFields, Reading.seq_eq_accepted_iff, Reading.map_eq_accepted_iff] at h
  obtain ⟨_, _, ⟨_, _, ⟨_, _, ⟨_, _, ⟨_, _, ⟨_, _, ⟨_, _, ⟨_, _, ⟨_, _, ⟨_, _, ⟨_, -, rfl⟩, -, rfl⟩,
    hcount, rfl⟩, hfront, rfl⟩, hback, rfl⟩, haccessory, rfl⟩, hspiffs, rfl⟩, htrade, rfl⟩, -, rfl⟩,
    -, rfl⟩, -, rfl⟩ := h
  have hcount' : (fs.optional "count" Decimal.one readCount).Ensures P :=
    Fields.ensures_optional hk.one fun v hv c hc =>
      Value.ensures_readAmount hk (hk.of_get? hfs hv) c (Reading.check_eq_accepted_iff.1 hc).1
  intro x hx
  simp only [figures, List.mem_cons, List.not_mem_nil, or_false] at hx
  rcases hx with rfl | rfl | rfl | rfl | rfl | rfl
  · exact hcount' _ hcount
  · exact Fields.ensures_amount hk hfs _ _ hfront
  · exact Fields.ensures_amount hk hfs _ _ hback
  · exact Fields.ensures_amount hk hfs _ _ haccessory
  · exact Fields.ensures_amount hk hfs _ _ hspiffs
  · exact Fields.ensures_amount hk hfs _ _ htrade

/-! ## Tiers and thresholds -/

/-- The figures of a tier have the property of the amounts that it is read from. -/
theorem Tier.ensures_ofValue (source : Source) (kind : TierKind) {v : Value} (hv : K v) :
    (Tier.ofValue source kind v).Ensures fun t => ∀ x ∈ t.figures, P x := by
  intro t hread
  obtain ⟨fs, rfl, ht⟩ : ∃ fs, v = .object fs ∧ ofFields kind fs = .accepted t :=
    Value.readRecord_eq_accepted hread
  simp only [ofFields, Reading.seq_eq_accepted_iff, Reading.map_eq_accepted_iff] at ht
  obtain ⟨_, _, ⟨_, _, ⟨_, hlower, rfl⟩, hstated, rfl⟩, hrate, rfl⟩ := ht
  intro x hx
  simp only [figures, List.mem_cons] at hx
  rcases hx with rfl | rfl | hx
  · exact Fields.ensures_renamedAmount hk hv _ _ _ hlower
  · exact Fields.ensures_amount hk hv _ _ hrate
  · exact Fields.ensures_optionalAmount hk hv _ _ hstated x (Option.mem_toList.1 hx)

/-- The figures of a threshold have the property of the amounts that it is read from. -/
theorem Threshold.ensures_ofValue (source : Source) {v : Value} (hv : K v) :
    (Threshold.ofValue source v).Ensures fun t => ∀ x ∈ t.figures, P x := by
  intro t hread
  obtain ⟨fs, rfl, ht⟩ : ∃ fs, v = .object fs ∧ ofFields fs = .accepted t :=
    Value.readRecord_eq_accepted hread
  simp only [ofFields, Reading.seq_eq_accepted_iff, Reading.map_eq_accepted_iff] at ht
  obtain ⟨_, _, ⟨_, hlower, rfl⟩, hamount, rfl⟩ := ht
  intro x hx
  simp only [figures, List.mem_cons, List.not_mem_nil, or_false] at hx
  rcases hx with rfl | rfl
  · exact Fields.ensures_renamedAmount hk hv _ _ _ hlower
  · exact Fields.ensures_amount hk hv _ _ hamount

/-! ## Rules -/

namespace Rule

/-- The parts in a list among the fields of a rule have the property, if the parts do that are read
from values of the sort. -/
theorem ensures_parts {α : Type} {figures : α → List Decimal} {read : Value → Reading α}
    (hread : ∀ v, K v → (read v).Ensures fun t => ∀ x ∈ figures t, P x) {fs : Fields}
    (hfs : K (.object fs)) (key : String) :
    (fs.optional key [] (Value.readItems .notSequence read)).Ensures
      fun ts => ∀ t ∈ ts, ∀ x ∈ figures t, P x := by
  refine Fields.ensures_optional (by simp) fun v hv => ?_
  apply Value.ensures_readItems
  rintro items rfl x hx
  exact hread x (hk.of_mem (hk.of_get? hfs hv) hx)

/-- The figures of a rule have the property of the amounts that it is read from. -/
theorem forall_figures {source : Source} {kind : RuleKind} {fs : Fields} (hfs : K (.object fs))
    {r : Rule} (h : ofFields source kind fs = .accepted r) : ∀ x ∈ r.terms.figures, P x := by
  intro x hx
  cases kind with
  | base =>
    simp only [ofFields, Reading.seq_eq_accepted_iff, Reading.map_eq_accepted_iff] at h
    obtain ⟨_, _, ⟨_, _, ⟨_, _, ⟨_, -, rfl⟩, -, rfl⟩, hamount, rfl⟩, -, rfl⟩ := h
    simp only [Terms.figures, List.mem_singleton] at hx
    exact hx ▸ Fields.ensures_amount hk hfs _ _ hamount
  | flatRate =>
    simp only [ofFields, Reading.seq_eq_accepted_iff, Reading.map_eq_accepted_iff] at h
    obtain ⟨_, _, ⟨_, _, ⟨_, _, ⟨_, -, rfl⟩, -, rfl⟩, -, rfl⟩, hamount, rfl⟩ := h
    simp only [Terms.figures, List.mem_singleton] at hx
    exact hx ▸ Fields.ensures_amount hk hfs _ _ hamount
  | unitTiers =>
    simp only [ofFields, Reading.seq_eq_accepted_iff, Reading.map_eq_accepted_iff] at h
    obtain ⟨_, _, ⟨_, _, ⟨_, _, ⟨_, _, ⟨_, -, rfl⟩, -, rfl⟩, -, rfl⟩, htiers, rfl⟩, -, rfl⟩ := h
    obtain ⟨t, ht, hx⟩ := List.mem_flatMap.1 hx
    exact ensures_parts hk (fun _ => Tier.ensures_ofValue hk _ _) hfs _ _ htiers t ht x hx
  | grossShare =>
    simp only [ofFields, Reading.seq_eq_accepted_iff, Reading.map_eq_accepted_iff] at h
    obtain ⟨_, _, ⟨_, _, ⟨_, _, ⟨_, _, ⟨_, _, ⟨_, -, rfl⟩, -, rfl⟩, hfront, rfl⟩, hback, rfl⟩,
      hfrontCap, rfl⟩, hbackCap, rfl⟩ := h
    simp only [Terms.figures, List.mem_cons, List.mem_append, Option.mem_toList] at hx
    rcases hx with rfl | rfl | hx | hx
    · exact Fields.ensures_amount hk hfs _ _ hfront
    · exact Fields.ensures_amount hk hfs _ _ hback
    · exact Fields.ensures_optionalAmount hk hfs _ _ hfrontCap x hx
    · exact Fields.ensures_optionalAmount hk hfs _ _ hbackCap x hx
  | grossTiers =>
    simp only [ofFields, Reading.seq_eq_accepted_iff, Reading.map_eq_accepted_iff] at h
    obtain ⟨_, _, ⟨_, _, ⟨_, _, ⟨_, _, ⟨_, _, ⟨_, -, rfl⟩, -, rfl⟩, -, rfl⟩, htiers, rfl⟩, -,
      rfl⟩, -, rfl⟩ := h
    obtain ⟨t, ht, hx⟩ := List.mem_flatMap.1 hx
    exact ensures_parts hk (fun _ => Tier.ensures_ofValue hk _ _) hfs _ _ htiers t ht x hx
  | volumeBonus =>
    simp only [ofFields, Reading.seq_eq_accepted_iff, Reading.map_eq_accepted_iff] at h
    obtain ⟨_, _, ⟨_, _, ⟨_, _, ⟨_, -, rfl⟩, -, rfl⟩, -, rfl⟩, hthresholds, rfl⟩ := h
    obtain ⟨t, ht, hx⟩ := List.mem_flatMap.1 hx
    exact ensures_parts hk (fun _ => Threshold.ensures_ofValue hk _) hfs _ _ hthresholds t ht x hx
  | addOn =>
    simp only [ofFields, Reading.seq_eq_accepted_iff, Reading.map_eq_accepted_iff] at h
    obtain ⟨_, _, ⟨_, _, ⟨_, _, ⟨_, _, ⟨_, _, ⟨_, -, rfl⟩, -, rfl⟩, -, rfl⟩, haccessory, rfl⟩,
      hspiff, rfl⟩, htrade, rfl⟩ := h
    simp only [Terms.figures, List.mem_cons, List.not_mem_nil, or_false] at hx
    rcases hx with rfl | rfl | rfl
    · exact Fields.ensures_amount hk hfs _ _ haccessory
    · exact Fields.ensures_amount hk hfs _ _ hspiff
    · exact Fields.ensures_amount hk hfs _ _ htrade
  | guarantee =>
    simp only [ofFields, Reading.seq_eq_accepted_iff, Reading.map_eq_accepted_iff] at h
    obtain ⟨_, _, ⟨_, _, ⟨_, -, rfl⟩, -, rfl⟩, hamount, rfl⟩ := h
    simp only [Terms.figures, List.mem_singleton] at hx
    exact hx ▸ Fields.ensures_amount hk hfs _ _ hamount

end Rule

end Keeps

/-! ## What was read -/

namespace Deal

variable {d : Deal}

/-- Whether a record spells the deal. -/
def IsRead (d : Deal) : Prop := ∃ fs, ofFields fs = .accepted d

/-- A deal that a value spells. -/
theorem isRead_of_ofValue {source : Source} {v : Value} (h : ofValue source v = .accepted d) :
    d.IsRead := by
  obtain ⟨fs, -, hfs⟩ := Value.readRecord_eq_accepted h
  exact ⟨fs, hfs⟩

/-- The figures of a deal that was read are amounts. -/
theorem IsRead.isAmount (h : d.IsRead) : ∀ x ∈ d.figures, x.IsAmount := by
  obtain ⟨fs, h⟩ := h
  exact forall_figures Amount.keeps_isAmount trivial h

/-- The count among the fields of a deal is a share. -/
theorem ensures_count (fs : Fields) :
    (fs.optional "count" Decimal.one readCount).Ensures fun c => isShare c = true :=
  Fields.ensures_optional (by decide +kernel) fun _ _ _ hc => (Reading.check_eq_accepted_iff.1 hc).2

/-- A deal that was read is one vehicle or half of one. -/
theorem IsRead.isShare (h : d.IsRead) : isShare d.count = true := by
  obtain ⟨fs, h⟩ := h
  simp only [ofFields, Reading.seq_eq_accepted_iff, Reading.map_eq_accepted_iff] at h
  obtain ⟨_, _, ⟨_, _, ⟨_, _, ⟨_, _, ⟨_, _, ⟨_, _, ⟨_, _, ⟨_, _, ⟨_, _, ⟨_, _, ⟨_, -, rfl⟩, -, rfl⟩,
    hcount, rfl⟩, -, rfl⟩, -, rfl⟩, -, rfl⟩, -, rfl⟩, -, rfl⟩, -, rfl⟩, -, rfl⟩, -, rfl⟩ := h
  exact ensures_count fs _ hcount

end Deal

namespace Rule

variable {r : Rule}

/-- Whether a record spells the rule. -/
def IsRead (r : Rule) : Prop := ∃ source kind fs, ofFields source kind fs = .accepted r

/-- A rule is read from the fields of an object that names its kind. -/
theorem exists_ofFields_of_ofValue {source : Source} {v : Value}
    (h : ofValue source v = .accepted r) :
    ∃ kind fs, v = .object fs ∧ ofFields source kind fs = .accepted r := by
  unfold ofValue at h
  split at h
  · next fs =>
    split at h
    · cases h
    · split at h
      · next kind _ => exact ⟨kind, fs, rfl, Reading.within_eq_accepted_iff.1 h⟩
      · cases h
  · cases h

/-- A rule that a value spells which names its kind. -/
theorem isRead_of_ofValue {source : Source} {v : Value} (h : ofValue source v = .accepted r) :
    r.IsRead := by
  obtain ⟨kind, fs, -, hfs⟩ := exists_ofFields_of_ofValue h
  exact ⟨source, kind, fs, hfs⟩

/-- The rules that items spell have what each of the items ensures. -/
theorem forall_mem_readList {Q : Rule → Prop} {items : List Value} {rules : List Rule}
    (hread : ∀ v ∈ items, (ofValue .direct v).Ensures Q) (h : readList items = .ok rules) :
    ∀ r ∈ rules, Q r := by
  unfold readList at h
  split at h
  · next hitems =>
    cases h
    exact Value.ensures_readEach hread 0 _ hitems
  · cases h
  · cases h

/-- The figures of a rule that was read are amounts. -/
theorem IsRead.isAmount (h : r.IsRead) : ∀ x ∈ r.terms.figures, x.IsAmount := by
  obtain ⟨source, kind, fs, h⟩ := h
  exact forall_figures Amount.keeps_isAmount trivial h

end Rule

end DealerPay
