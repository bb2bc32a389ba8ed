import DealerPay.Proofs.Calendar
import DealerPay.Proofs.Json.Document
import DealerPay.Proofs.Spellable

/-!
# Records come back

What is written down of a record is read as that record: every number with its sign, its digits and
its exponent, an absent one as absent, every word and every text.

* `Amount.ofValue_toText`: the text of an amount that can be spelled is read as that amount.
* `Fields.optional_dumped` and its companions read one field of a record that was written down, and
  `Value.readEach_map` reads a list of them.
* `Deal.ofValue_dumped`, `Rule.ofValue_dumped` and `Breakdown.ofValue_dumped` are the round trips of
  the records, `Rule.readList_dumped` that of the rules of a plan.
* `Deal.isDocument_toValue`, `Rule.isDocument_toValue` and `Breakdown.isDocument_toValue` count the
  levels of what is written down.
-/

namespace DealerPay

open Json (dumped dumpedFields isDocument)

/-! ## Numbers -/

namespace Json

variable {depth : Nat}

/-- A decimal number is a document. -/
@[simp] theorem isDocument_ofDecimal (d : Decimal) : isDocument depth (.ofDecimal d) = true :=
  isDocument_number _

/-- A decimal number that may be absent is a document. -/
@[simp] theorem isDocument_ofDecimal? (o : Option Decimal) :
    isDocument depth (.ofDecimal? o) = true := by
  cases o with
  | none => exact isDocument_null
  | some d => exact isDocument_ofDecimal d

end Json

namespace Amount

/-- The text of such a number is read as that number. -/
theorem ofValue_toText {d : Decimal} (h : d.ReadsBack) : ofValue (.text d.toText) = .ok d :=
  ofValue_eq_ok_iff.2 (.inr ⟨Numeral.ofText?_toText h.2, h.1⟩)

/-- An amount that may be absent is read back, absent where it was. -/
theorem optional_dumped {o : Option Decimal} (h : ∀ d ∈ o, d.ReadsBack) :
    optional (dumped (.ofDecimal? o)) = .ok o := by
  cases o with
  | none => rfl
  | some d =>
    have hd := h d rfl
    have hpresent : ¬ isAbsent (.text d.toText) = true := fun habsent => by
      have hspelled : numeral? (.text d.toText) = some (.finite d) := Numeral.ofText?_toText hd.2
      rw [numeral?_of_isAbsent habsent] at hspelled
      cases hspelled
    show optional (.text d.toText) = _
    unfold optional
    rw [if_neg hpresent, ofValue_toText hd]
    rfl

end Amount

namespace Value

variable {d : Decimal}

/-- An amount is read back. -/
theorem readAmount_dumped (h : d.ReadsBack) : (dumped (.ofDecimal d)).readAmount = .accepted d :=
  Reading.ofAmount_eq_accepted_iff.2 (Amount.ofValue_toText h)

/-- An amount that may be absent is read back. -/
theorem readOptionalAmount_dumped {o : Option Decimal} (h : ∀ d ∈ o, d.ReadsBack) :
    (dumped (.ofDecimal? o)).readOptionalAmount = .accepted o :=
  Reading.ofAmount_eq_accepted_iff.2 (Amount.optional_dumped h)

/-- A number of any size is read back. -/
theorem readDecimal_dumped (h : d.spellable = true) :
    (dumped (.ofDecimal d)).readDecimal = .accepted d := by
  have hspelled : Amount.numeral? (.text d.toText) = some (.finite d) := Numeral.ofText?_toText h
  show readDecimal (.text d.toText) = _
  simp only [readDecimal, hspelled]

/-- A text is read back. -/
theorem readText_dumped (s : String) : (dumped (.text s)).readText = .accepted s := rfl

/-- A truth value is read back. -/
theorem readBool_dumped (b : Bool) : (dumped (.bool b)).readBool = .accepted b := rfl

/-- The items of a list are read back if each of them is. -/
theorem readEach_map {α : Type} {read : Value → Reading α} {f : α → Value} {xs : List α}
    (h : ∀ x ∈ xs, read (f x) = .accepted x) (i : Nat) :
    readEach read i (xs.map f) = .accepted xs := by
  induction xs generalizing i with
  | nil => rfl
  | cons x rest ih =>
    rw [List.map_cons, readEach, h x List.mem_cons_self,
      ih (fun y hy => h y (List.mem_cons_of_mem x hy))]
    rfl

/-- A list of records is read back if each of them is. -/
theorem readItems_dumped {α : Type} {refusal : Refusal} {read : Value → Reading α} {f : α → Value}
    {xs : List α} (h : ∀ x ∈ xs, read (dumped (f x)) = .accepted x) :
    readItems refusal read (dumped (.list (xs.map f))) = .accepted xs := by
  show readEach read 0 (Json.dumpedItems (xs.map f)) = _
  rw [Json.dumpedItems_eq_map, List.map_map]
  exact readEach_map h 0

end Value

/-! ## Fields -/

namespace Fields

variable {α : Type} (fs : Fields) (key : String) {v : Value} {read : Value → Reading α} {a : α}

/-- A field that was written down is read from what comes back of its value. -/
theorem optional_dumped (default : α) (hv : fs.get? key = some v)
    (hread : read (dumped v) = .accepted a) :
    Fields.optional (dumpedFields fs) key default read = .accepted a := by
  unfold Fields.optional
  rw [Json.get?_dumpedFields, hv, Option.map_some]
  exact Reading.within_eq_accepted_iff.2 hread

/-- A field of two names that was written down under the first is read from it. -/
theorem renamed_dumped (second : String) (default : α) (hv : fs.get? key = some v)
    (hread : read (dumped v) = .accepted a) :
    Fields.renamed (dumpedFields fs) key second default read = .accepted a := by
  unfold Fields.renamed
  rw [Json.get?_dumpedFields, hv, Option.map_some]
  exact Reading.within_eq_accepted_iff.2 hread

/-- A field that has to be there and was written down is read from it. -/
theorem required_dumped (hv : fs.get? key = some v) (hread : read (dumped v) = .accepted a) :
    Fields.required (dumpedFields fs) key read = .accepted a := by
  unfold Fields.required
  rw [Json.get?_dumpedFields, hv, Option.map_some]
  exact Reading.within_eq_accepted_iff.2 hread

end Fields

/-! ## Words -/

/-- The word of a condition is read as that condition. -/
theorem Condition.readWord_dumped (c : Condition) :
    Value.readWord words (dumped (.text c.text)) = .accepted c := by
  cases c <;> rfl

/-- The word of a status is read as that status. -/
theorem DealStatus.readWord_dumped (s : DealStatus) :
    Value.readWord words (dumped (.text s.text)) = .accepted s := by
  cases s <;> rfl

/-- The word of a scope is read as that scope. -/
theorem Scope.readWord_dumped (s : Scope) :
    Value.readWord words (dumped (.text s.text)) = .accepted s := by
  rcases s with _ | (_ | _) <;> rfl

/-- The word of a basis is read as that basis. -/
theorem GrossBasis.readWord_dumped (g : GrossBasis) :
    Value.readWord words (dumped (.text g.text)) = .accepted g := by
  cases g <;> rfl

/-- The word of a category is read as that category. -/
theorem Category.readWord_dumped (c : Category) :
    Value.readWord words (dumped (.text c.text)) = .accepted c := by
  cases c <;> rfl

/-- The word of a kind names that kind. -/
theorem RuleKind.named?_text (k : RuleKind) : named? (.text k.text) = some k := by
  cases k <;> rfl

/-! ## Deals -/

/-- A day that may be absent is read back. -/
theorem Deal.readSoldOn_dumped (o : Option Date) :
    readSoldOn (dumped (match o with | some day => .text day.toText | none => .null)) =
      .accepted o := by
  cases o with
  | none => rfl
  | some day =>
    show (Date.ofValue (.text day.toText)).map some = _
    rw [Date.ofValue_toText]
    rfl

/-- A deal is a document of one level. -/
theorem Deal.isDocument_toValue (depth : Nat) (d : Deal) :
    isDocument (depth + 1) d.toValue = true := by
  cases hday : d.soldOn <;> simp [toValue, toFields, hday]

/-- A deal that was written down is read as that deal. -/
theorem Deal.ofValue_dumped (source : Source) {d : Deal} (hfigures : ∀ x ∈ d.figures, x.ReadsBack)
    (hshare : isShare d.count = true) : ofValue source (dumped d.toValue) = .accepted d := by
  have hcount : readCount (dumped (.ofDecimal d.count)) = .accepted d.count :=
    Reading.check_eq_accepted_iff.2
      ⟨Value.readAmount_dumped (hfigures d.count (by simp [figures])), hshare⟩
  have hamount : ∀ x ∈ d.figures, (dumped (.ofDecimal x)).readAmount = .accepted x :=
    fun x hx => Value.readAmount_dumped (hfigures x hx)
  simp only [figures, List.forall_mem_cons] at hamount
  obtain ⟨-, hfront, hback, haccessory, hspiffs, htrade, -⟩ := hamount
  show ofFields (dumpedFields d.toFields) = _
  unfold ofFields
  rw [Fields.optional_dumped d.toFields "sold_date" none rfl (readSoldOn_dumped d.soldOn),
    Fields.optional_dumped d.toFields "condition" .new rfl d.condition.readWord_dumped,
    Fields.optional_dumped d.toFields "count" Decimal.one rfl hcount,
    Fields.optional_dumped d.toFields "front_gross" Decimal.zero rfl hfront,
    Fields.optional_dumped d.toFields "back_gross" Decimal.zero rfl hback,
    Fields.optional_dumped d.toFields "accessory" Decimal.zero rfl haccessory,
    Fields.optional_dumped d.toFields "spiffs" Decimal.zero rfl hspiffs,
    Fields.optional_dumped d.toFields "trade_spiff" Decimal.zero rfl htrade,
    Fields.optional_dumped d.toFields "status" .delivered rfl d.status.readWord_dumped,
    Fields.optional_dumped d.toFields "stock_number" "" rfl (Value.readText_dumped d.stockNumber),
    Fields.optional_dumped d.toFields "customer" "" rfl (Value.readText_dumped d.customer)]
  rfl

/-! ## Tiers and thresholds -/

/-- A tier is a document of one level. -/
theorem Tier.isDocument_toValue (depth : Nat) (kind : TierKind) (t : Tier) :
    isDocument (depth + 1) (t.toValue kind) = true := by
  cases kind <;> simp [toValue, TierKind.rateKey]

/-- A tier that was written down is read as that tier. -/
theorem Tier.ofValue_dumped (source : Source) (kind : TierKind) {t : Tier}
    (h : ∀ x ∈ t.figures, x.ReadsBack) :
    ofValue source kind (dumped (t.toValue kind)) = .accepted t := by
  simp only [figures, List.forall_mem_cons, Option.mem_toList] at h
  obtain ⟨hlower, hrate, hstated⟩ := h
  let fs : Fields := [("from", .ofDecimal t.lower), ("to", .ofDecimal? t.stated),
    (kind.rateKey, .ofDecimal t.rate)]
  have hkey : fs.get? kind.rateKey = some (.ofDecimal t.rate) := by cases kind <;> rfl
  show ofFields kind (dumpedFields fs) = _
  unfold ofFields
  rw [Fields.renamed_dumped fs "from" "from_" Decimal.zero rfl (Value.readAmount_dumped hlower),
    Fields.optional_dumped fs "to" none rfl (Value.readOptionalAmount_dumped hstated),
    Fields.optional_dumped fs kind.rateKey Decimal.zero hkey (Value.readAmount_dumped hrate)]
  rfl

/-- A threshold is a document of one level. -/
theorem Threshold.isDocument_toValue (depth : Nat) (t : Threshold) :
    isDocument (depth + 1) t.toValue = true := by
  simp [toValue]

/-- A threshold that was written down is read as that threshold. -/
theorem Threshold.ofValue_dumped (source : Source) {t : Threshold}
    (h : ∀ x ∈ t.figures, x.ReadsBack) : ofValue source (dumped t.toValue) = .accepted t := by
  simp only [figures, List.forall_mem_cons] at h
  obtain ⟨hlower, hamount, -⟩ := h
  let fs : Fields := [("from", .ofDecimal t.lower), ("amount", .ofDecimal t.amount)]
  show ofFields (dumpedFields fs) = _
  unfold ofFields
  rw [Fields.renamed_dumped fs "from" "from_" Decimal.zero rfl (Value.readAmount_dumped hlower),
    Fields.optional_dumped fs "amount" Decimal.zero rfl (Value.readAmount_dumped hamount)]
  rfl

/-! ## Rules -/

namespace Rule

/-- A rule is a document of three levels: itself, its list of tiers and the tiers. -/
theorem isDocument_toValue (depth : Nat) (r : Rule) : isDocument (depth + 3) r.toValue = true := by
  obtain ⟨label, terms⟩ := r
  cases terms <;>
    simp [toValue, toFields, termFields, kindKey, Tier.isDocument_toValue,
      Threshold.isDocument_toValue]

/-- The kind of a rule is read as the kind that is expected. -/
theorem readWord_kind (k : RuleKind) :
    Value.readWord [(k.text, ())] (dumped (.text k.text)) = .accepted () := by
  cases k <;> rfl

section Parts

variable (fs : Fields) (key : String)

/-- The label of a rule is read back. -/
theorem readLabel_dumped {label : String} (h : fs.get? "label" = some (.text label)) :
    readLabel (dumpedFields fs) = .accepted label :=
  Fields.optional_dumped fs "label" "" h (Value.readText_dumped label)

/-- The kind of a rule is read back. -/
theorem readKind_dumped (kind : RuleKind) (h : fs.get? kindKey = some (.text kind.text)) :
    readKind kind (dumpedFields fs) = .accepted () :=
  Fields.optional_dumped fs kindKey () h (readWord_kind kind)

/-- The scope of a rule is read back. -/
theorem readScope_dumped {scope : Scope} (h : fs.get? "scope" = some (.text scope.text)) :
    readScope (dumpedFields fs) = .accepted scope :=
  Fields.optional_dumped fs "scope" Scope.all h scope.readWord_dumped

/-- An amount of a rule is read back. -/
theorem readAmount_dumped {x : Decimal} (h : fs.get? key = some (.ofDecimal x))
    (hx : x.ReadsBack) : readAmount (dumpedFields fs) key = .accepted x :=
  Fields.optional_dumped fs key Decimal.zero h (Value.readAmount_dumped hx)

/-- A cap of a rule is read back, absent where it was. -/
theorem readCap_dumped {o : Option Decimal} (h : fs.get? key = some (.ofDecimal? o))
    (ho : ∀ x ∈ o, x.ReadsBack) : readCap (dumpedFields fs) key = .accepted o :=
  Fields.optional_dumped fs key none h (Value.readOptionalAmount_dumped ho)

/-- A choice between two ways is read back. -/
theorem readFlag_dumped {b : Bool} (h : fs.get? key = some (.bool b)) :
    readFlag (dumpedFields fs) key = .accepted b :=
  Fields.optional_dumped fs key false h (Value.readBool_dumped b)

/-- The tiers of a rule are read back. -/
theorem readTiers_dumped (source : Source) {kind : TierKind} {tiers : List Tier}
    (h : fs.get? "tiers" = some (.list (tiers.map (Tier.toValue kind))))
    (htiers : ∀ x ∈ tiers.flatMap Tier.figures, x.ReadsBack) :
    readTiers source kind (dumpedFields fs) = .accepted tiers :=
  Fields.optional_dumped fs "tiers" [] h (Value.readItems_dumped fun _ ht =>
    Tier.ofValue_dumped source kind fun x hx => htiers x (List.mem_flatMap_of_mem ht hx))

/-- The thresholds of a rule are read back. -/
theorem readThresholds_dumped (source : Source) {thresholds : List Threshold}
    (h : fs.get? "thresholds" = some (.list (thresholds.map Threshold.toValue)))
    (hthresholds : ∀ x ∈ thresholds.flatMap Threshold.figures, x.ReadsBack) :
    readThresholds source (dumpedFields fs) = .accepted thresholds :=
  Fields.optional_dumped fs "thresholds" [] h (Value.readItems_dumped fun _ ht =>
    Threshold.ofValue_dumped source fun x hx => hthresholds x (List.mem_flatMap_of_mem ht hx))

end Parts

/-- A rule that was written down is read as that rule by what reads its kind. -/
theorem ofFields_dumped (source : Source) {r : Rule} (h : ∀ x ∈ r.terms.figures, x.ReadsBack) :
    ofFields source r.kind (dumpedFields r.toFields) = .accepted r := by
  obtain ⟨label, terms⟩ := r
  cases terms with
  | base amount isDraw =>
    let fs := toFields ⟨label, .base amount isDraw⟩
    have hamount : amount.ReadsBack := h amount List.mem_cons_self
    show ofFields source .base (dumpedFields fs) = _
    rw [ofFields, readLabel_dumped fs rfl, readKind_dumped fs .base rfl,
      readAmount_dumped fs "amount" rfl hamount, readFlag_dumped fs "is_draw" rfl]
    rfl
  | flatRate scope perUnit =>
    let fs := toFields ⟨label, .flatRate scope perUnit⟩
    have hperUnit : perUnit.ReadsBack := h perUnit List.mem_cons_self
    show ofFields source .flatRate (dumpedFields fs) = _
    rw [ofFields, readLabel_dumped fs rfl, readScope_dumped fs rfl,
      readKind_dumped fs .flatRate rfl, readAmount_dumped fs "amount_per_unit" rfl hperUnit]
    rfl
  | unitTiers scope tiers retroactive =>
    let fs := toFields ⟨label, .unitTiers scope tiers retroactive⟩
    show ofFields source .unitTiers (dumpedFields fs) = _
    rw [ofFields, readLabel_dumped fs rfl, readScope_dumped fs rfl,
      readKind_dumped fs .unitTiers rfl, readTiers_dumped fs source rfl h,
      readFlag_dumped fs "retroactive" rfl]
    rfl
  | grossShare front back frontCap backCap =>
    let fs := toFields ⟨label, .grossShare front back frontCap backCap⟩
    simp only [Terms.figures, List.forall_mem_cons, List.forall_mem_append,
      Option.mem_toList] at h
    obtain ⟨hfront, hback, hfrontCap, hbackCap⟩ := h
    show ofFields source .grossShare (dumpedFields fs) = _
    rw [ofFields, readLabel_dumped fs rfl, readKind_dumped fs .grossShare rfl,
      readAmount_dumped fs "front_percent" rfl hfront,
      readAmount_dumped fs "back_percent" rfl hback,
      readCap_dumped fs "front_cap" rfl hfrontCap, readCap_dumped fs "back_cap" rfl hbackCap]
    rfl
  | grossTiers scope tiers retroactive basis =>
    let fs := toFields ⟨label, .grossTiers scope tiers retroactive basis⟩
    show ofFields source .grossTiers (dumpedFields fs) = _
    rw [ofFields, readLabel_dumped fs rfl, readScope_dumped fs rfl,
      readKind_dumped fs .grossTiers rfl, readTiers_dumped fs source rfl h,
      readFlag_dumped fs "retroactive" rfl,
      Fields.optional_dumped fs "gross_basis" .total rfl basis.readWord_dumped]
    rfl
  | volumeBonus scope thresholds =>
    let fs := toFields ⟨label, .volumeBonus scope thresholds⟩
    show ofFields source .volumeBonus (dumpedFields fs) = _
    rw [ofFields, readLabel_dumped fs rfl, readScope_dumped fs rfl,
      readKind_dumped fs .volumeBonus rfl, readThresholds_dumped fs source rfl h]
    rfl
  | addOn scope accessory spiff tradeSpiff =>
    let fs := toFields ⟨label, .addOn scope accessory spiff tradeSpiff⟩
    simp only [Terms.figures, List.forall_mem_cons] at h
    obtain ⟨haccessory, hspiff, htradeSpiff, -⟩ := h
    show ofFields source .addOn (dumpedFields fs) = _
    rw [ofFields, readLabel_dumped fs rfl, readScope_dumped fs rfl, readKind_dumped fs .addOn rfl,
      readAmount_dumped fs "accessory_percent" rfl haccessory,
      readAmount_dumped fs "spiff_percent" rfl hspiff,
      readAmount_dumped fs "trade_spiff_percent" rfl htradeSpiff]
    rfl
  | guarantee perUnit =>
    let fs := toFields ⟨label, .guarantee perUnit⟩
    have hperUnit : perUnit.ReadsBack := h perUnit List.mem_cons_self
    show ofFields source .guarantee (dumpedFields fs) = _
    rw [ofFields, readLabel_dumped fs rfl, readKind_dumped fs .guarantee rfl,
      readAmount_dumped fs "amount_per_unit" rfl hperUnit]
    rfl

/-- A rule that was written down is read as that rule, by the kind that it names. -/
theorem ofValue_dumped (source : Source) {r : Rule} (h : ∀ x ∈ r.terms.figures, x.ReadsBack) :
    ofValue source (dumped r.toValue) = .accepted r := by
  have hkind : Fields.get? (dumpedFields r.toFields) kindKey = some (.text r.kind.text) := by
    rw [Json.get?_dumpedFields]
    rfl
  show ofValue source (.object (dumpedFields r.toFields)) = _
  simp only [ofValue, hkind, RuleKind.named?_text, ofFields_dumped source h]
  rfl

/-- Rules that were written down are read as those rules, in their order. -/
theorem readList_dumped {rules : List Rule}
    (h : ∀ r ∈ rules, ∀ x ∈ r.terms.figures, x.ReadsBack) :
    readList (rules.map fun r => dumped r.toValue) = .ok rules := by
  unfold readList
  rw [Value.readEach_map fun r hr => ofValue_dumped .direct (h r hr)]

end Rule

/-! ## Breakdowns -/

/-- A line that was written down is read as that line. -/
theorem LineItem.ofValue_dumped (source : Source) {i : LineItem} (h : i.amount.spellable = true) :
    ofValue source (dumped i.toValue) = .accepted i := by
  let fs : Fields := [("description", .text i.description), ("amount", .ofDecimal i.amount),
    ("category", .text i.category.text)]
  show ofFields (dumpedFields fs) = _
  unfold ofFields
  rw [Fields.required_dumped fs "description" rfl (Value.readText_dumped i.description),
    Fields.required_dumped fs "amount" rfl (Value.readDecimal_dumped h),
    Fields.optional_dumped fs "category" .commission rfl i.category.readWord_dumped]
  rfl

/-- A breakdown is a document of three levels: itself, its list of lines and the lines. -/
theorem Breakdown.isDocument_toValue (depth : Nat) (b : Breakdown) :
    isDocument (depth + 3) b.toValue = true := by
  simp [toValue, LineItem.toValue]

/-- A breakdown that was written down is read as that breakdown. -/
theorem Breakdown.ofValue_dumped (source : Source) {b : Breakdown}
    (h : ∀ x ∈ b.figures, x.spellable = true) :
    ofValue source (dumped b.toValue) = .accepted b := by
  obtain ⟨hitems, htotals⟩ := List.forall_mem_append.1 h
  have hnumber : ∀ x ∈ [b.totalPay, b.totalUnits, b.totalGross, b.commission, b.bonus, b.basePay],
      (dumped (.ofDecimal x)).readDecimal = .accepted x :=
    fun x hx => Value.readDecimal_dumped (htotals x hx)
  simp only [List.forall_mem_cons] at hnumber
  obtain ⟨hpay, hunits, hgross, hcommission, hbonus, hbase, -⟩ := hnumber
  let fs : Fields :=
    [("line_items", .list (b.items.map LineItem.toValue)),
     ("total_pay", .ofDecimal b.totalPay),
     ("total_units", .ofDecimal b.totalUnits),
     ("total_gross", .ofDecimal b.totalGross),
     ("commission_subtotal", .ofDecimal b.commission),
     ("bonus_total", .ofDecimal b.bonus),
     ("base_pay", .ofDecimal b.basePay),
     ("is_draw", .bool b.isDraw),
     ("warnings", .list (b.warnings.map .text))]
  have hlines : Value.readItems .notSequence (LineItem.ofValue source)
      (dumped (.list (b.items.map LineItem.toValue))) = .accepted b.items :=
    Value.readItems_dumped fun i hi =>
      LineItem.ofValue_dumped source (hitems _ (List.mem_map_of_mem hi))
  have hwarnings : Value.readItems .notSequence Value.readText
      (dumped (.list (b.warnings.map .text))) = .accepted b.warnings :=
    Value.readItems_dumped fun s _ => Value.readText_dumped s
  show ofFields source (dumpedFields fs) = _
  unfold ofFields readTotal
  rw [Fields.optional_dumped fs "line_items" [] rfl hlines,
    Fields.optional_dumped fs "total_pay" Decimal.zero rfl hpay,
    Fields.optional_dumped fs "total_units" Decimal.zero rfl hunits,
    Fields.optional_dumped fs "total_gross" Decimal.zero rfl hgross,
    Fields.optional_dumped fs "commission_subtotal" Decimal.zero rfl hcommission,
    Fields.optional_dumped fs "bonus_total" Decimal.zero rfl hbonus,
    Fields.optional_dumped fs "base_pay" Decimal.zero rfl hbase,
    Fields.optional_dumped fs "is_draw" false rfl (Value.readBool_dumped b.isDraw),
    Fields.optional_dumped fs "warnings" [] rfl hwarnings]
  rfl

end DealerPay
