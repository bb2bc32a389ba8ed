import DealerPay.Proofs.Coverage
import DealerPay.Service.Answer

/-!
# Bad amounts in requests

What the service answers where an amount in the body of a request is not one.

* `Deal.amounts`, `Rule.amounts` and their companions collect the values that stand where an amount
  is read; `Deal.covers_ofFields`, `Rule.covers_ofFields` and so on say that reading depends on these
  alone.
* `Service.Response.ReportsOn` is what an answer tells of the amounts in a body.
* `Service.answer_reportsOn_amounts`: bad amounts are reported, all of them, unless one is too large
  for arithmetic or cannot be written down.
-/

namespace DealerPay

variable {w : Prop} {fs : Fields} {v : Value}

namespace Fields

/-- The value of a field in which an amount stands. -/
def amount (fs : Fields) (key : String) : List Value := fs.under key fun v => [v]

/-- The value of a field with two names in which an amount stands. -/
def amountEither (fs : Fields) (key second : String) : List Value :=
  fs.underEither key second fun v => [v]

/-- An amount among fields is covered. -/
theorem covers_amount (hfs : w → Json.fieldsWritable fs = true) (key : String) (default : Decimal) :
    (fs.optional key default Value.readAmount).Covers w (fs.amount key) :=
  covers_optional hfs fun _ => Value.covers_readAmount

/-- An amount among fields that may be absent is covered. -/
theorem covers_optionalAmount (hfs : w → Json.fieldsWritable fs = true) (key : String) :
    (fs.optional key none Value.readOptionalAmount).Covers w (fs.amount key) :=
  covers_optional hfs fun _ => Value.covers_readOptionalAmount

/-- An amount in a field with two names is covered. -/
theorem covers_amountEither (hfs : w → Json.fieldsWritable fs = true) (key second : String)
    (default : Decimal) :
    (fs.renamed key second default Value.readAmount).Covers w (fs.amountEither key second) :=
  covers_renamed hfs fun _ => Value.covers_readAmount

/-- A word among fields is no amount. -/
theorem covers_word {α : Type} (hfs : w → Json.fieldsWritable fs = true) (key : String)
    (default : α) (choices : List (String × α)) :
    (fs.optional key default (Value.readWord choices)).Covers w [] :=
  covers_optional_plain hfs fun _ => Value.covers_readWord choices

/-- A text among fields is no amount. -/
theorem covers_text (hfs : w → Json.fieldsWritable fs = true) (key default : String) :
    (fs.optional key default Value.readText).Covers w [] :=
  covers_optional_plain hfs fun _ => Value.covers_readText

end Fields

/-! ## Deals -/

namespace Deal

/-- The amounts among the fields of a deal. -/
def amounts (fs : Fields) : List Value :=
  fs.amount "count" ++ fs.amount "front_gross" ++ fs.amount "back_gross" ++ fs.amount "accessory"
    ++ fs.amount "spiffs" ++ fs.amount "trade_spiff"

/-- A count is an amount, on which there is a condition. -/
theorem covers_readCount (hv : w → Json.isWritable v = true) : (readCount v).Covers w [v] :=
  (Value.covers_readAmount hv).check hv _ _

/-- A day is no amount. -/
theorem covers_readSoldOn (hv : w → Json.isWritable v = true) : (readSoldOn v).Covers w [] := by
  unfold readSoldOn
  split
  · exact .accepted _
  · exact (Date.covers_ofValue hv).map _

/-- Reading a deal covers its amounts. -/
theorem covers_ofFields (hfs : w → Json.fieldsWritable fs = true) :
    (ofFields fs).Covers w (amounts fs) := by
  unfold ofFields amounts
  refine .seq_plain ?_ (Fields.covers_text hfs "customer" "")
  refine .seq_plain ?_ (Fields.covers_text hfs "stock_number" "")
  refine .seq_plain ?_ (Fields.covers_word hfs "status" _ _)
  refine .seq ?_ (Fields.covers_amount hfs "trade_spiff" _)
  refine .seq ?_ (Fields.covers_amount hfs "spiffs" _)
  refine .seq ?_ (Fields.covers_amount hfs "accessory" _)
  refine .seq ?_ (Fields.covers_amount hfs "back_gross" _)
  refine .seq ?_ (Fields.covers_amount hfs "front_gross" _)
  refine .plain_seq ?_ (Fields.covers_optional hfs fun _ => covers_readCount)
  refine .seq_plain ?_ (Fields.covers_word hfs "condition" _ _)
  exact (Fields.covers_optional_plain hfs fun _ => covers_readSoldOn).map _

/-- Reading a deal covers its amounts. -/
theorem covers_ofValue (source : Source) (hv : w → Json.isWritable v = true) :
    (ofValue source v).Covers w (v.inFields amounts) :=
  Value.covers_readRecord source _ (fun _ => covers_ofFields) hv

end Deal

/-! ## Rules -/

/-- The amounts among the fields of a tier. -/
def Tier.amounts (kind : TierKind) (fs : Fields) : List Value :=
  fs.amountEither "from" "from_" ++ fs.amount "to" ++ fs.amount kind.rateKey

/-- Reading a tier covers its amounts. -/
theorem Tier.covers_ofValue (source : Source) (kind : TierKind)
    (hv : w → Json.isWritable v = true) :
    (ofValue source kind v).Covers w (v.inFields (amounts kind)) := by
  apply Value.covers_readRecord source _ _ hv
  intro fs hfs
  unfold ofFields amounts
  refine .seq ?_ (Fields.covers_amount hfs kind.rateKey _)
  refine .seq ?_ (Fields.covers_optionalAmount hfs "to")
  exact (Fields.covers_amountEither hfs "from" "from_" _).map _

/-- The amounts among the fields of a threshold. -/
def Threshold.amounts (fs : Fields) : List Value :=
  fs.amountEither "from" "from_" ++ fs.amount "amount"

/-- Reading a threshold covers its amounts. -/
theorem Threshold.covers_ofValue (source : Source) (hv : w → Json.isWritable v = true) :
    (ofValue source v).Covers w (v.inFields amounts) := by
  apply Value.covers_readRecord source _ _ hv
  intro fs hfs
  unfold ofFields amounts
  refine .seq ?_ (Fields.covers_amount hfs "amount" _)
  exact (Fields.covers_amountEither hfs "from" "from_" _).map _

namespace Rule

/-- The amounts among the fields of a rule of a known kind. -/
def amounts (kind : RuleKind) (fs : Fields) : List Value :=
  match kind with
  | .base => fs.amount "amount"
  | .flatRate => fs.amount "amount_per_unit"
  | .unitTiers => fs.under "tiers" (Value.inItems (Value.inFields (Tier.amounts .unit)))
  | .grossShare =>
    fs.amount "front_percent" ++ fs.amount "back_percent" ++ fs.amount "front_cap"
      ++ fs.amount "back_cap"
  | .grossTiers => fs.under "tiers" (Value.inItems (Value.inFields (Tier.amounts .gross)))
  | .volumeBonus => fs.under "thresholds" (Value.inItems (Value.inFields Threshold.amounts))
  | .addOn =>
    fs.amount "accessory_percent" ++ fs.amount "spiff_percent" ++ fs.amount "trade_spiff_percent"
  | .guarantee => fs.amount "amount_per_unit"

/-- The amounts in a rule: those of its kind, if it names one. -/
def amountsIn : Value → List Value
  | .object fs =>
    match (Fields.get? fs kindKey).bind RuleKind.named? with
    | some kind => amounts kind fs
    | none => []
  | _ => []

/-- A choice between two ways is no amount. -/
theorem covers_readFlag (hfs : w → Json.fieldsWritable fs = true) (key : String) :
    (readFlag fs key).Covers w [] :=
  Fields.covers_optional_plain hfs fun _ => Value.covers_readBool

/-- The label and the kind, with which every rule starts, are no amounts. -/
theorem covers_head {α : Type} (hfs : w → Json.fieldsWritable fs = true) (kind : RuleKind)
    (f : String → Unit → α) : (f <$> readLabel fs <*> readKind kind fs).Covers w [] :=
  ((Fields.covers_text hfs "label" "").map f).seq_plain (Fields.covers_word hfs kindKey _ _)

/-- Nor is the scope that may stand between them. -/
theorem covers_scopedHead {α : Type} (hfs : w → Json.fieldsWritable fs = true) (kind : RuleKind)
    (f : String → Scope → Unit → α) :
    (f <$> readLabel fs <*> readScope fs <*> readKind kind fs).Covers w [] :=
  (((Fields.covers_text hfs "label" "").map f).seq_plain
    (Fields.covers_word hfs "scope" _ _)).seq_plain
    (Fields.covers_word hfs kindKey _ _)

/-- Reading the tiers of a rule covers their amounts. -/
theorem covers_readTiers (source : Source) (kind : TierKind)
    (hfs : w → Json.fieldsWritable fs = true) :
    (readTiers source kind fs).Covers w
      (fs.under "tiers" (Value.inItems (Value.inFields (Tier.amounts kind)))) :=
  Fields.covers_optional hfs fun _ =>
    Value.covers_readItems _ fun _ => Tier.covers_ofValue source kind

/-- Reading the thresholds of a rule covers their amounts. -/
theorem covers_readThresholds (source : Source) (hfs : w → Json.fieldsWritable fs = true) :
    (readThresholds source fs).Covers w
      (fs.under "thresholds" (Value.inItems (Value.inFields Threshold.amounts))) :=
  Fields.covers_optional hfs fun _ =>
    Value.covers_readItems _ fun _ => Threshold.covers_ofValue source

/-- Reading a rule of a known kind covers its amounts. -/
theorem covers_ofFields (source : Source) (kind : RuleKind)
    (hfs : w → Json.fieldsWritable fs = true) :
    (ofFields source kind fs).Covers w (amounts kind fs) := by
  cases kind with
  | base =>
    refine .seq_plain ?_ (covers_readFlag hfs "is_draw")
    exact .plain_seq (covers_head hfs _ _) (Fields.covers_amount hfs "amount" _)
  | flatRate => exact .plain_seq (covers_scopedHead hfs _ _) (Fields.covers_amount hfs _ _)
  | unitTiers =>
    refine .seq_plain ?_ (covers_readFlag hfs "retroactive")
    exact .plain_seq (covers_scopedHead hfs _ _) (covers_readTiers source .unit hfs)
  | grossShare =>
    refine .seq ?_ (Fields.covers_optionalAmount hfs "back_cap")
    refine .seq ?_ (Fields.covers_optionalAmount hfs "front_cap")
    refine .seq ?_ (Fields.covers_amount hfs "back_percent" _)
    exact .plain_seq (covers_head hfs _ _) (Fields.covers_amount hfs "front_percent" _)
  | grossTiers =>
    refine .seq_plain ?_ (Fields.covers_word hfs "gross_basis" _ _)
    refine .seq_plain ?_ (covers_readFlag hfs "retroactive")
    exact .plain_seq (covers_scopedHead hfs _ _) (covers_readTiers source .gross hfs)
  | volumeBonus => exact .plain_seq (covers_scopedHead hfs _ _) (covers_readThresholds source hfs)
  | addOn =>
    refine .seq ?_ (Fields.covers_amount hfs "trade_spiff_percent" _)
    refine .seq ?_ (Fields.covers_amount hfs "spiff_percent" _)
    exact .plain_seq (covers_scopedHead hfs _ _) (Fields.covers_amount hfs "accessory_percent" _)
  | guarantee => exact .plain_seq (covers_head hfs _ _) (Fields.covers_amount hfs _ _)

/-- Reading a rule covers its amounts. -/
theorem covers_ofValue (source : Source) (hv : w → Json.isWritable v = true) :
    (ofValue source v).Covers w (amountsIn v) := by
  cases v with
  | object fs =>
    unfold ofValue amountsIn
    dsimp only
    cases Fields.get? fs kindKey with
    | none => exact .refuse hv
    | some tag =>
      dsimp only [Option.bind]
      cases RuleKind.named? tag with
      | some kind => exact (covers_ofFields source kind hv).within _
      | none => exact .refuse hv
  | _ => exact .refuse hv

end Rule

/-! ## Requests -/

namespace Service

/-- The amounts in the rules among the fields of a request. -/
def ruleAmounts (fs : Fields) : List Value := fs.under "rules" (Value.inItems Rule.amountsIn)

/-- Reading the rules of a request covers their amounts. -/
theorem covers_readRules (source : Source) (hfs : w → Json.fieldsWritable fs = true) :
    (readRules source fs).Covers w (ruleAmounts fs) :=
  Fields.covers_optional hfs fun _ =>
    Value.covers_readItems _ fun _ => Rule.covers_ofValue source

/-- The amounts in the rules and the deals among the fields of a request. -/
def Assignment.amounts (fs : Fields) : List Value :=
  ruleAmounts fs ++ fs.under "transactions" (Value.inItems (Value.inFields Deal.amounts))

/-- Reading rules and deals covers their amounts. -/
theorem Assignment.covers_ofValue (source : Source) (name : String)
    (hv : w → Json.isWritable v = true) :
    (ofValue source name v).Covers w (v.inFields amounts) := by
  apply Value.covers_readRecord source name _ hv
  intro fs hfs
  exact ((covers_readRules source hfs).map _).seq (Fields.covers_optional hfs fun _ =>
    Value.covers_readItems _ fun _ => Deal.covers_ofValue source)

/-- Reading rules to be checked covers their amounts. -/
theorem CheckRequest.covers_ofValue (source : Source) (hv : w → Json.isWritable v = true) :
    (ofValue source v).Covers w (v.inFields ruleAmounts) :=
  Value.covers_readRecord source _ (fun _ hfs => (covers_readRules source hfs).map _) hv

/-! ## Answers -/

/-- A call at a fixed path is answered by its endpoint. -/
theorem answer_of_mem_fixed {e : Endpoint} (he : e ∈ Endpoint.fixed) (s : Settings) (b : Body) :
    answer s ⟨e.method.text, e.path, b⟩ = e.answer s b := by
  unfold answer
  rw [Endpoint.ofPath?_path_of_mem_fixed e he]
  exact if_pos rfl

end Service

end DealerPay
