import DealerPay.Rule.Basic

/-!
# Records of rules

How rules are written down and read back.

* `Rule.ofFields` reads the fields of a rule whose kind is known, `Rule.ofValue` a rule whose field
  `kind` names it.
* `Rule.toFields` and `Rule.toValue` write every field of a rule.
* `Tier.ofValue`, `Tier.toValue`, `Threshold.ofValue` and `Threshold.toValue` do so for its parts.
  The rate of a tier is called `amount` or `percent`; `TierKind` tells the two apart.
-/

namespace DealerPay

/-- What the rate of a tier is. -/
inductive TierKind where
  /-- An amount for each unit. -/
  | unit
  /-- A percentage of gross. -/
  | gross
deriving DecidableEq, Repr

/-- The name of the record that holds a tier. -/
def TierKind.recordName : TierKind → String
  | unit => "UnitTier"
  | gross => "GrossTier"

/-- The name of the field that holds the rate. -/
def TierKind.rateKey : TierKind → String
  | unit => "amount"
  | gross => "percent"

/-! ## Tiers and thresholds -/

namespace Tier

/-- A tier from its fields. -/
def ofFields (kind : TierKind) (fs : Fields) : Reading Tier :=
  Tier.mk
    <$> fs.renamed "from" "from_" Decimal.zero Value.readAmount
    <*> fs.optional "to" none Value.readOptionalAmount
    <*> fs.optional kind.rateKey Decimal.zero Value.readAmount

/-- A tier from a value. -/
def ofValue (source : Source) (kind : TierKind) (v : Value) : Reading Tier :=
  v.readRecord source kind.recordName (ofFields kind)

/-- A tier as a value. -/
def toValue (kind : TierKind) (t : Tier) : Value :=
  .object
    [("from", .ofDecimal t.lower),
     ("to", .ofDecimal? t.stated),
     (kind.rateKey, .ofDecimal t.rate)]

end Tier

namespace Threshold

/-- The name of the record that holds a threshold. -/
def recordName : String := "BonusThreshold"

/-- A threshold from its fields. -/
def ofFields (fs : Fields) : Reading Threshold :=
  Threshold.mk
    <$> fs.renamed "from" "from_" Decimal.zero Value.readAmount
    <*> fs.optional "amount" Decimal.zero Value.readAmount

/-- A threshold from a value. -/
def ofValue (source : Source) (v : Value) : Reading Threshold :=
  v.readRecord source recordName ofFields

/-- A threshold as a value. -/
def toValue (t : Threshold) : Value :=
  .object [("from", .ofDecimal t.lower), ("amount", .ofDecimal t.amount)]

end Threshold

/-! ## Rules -/

namespace Rule

/-- The field that names the kind of a rule. -/
def kindKey : String := "kind"

/-- The label among the fields of a rule. -/
def readLabel (fs : Fields) : Reading String := fs.optional "label" "" Value.readText

/-- The scope among the fields of a rule. -/
def readScope (fs : Fields) : Reading Scope :=
  fs.optional "scope" .all (Value.readWord Scope.words)

/-- The kind among the fields of a rule, which has to be the one that is expected. -/
def readKind (kind : RuleKind) (fs : Fields) : Reading Unit :=
  fs.optional kindKey () (Value.readWord [(kind.text, ())])

/-- An amount among the fields of a rule, zero where it is not there. -/
def readAmount (fs : Fields) (key : String) : Reading Decimal :=
  fs.optional key Decimal.zero Value.readAmount

/-- A cap among the fields of a rule. -/
def readCap (fs : Fields) (key : String) : Reading (Option Decimal) :=
  fs.optional key none Value.readOptionalAmount

/-- A choice between two ways among the fields of a rule, the second where it is not there. -/
def readFlag (fs : Fields) (key : String) : Reading Bool :=
  fs.optional key false Value.readBool

/-- The tiers among the fields of a rule. -/
def readTiers (source : Source) (kind : TierKind) (fs : Fields) : Reading (List Tier) :=
  fs.optional "tiers" [] (Value.readItems .notSequence (Tier.ofValue source kind))

/-- The thresholds among the fields of a rule. -/
def readThresholds (source : Source) (fs : Fields) : Reading (List Threshold) :=
  fs.optional "thresholds" [] (Value.readItems .notSequence (Threshold.ofValue source))

/-- A rule of a known kind from its fields. -/
def ofFields (source : Source) (kind : RuleKind) (fs : Fields) : Reading Rule :=
  match kind with
  | .base =>
    (fun label _ amount isDraw => ⟨label, .base amount isDraw⟩)
      <$> readLabel fs <*> readKind kind fs <*> readAmount fs "amount" <*> readFlag fs "is_draw"
  | .flatRate =>
    (fun label scope _ perUnit => ⟨label, .flatRate scope perUnit⟩)
      <$> readLabel fs <*> readScope fs <*> readKind kind fs <*> readAmount fs "amount_per_unit"
  | .unitTiers =>
    (fun label scope _ tiers retroactive => ⟨label, .unitTiers scope tiers retroactive⟩)
      <$> readLabel fs <*> readScope fs <*> readKind kind fs <*> readTiers source .unit fs
      <*> readFlag fs "retroactive"
  | .grossShare =>
    (fun label _ front back frontCap backCap =>
        ⟨label, .grossShare front back frontCap backCap⟩)
      <$> readLabel fs <*> readKind kind fs <*> readAmount fs "front_percent"
      <*> readAmount fs "back_percent" <*> readCap fs "front_cap" <*> readCap fs "back_cap"
  | .grossTiers =>
    (fun label scope _ tiers retroactive basis =>
        ⟨label, .grossTiers scope tiers retroactive basis⟩)
      <$> readLabel fs <*> readScope fs <*> readKind kind fs <*> readTiers source .gross fs
      <*> readFlag fs "retroactive"
      <*> fs.optional "gross_basis" .total (Value.readWord GrossBasis.words)
  | .volumeBonus =>
    (fun label scope _ thresholds => ⟨label, .volumeBonus scope thresholds⟩)
      <$> readLabel fs <*> readScope fs <*> readKind kind fs <*> readThresholds source fs
  | .addOn =>
    (fun label scope _ accessory spiff tradeSpiff =>
        ⟨label, .addOn scope accessory spiff tradeSpiff⟩)
      <$> readLabel fs <*> readScope fs <*> readKind kind fs
      <*> readAmount fs "accessory_percent" <*> readAmount fs "spiff_percent"
      <*> readAmount fs "trade_spiff_percent"
  | .guarantee =>
    (fun label _ perUnit => ⟨label, .guarantee perUnit⟩)
      <$> readLabel fs <*> readKind kind fs <*> readAmount fs "amount_per_unit"

/-- A rule of a known kind from a value. -/
def ofKind (source : Source) (kind : RuleKind) (v : Value) : Reading Rule :=
  v.readRecord source kind.recordName (ofFields source kind)

/-- A rule from a value that names its kind. -/
def ofValue (source : Source) (v : Value) : Reading Rule :=
  match v with
  | .object fs =>
    match Fields.get? fs kindKey with
    | none => .refuse (.kindMissing kindKey) v
    | some tag =>
      match RuleKind.named? tag with
      | some kind => (ofFields source kind fs).within (.field kind.text)
      | none => .refuse (.kindUnknown kindKey (Text.patched tag.shown) RuleKind.words) v
  | _ => .refuse .notFields v

/-- The fields of the terms of a rule. -/
def termFields : Terms → Fields
  | .base amount isDraw => [("amount", .ofDecimal amount), ("is_draw", .bool isDraw)]
  | .flatRate scope perUnit =>
    [("scope", .text scope.text), ("amount_per_unit", .ofDecimal perUnit)]
  | .unitTiers scope tiers retroactive =>
    [("scope", .text scope.text), ("tiers", .list (tiers.map (Tier.toValue .unit))),
     ("retroactive", .bool retroactive)]
  | .grossShare front back frontCap backCap =>
    [("front_percent", .ofDecimal front), ("back_percent", .ofDecimal back),
     ("front_cap", .ofDecimal? frontCap), ("back_cap", .ofDecimal? backCap)]
  | .grossTiers scope tiers retroactive basis =>
    [("scope", .text scope.text), ("tiers", .list (tiers.map (Tier.toValue .gross))),
     ("retroactive", .bool retroactive), ("gross_basis", .text basis.text)]
  | .volumeBonus scope thresholds =>
    [("scope", .text scope.text), ("thresholds", .list (thresholds.map Threshold.toValue))]
  | .addOn scope accessory spiff tradeSpiff =>
    [("scope", .text scope.text), ("accessory_percent", .ofDecimal accessory),
     ("spiff_percent", .ofDecimal spiff), ("trade_spiff_percent", .ofDecimal tradeSpiff)]
  | .guarantee perUnit => [("amount_per_unit", .ofDecimal perUnit)]

/-- The fields of a rule. -/
def toFields (r : Rule) : Fields :=
  ("label", .text r.label) :: (kindKey, .text r.kind.text) :: termFields r.terms

/-- A rule as a value. -/
def toValue (r : Rule) : Value := .object r.toFields

end Rule

end DealerPay
