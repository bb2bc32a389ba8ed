import DealerPay.Pay.Evaluation

/-!
# Preview of one deal

What a single deal is likely to earn, while it is being entered.

* `Terms.previewShare` is the part of one rule. Only percentages, flat rates and add-ons have one:
  tiers, bonuses and salaries need the whole period.
* `Plan.preview` adds up the parts of the rules whose scope admits the deal, raises the sum to each
  guarantee, and rounds once, at the end.
-/

namespace DealerPay

/-- What one deal earns by a rule alone, unrounded. -/
def Terms.previewShare (d : Deal) : Terms → Except Signal Decimal
  | grossShare front back frontCap backCap => do
    let shares ← grossShares front back frontCap backCap d
    shares.1.add shares.2
  | flatRate _ perUnit => perUnit.mul d.count
  | addOn _ accessory spiff tradeSpiff => do
    let shares ← addOnShares accessory spiff tradeSpiff (AddOnTotals.ofDeal d)
    Decimal.sum [shares.accessory, shares.spiff, shares.tradeSpiff]
  | _ => .ok .zero

namespace Plan

/-- The rules whose scope admits a deal. -/
def rulesFor (p : Plan) (d : Deal) : List Rule :=
  p.rules.filter fun r => r.terms.scope.admits d.condition

/-- What a deal is likely to earn. -/
def preview (p : Plan) (d : Deal) : Except Signal Decimal := do
  let shares ← (p.rulesFor d).mapM fun r => r.terms.previewShare d
  let floors ← p.floors.mapM fun perUnit => perUnit.mul d.count
  (floors.foldl Decimal.greatest (← Decimal.sum shares)).toCents

end Plan

end DealerPay
