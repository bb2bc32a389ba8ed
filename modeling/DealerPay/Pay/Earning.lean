import DealerPay.Breakdown
import DealerPay.Pay.Tiering

/-!
# Earnings

What each rule of a plan earns in a period, before anything is rounded to cents.

* `Earning` is an amount with its description and category.
* `Terms.earnings` lists the earnings of one rule. They depend on the rule and on the period alone,
  not on the rules around it. A guarantee earns nothing here: it looks at the commission of all
  rules together.
* `cappedShare` is the percentage of one deal's gross, with the most that is paid for one deal.
-/

namespace DealerPay

/-- An amount before rounding, with what is said of it. -/
structure Earning where
  /-- What it is for. -/
  description : String
  /-- The amount, unrounded. -/
  amount : Decimal
  /-- What sort of pay it is. -/
  category : Category
deriving DecidableEq, Repr

/-- What stands before the description of an earning within a scope. -/
def Scope.lead : Scope → String
  | .all => ""
  | .only c => c.text ++ " - "

/-- An amount with the most that is paid; a cap of zero or less is none. -/
def capped (cap : Option Decimal) (amount : Decimal) : Decimal :=
  match cap with
  | some most => if most.isPositive then amount.least most else amount
  | none => amount

/-- A percentage of the gross of one deal, capped. -/
def cappedShare (percent : Decimal) (cap : Option Decimal) (gross : Decimal) :
    Except Signal Decimal :=
  return capped cap (← Decimal.percentOf percent gross)

/-- The percentages of the front and back gross of one deal. -/
def grossShares (front back : Decimal) (frontCap backCap : Option Decimal) (d : Deal) :
    Except Signal (Decimal × Decimal) :=
  return (← cappedShare front frontCap d.frontGross, ← cappedShare back backCap d.backGross)

/-- The percentages of what is sold on top. -/
def addOnShares (accessory spiff tradeSpiff : Decimal) (t : AddOnTotals) :
    Except Signal AddOnTotals :=
  return ⟨← Decimal.percentOf accessory t.accessory, ← Decimal.percentOf spiff t.spiff,
    ← Decimal.percentOf tradeSpiff t.tradeSpiff⟩

namespace Terms

/-- A salary or a draw. -/
def baseEarning (amount : Decimal) (isDraw : Bool) : Earning :=
  if isDraw then ⟨"Draw", amount, .draw⟩ else ⟨"Base Salary", amount, .base⟩

/-- An amount for each unit within a scope. -/
def flatRateEarning (period : Period) (scope : Scope) (perUnit : Decimal) :
    Except Failure Earning := do
  let units := period.unitsOf scope
  let shown ← Amount.plainText units
  return ⟨scope.lead ++ "Flat Rate (" ++ shown ++ " units)", ← units.mul perUnit, .commission⟩

/-- The percentages of front and back gross, summed over deals. -/
def grossShareSums (front back : Decimal) (frontCap backCap : Option Decimal)
    (deals : List Deal) : Except Signal (Decimal × Decimal) := do
  let shares ← deals.mapM (grossShares front back frontCap backCap)
  return (← Decimal.sum (shares.map (·.1)), ← Decimal.sum (shares.map (·.2)))

/-- The percentages of front and back gross of all delivered deals. -/
def grossShareEarnings (period : Period) (front back : Decimal)
    (frontCap backCap : Option Decimal) : Except Failure (List Earning) := do
  let sums ← grossShareSums front back frontCap backCap period.delivered
  let frontText ← Amount.plainText front
  let backText ← Amount.plainText back
  return [⟨frontText ++ "% of Front-End Gross", sums.1, .commission⟩,
    ⟨backText ++ "% of Back-End Gross", sums.2, .commission⟩]

/-- The units of a slice at the rate of its tier. -/
def sliceEarning (name : String) (s : Tier.Slice) : Except Failure Earning := do
  let shown ← Amount.plainText s.tier.rate
  return ⟨name ++ " (" ++ s.units.fixed 1 ++ " @ $" ++ shown ++ "/ea)",
    ← s.units.mul s.tier.rate, .commission⟩

/-- Units paid by tiers: all of them at the rate of the tier that is reached, or each slice at the
rate of its own. -/
def unitTierEarnings (period : Period) (scope : Scope) (tiers : List Tier) (retroactive : Bool) :
    Except Failure (List Earning) := do
  let units := period.unitsOf scope
  if retroactive then
    match Tier.reached? units tiers with
    | some t => return [← sliceEarning (scope.lead ++ "Retro Tier") ⟨t, units⟩]
    | none => return []
  else
    (← Tier.slices units tiers).mapM (sliceEarning (scope.lead ++ "Unit Tier"))

/-- What an earning by the tiers of gross is called. -/
def grossTierText (scope : Scope) (basis : GrossBasis) (retroactive : Bool) (percent : String) :
    String :=
  if retroactive then
    scope.lead ++ "Retro " ++ basis.text ++ " Gross (" ++ percent ++ "%)"
  else
    scope.lead ++ basis.text ++ " Gross Tier (" ++ percent ++ "%)"

/-- The percentage of the tier that is reached, of the whole gross of the scope. -/
def grossTierEarnings (period : Period) (scope : Scope) (tiers : List Tier) (retroactive : Bool)
    (basis : GrossBasis) : Except Failure (List Earning) := do
  let gross ← (← GrossTotals.ofDeals (period.dealsOf scope)).basis basis
  match Tier.reached? (period.unitsOf scope) tiers with
  | some t =>
    let shown ← Amount.plainText t.rate
    return [⟨grossTierText scope basis retroactive shown, ← Decimal.percentOf t.rate gross,
      .commission⟩]
  | none => return []

/-- The bonus of a threshold. -/
def thresholdEarning (scope : Scope) (t : Threshold) : Except Failure Earning := do
  let shown ← Amount.plainText t.lower
  return ⟨scope.lead ++ "Unit Bonus (>=" ++ shown ++ " units)", t.amount, .bonus⟩

/-- The percentages of what is sold on top of all delivered deals, whatever the scope. -/
def addOnEarnings (period : Period) (accessory spiff tradeSpiff : Decimal) :
    Except Failure (List Earning) := do
  let shares ← addOnShares accessory spiff tradeSpiff (← AddOnTotals.ofDeals period.delivered)
  return [⟨"Accessory Commission", shares.accessory, .commission⟩,
    ⟨"Spiff Commission", shares.spiff, .commission⟩,
    ⟨"Trade Spiff Commission", shares.tradeSpiff, .commission⟩]

/-- What a rule with these terms earns in a period. -/
def earnings (period : Period) : Terms → Except Failure (List Earning)
  | base amount isDraw => .ok [baseEarning amount isDraw]
  | flatRate scope perUnit => return [← flatRateEarning period scope perUnit]
  | unitTiers scope tiers retroactive => unitTierEarnings period scope tiers retroactive
  | grossShare front back frontCap backCap =>
    grossShareEarnings period front back frontCap backCap
  | grossTiers scope tiers retroactive basis =>
    grossTierEarnings period scope tiers retroactive basis
  | volumeBonus scope thresholds =>
    (Threshold.reached (period.unitsOf scope) thresholds).mapM (thresholdEarning scope)
  | addOn _ accessory spiff tradeSpiff => addOnEarnings period accessory spiff tradeSpiff
  | guarantee _ => .ok []

end Terms

end DealerPay
