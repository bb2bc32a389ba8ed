import DealerPay.Pay.Evaluation
import DealerPay.Proofs.Decimal.Cents
import Mathlib.Data.List.Sort

/-!
# Pay over the rationals

The pay of a plan as it would be without any limit on digits: every figure is a rational number,
sums and products are those of the rationals, and each line is rounded once, to the nearest cent.

* `Exact.pay` is what the terms of a rule pay for the delivered deals, before rounding. Tiers are
  sorted by their lower bound (`Exact.sortedBy`); `Exact.reached?` is the last one that the units
  reach and `Exact.slices` divides the units among all of them.
* `Exact.booked` rounds the lines of all rules, `Exact.topUps` adds what the guarantees require, and
  `Exact.evaluate` settles the commission with the salary or draw.
* `Breakdown.exact` reads a breakdown in these terms: the categories of its lines and the values of
  its amounts.
-/

namespace DealerPay

namespace Exact

/-- An amount of pay with its category. -/
structure Line where
  /-- What sort of pay it is. -/
  category : Category
  /-- How much it is. -/
  amount : ℚ
deriving DecidableEq

namespace Line

/-- The line in whole cents. -/
def inCents (l : Line) : Line := { l with amount := nearestCent l.amount }

/-- Whether a line is a salary or a draw. -/
def isBase (l : Line) : Bool := l.category == .base || l.category == .draw

/-- Whether a line is shown: one that pays nothing is not, unless it is a salary or a draw. -/
def isShown (l : Line) : Bool := l.isBase || l.amount ≠ 0

end Line

/-! ## Figures of the delivered deals -/

/-- The sum of one figure of some deals. -/
def total (figure : Deal → Decimal) (deals : List Deal) : ℚ :=
  (deals.map fun d => (figure d).value).sum

/-- The units within a scope. -/
def units (sold : List Deal) (s : Scope) : ℚ := total Deal.count (Deal.seen s sold)

/-- The gross within a scope. -/
def gross (sold : List Deal) (s : Scope) : GrossBasis → ℚ
  | .front => total Deal.frontGross (Deal.seen s sold)
  | .back => total Deal.backGross (Deal.seen s sold)
  | .total => total Deal.frontGross (Deal.seen s sold) + total Deal.backGross (Deal.seen s sold)

/-- A percentage of an amount. -/
def percentage (percent : Decimal) (x : ℚ) : ℚ := x * percent.value / 100

/-- An amount with the most that is paid; a cap of zero or less is none. -/
def capped (cap : Option Decimal) (x : ℚ) : ℚ :=
  match cap with
  | some most => if 0 < most.value then min x most.value else x
  | none => x

/-- The percentage of the gross of one deal, capped. -/
def share (percent : Decimal) (cap : Option Decimal) (gross : Decimal) : ℚ :=
  capped cap (percentage percent gross.value)

/-! ## Tiers -/

/-- A list by the bounds of its items; items with one bound keep their order. -/
def sortedBy {α : Type} (bound : α → Decimal) (xs : List α) : List α :=
  xs.insertionSort fun a b => (bound a).value ≤ (bound b).value

/-- The items whose bounds the units reach, by their bounds. -/
def reached {α : Type} (bound : α → Decimal) (units : ℚ) (xs : List α) : List α :=
  (sortedBy bound xs).filter fun x => (bound x).value ≤ units

/-- The last tier whose lower bound the units reach. -/
def reached? (units : ℚ) (tiers : List Tier) : Option Tier :=
  (reached Tier.lower units tiers).getLast?

/-- The units up to which a tier takes them. -/
def ceiling (t : Tier) (units : ℚ) : ℚ :=
  match t.upper with
  | some upper => min units upper.value
  | none => units

/-- The units that each tier takes of those beyond the ones that are accounted for: all up to its
ceiling, if the units reach it at all. -/
def slicesFrom (units : ℚ) : ℚ → List Tier → List (Tier × ℚ)
  | _, [] => []
  | accounted, t :: rest =>
    if t.lower.value ≤ units ∧ accounted < ceiling t units then
      (t, ceiling t units - accounted) :: slicesFrom units (ceiling t units) rest
    else slicesFrom units accounted rest

/-- The units that each tier takes. -/
def slices (units : ℚ) (tiers : List Tier) : List (Tier × ℚ) :=
  slicesFrom units 0 (sortedBy Tier.lower tiers)

/-! ## Rules -/

/-- What the terms of a rule pay for the delivered deals, before rounding. -/
def pay (sold : List Deal) : Terms → List Line
  | .base amount isDraw => [⟨if isDraw then .draw else .base, amount.value⟩]
  | .flatRate s perUnit => [⟨.commission, units sold s * perUnit.value⟩]
  | .unitTiers s tiers retroactive =>
    if retroactive then
      (reached? (units sold s) tiers).toList.map fun t =>
        ⟨.commission, units sold s * t.rate.value⟩
    else (slices (units sold s) tiers).map fun taken => ⟨.commission, taken.2 * taken.1.rate.value⟩
  | .grossShare front back frontCap backCap =>
    [⟨.commission, (sold.map fun d => share front frontCap d.frontGross).sum⟩,
      ⟨.commission, (sold.map fun d => share back backCap d.backGross).sum⟩]
  | .grossTiers s tiers _ basis =>
    (reached? (units sold s) tiers).toList.map fun t =>
      ⟨.commission, percentage t.rate (gross sold s basis)⟩
  | .volumeBonus s thresholds =>
    (reached Threshold.lower (units sold s) thresholds).map fun t => ⟨.bonus, t.amount.value⟩
  | .addOn _ accessory spiff tradeSpiff =>
    [⟨.commission, percentage accessory (total Deal.accessory sold)⟩,
      ⟨.commission, percentage spiff (total Deal.spiffs sold)⟩,
      ⟨.commission, percentage tradeSpiff (total Deal.tradeSpiff sold)⟩]
  | .guarantee _ => []

/-- The lines of all rules in cents, in the order of the rules. -/
def booked (rules : List Rule) (sold : List Deal) : List Line :=
  (rules.flatMap fun r => pay sold r.terms).map Line.inCents

/-- What the lines of a category add up to. -/
def subtotal (c : Category) (lines : List Line) : ℚ :=
  ((lines.filter fun l => l.category == c).map Line.amount).sum

/-! ## Guarantees -/

/-- The commission for each unit that terms guarantee, if they do. -/
def floor? : Terms → Option ℚ
  | .guarantee perUnit => if 0 < perUnit.value then some perUnit.value else none
  | _ => none

/-- The commissions for each unit that rules guarantee. -/
def floors (rules : List Rule) : List ℚ := rules.filterMap fun r => floor? r.terms

/-- A commission raised to what each guarantee requires in turn, and the lines of what was added. -/
def topUps (units : ℚ) : ℚ → List ℚ → ℚ × List Line
  | commission, [] => (commission, [])
  | commission, floor :: rest =>
    let required := nearestCent (units * floor)
    if commission < required then
      let raised := topUps units required rest
      (raised.1, ⟨.guarantee, required - commission⟩ :: raised.2)
    else topUps units commission rest

/-- The commission with what the guarantees add to it, where anything was delivered. -/
def guaranteed (units commission : ℚ) (floors : List ℚ) : ℚ × List Line :=
  if 0 < units then topUps units commission floors else (commission, [])

/-! ## Salary and draw -/

/-- The salary or draw of terms, and whether it is a draw. -/
def base? : Terms → Option (ℚ × Bool)
  | .base amount isDraw => some (nearestCent amount.value, isDraw)
  | _ => none

/-- The salary or draw of rules: the last one counts. -/
def basePay (rules : List Rule) : ℚ × Bool :=
  ((rules.filterMap fun r => base? r.terms).getLast?).getD (0, false)

/-- The lines with the one that sets the commission against a draw, behind the draw, where the draw
is more. -/
def withOffset (base : ℚ × Bool) (commission : ℚ) (lines : List Line) : List Line :=
  if base.2 ∧ commission < base.1 then
    insertAfterLast Line.isBase ⟨.drawOffset, -commission⟩ lines
  else lines

/-- What is paid in all. -/
def settle (base : ℚ × Bool) (commission bonus : ℚ) : ℚ :=
  if base.2 then max base.1 commission + bonus else commission + bonus + base.1

/-! ## Evaluation -/

/-- What a plan pays for a period. -/
structure Pay where
  /-- The lines, in order. -/
  lines : List Line
  /-- Commission, with what was added to reach a guarantee. -/
  commission : ℚ
  /-- All bonuses. -/
  bonus : ℚ
  /-- The salary or the draw, and whether it is a draw. -/
  base : ℚ × Bool
  /-- What is paid in all. -/
  total : ℚ
  /-- The units that were delivered. -/
  units : ℚ
  /-- The gross of the delivered deals. -/
  gross : ℚ
deriving DecidableEq

/-- What rules pay for the delivered deals of a period. -/
def payFor (rules : List Rule) (sold : List Deal) : Pay :=
  let lines := booked rules sold
  let commission := guaranteed (units sold .all) (subtotal .commission lines) (floors rules)
  { lines := withOffset (basePay rules) commission.1 ((lines ++ commission.2).filter Line.isShown)
    commission := commission.1
    bonus := subtotal .bonus lines
    base := basePay rules
    total := settle (basePay rules) commission.1 (subtotal .bonus lines)
    units := units sold .all
    gross := gross sold .all .total }

/-- What rules pay for deals. -/
def evaluate (rules : List Rule) (deals : List Deal) : Pay := payFor rules (Deal.delivered deals)

end Exact

/-- An earning by its category and the value of its amount. -/
def Earning.exact (e : Earning) : Exact.Line := ⟨e.category, e.amount.value⟩

/-- A line by its category and the value of its amount. -/
def LineItem.exact (i : LineItem) : Exact.Line := ⟨i.category, i.amount.value⟩

/-- A breakdown by the categories of its lines and the values of its numbers. -/
def Breakdown.exact (b : Breakdown) : Exact.Pay where
  lines := b.items.map LineItem.exact
  commission := b.commission.value
  bonus := b.bonus.value
  base := (b.basePay.value, b.isDraw)
  total := b.totalPay.value
  units := b.totalUnits.value
  gross := b.totalGross.value

end DealerPay
