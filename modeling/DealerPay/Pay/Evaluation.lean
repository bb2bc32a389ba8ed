import DealerPay.Pay.Earning
import DealerPay.Plan.Basic

/-!
# Evaluation of a plan

What a plan pays for the deals of a period.

* Every earning is rounded to cents once, by itself, and becomes a line (`Earning.book`). Lines of
  nothing are left out of the breakdown, those of a salary or draw excepted (`LineItem.isShown`).
* Commission and bonuses are the sums of the rounded lines (`subtotal`).
* Guarantees raise the commission, each in turn, when anything was delivered (`topUps`).
* The last salary or draw is the one that counts (`BasePay.ofItems`). A salary is paid on top; of a
  draw and the commission the larger one is paid, and where that is the draw, a line behind it shows
  the commission that it is set against (`BasePay.settle`, `BasePay.offset`).
* `Plan.evaluate` puts this together, `Plan.run` notes it down as well.
-/

namespace DealerPay

/-! ## Lines -/

/-- The line of an earning: its amount in cents. -/
def Earning.book (e : Earning) : Except Signal LineItem :=
  return ⟨e.description, ← e.amount.toCents, e.category⟩

namespace LineItem

/-- Whether a line is a salary or a draw. -/
def isBase (i : LineItem) : Bool := i.category == .base || i.category == .draw

/-- Whether a line is shown: one that pays nothing is not, unless it is a salary or a draw. -/
def isShown (i : LineItem) : Bool := i.isBase || !i.amount.isZero

end LineItem

/-- What the lines of a category add up to. -/
def subtotal (c : Category) (items : List LineItem) : Except Signal Decimal :=
  Decimal.sum ((items.filter fun i => i.category == c).map (·.amount))

/-- The lines that a rule books in a period, also those that pay nothing. -/
def Terms.book (period : Period) (t : Terms) : Except Failure (List LineItem) := do
  (← t.earnings period).mapM fun e => liftM e.book

/-- The lines that the rules of a plan book, in the order of the rules. -/
def Plan.book (p : Plan) (period : Period) : Except Failure (List LineItem) :=
  return (← p.rules.mapM fun r => r.terms.book period).flatten

/-! ## Guarantees -/

/-- The commission for each unit that terms guarantee, if they do. -/
def Terms.floor? : Terms → Option Decimal
  | guarantee perUnit => if perUnit.isPositive then some perUnit else none
  | _ => none

/-- The commissions for each unit that a plan guarantees. -/
def Plan.floors (p : Plan) : List Decimal := p.rules.filterMap fun r => r.terms.floor?

/-- A commission raised to each guarantee in turn, and the lines of what was added. -/
def topUps (units commission : Decimal) : List Decimal → Except Signal (Decimal × List LineItem)
  | [] => .ok (commission, [])
  | floor :: rest => do
    let required ← (← units.mul floor).toCents
    if commission < required then
      let added ← (← required.sub commission).toCents
      let (raised, items) ← topUps units (← commission.add added) rest
      return (raised, ⟨"Minimum Commission Guarantee", added, .guarantee⟩ :: items)
    else topUps units commission rest

/-- The commission with what the guarantees add to it; they add nothing where nothing was
delivered. -/
def guaranteed (units commission : Decimal) (floors : List Decimal) :
    Except Signal (Decimal × List LineItem) :=
  if units.isPositive then topUps units commission floors else .ok (commission, [])

/-! ## Salary and draw -/

/-- The salary or draw of a period. -/
structure BasePay where
  /-- How much it is. -/
  amount : Decimal
  /-- Whether it is a draw. -/
  isDraw : Bool
deriving DecidableEq, Repr

namespace BasePay

/-- No salary and no draw. -/
def none : BasePay := ⟨Decimal.zero, false⟩

/-- The salary or draw among lines: the last one counts. -/
def ofItems (items : List LineItem) : BasePay :=
  match (items.filter LineItem.isBase).getLast? with
  | some i => ⟨i.amount, i.category == .draw⟩
  | Option.none => BasePay.none

/-- What is paid in all. -/
def settle (b : BasePay) (commission bonus : Decimal) : Except Signal Decimal := do
  if b.isDraw then (b.amount.greatest commission).add bonus
  else (← commission.add bonus).add b.amount

/-- Whether a draw is more than the commission. -/
def exceeds (b : BasePay) (commission : Decimal) : Bool := b.isDraw && commission < b.amount

/-- The line that sets the commission against a draw. -/
def offset (commission : Decimal) : Except Signal LineItem :=
  return ⟨"Commission vs Draw", ← (← Decimal.zero.sub commission).toCents, .drawOffset⟩

end BasePay

/-- `x` put behind the last item that `p` holds for. -/
def insertAfterLast {α : Type} (p : α → Bool) (x : α) : List α → List α
  | [] => []
  | y :: rest => if p y && !rest.any p then y :: x :: rest else y :: insertAfterLast p x rest

/-- The lines with the one that sets the commission against a draw, where the draw is more. -/
def withOffset (b : BasePay) (commission : Decimal) (items : List LineItem) :
    Except Signal (List LineItem) :=
  if b.exceeds commission then
    return insertAfterLast LineItem.isBase (← BasePay.offset commission) items
  else .ok items

/-! ## Plans -/

namespace Plan

/-- What a plan pays in a period. -/
def payFor (p : Plan) (period : Period) : Except Failure Breakdown := do
  let booked ← p.book period
  let earned ← subtotal .commission booked
  let bonus ← subtotal .bonus booked
  let (commission, added) ← guaranteed period.units earned p.floors
  let base := BasePay.ofItems booked
  let items ← withOffset base commission ((booked ++ added).filter LineItem.isShown)
  let totalPay ← base.settle commission bonus
  let totalGross ← (← GrossTotals.ofDeals period.delivered).total
  return {
    items := items
    totalPay := totalPay
    totalUnits := period.units
    totalGross := totalGross
    commission := commission
    bonus := bonus
    basePay := base.amount
    isDraw := base.isDraw
    warnings := p.warnings }

/-- What a plan pays for these deals. -/
def evaluate (p : Plan) (deals : List Deal) : Except Failure Breakdown := do
  p.payFor (← Period.ofDeals deals)

/-- What is noted down of an evaluation. -/
def evaluationNote (p : Plan) (deals : List Deal) (b : Breakdown) : Journal.Entry :=
  ⟨author, .debug,
    "Evaluated " ++ toString p.rules.length ++ " rule(s) over "
      ++ toString (Deal.delivered deals).length ++ " delivered deal(s): units="
      ++ b.totalUnits.toText ++ " commission=" ++ b.commission.toText ++ " bonus="
      ++ b.bonus.toText ++ " total=" ++ b.totalPay.toText⟩

/-- What a plan pays for these deals, noted down. -/
def run (p : Plan) (deals : List Deal) : Journal.Noted (Except Failure Breakdown) :=
  match p.evaluate deals with
  | .ok b => ⟨.ok b, [p.evaluationNote deals b]⟩
  | .error e => ⟨.error e, []⟩

end Plan

end DealerPay
