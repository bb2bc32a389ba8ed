import DealerPay.Reading

/-!
# Breakdowns of pay

The outcome of a pay plan: what is paid, line by line, and what the lines add up to.

* `LineItem` is one line, `Category` says what sort of pay it is.
* `Breakdown` is the whole; `Breakdown.empty` is the one in which nothing is paid.
* `Breakdown.ofValue` and `Breakdown.toValue` read one and write it down, and so do
  `LineItem.ofValue` and `LineItem.toValue` for a line.

A breakdown that is read may hold any finite numbers, also ones that no plan pays.
-/

namespace DealerPay

/-- What sort of pay a line is. -/
inductive Category where
  /-- A salary. -/
  | base
  /-- A draw. -/
  | draw
  /-- Commission. -/
  | commission
  /-- A bonus. -/
  | bonus
  /-- What is added to reach a guaranteed commission. -/
  | guarantee
  /-- The commission that a draw is set against. -/
  | drawOffset
deriving DecidableEq, Repr

/-- The word for a category. -/
def Category.text : Category → String
  | base => "base"
  | draw => "draw"
  | commission => "commission"
  | bonus => "bonus"
  | guarantee => "guarantee"
  | drawOffset => "draw_offset"

/-- The categories with their words. -/
def Category.words : List (String × Category) :=
  [base, draw, commission, bonus, guarantee, drawOffset].map fun c => (c.text, c)

/-- One line of a breakdown. -/
structure LineItem where
  /-- What it is for. -/
  description : String
  /-- What is paid. -/
  amount : Decimal
  /-- What sort of pay it is. -/
  category : Category
deriving DecidableEq, Repr

namespace LineItem

/-- A line from its fields. -/
def ofFields (fs : Fields) : Reading LineItem :=
  LineItem.mk
    <$> fs.required "description" Value.readText
    <*> fs.required "amount" Value.readDecimal
    <*> fs.optional "category" .commission (Value.readWord Category.words)

/-- A line from a value. -/
def ofValue (source : Source) (v : Value) : Reading LineItem :=
  v.readRecord source "LineItem" ofFields

/-- A line as a value. -/
def toValue (i : LineItem) : Value :=
  .object
    [("description", .text i.description),
     ("amount", .ofDecimal i.amount),
     ("category", .text i.category.text)]

end LineItem

/-- What a plan pays for a period. -/
structure Breakdown where
  /-- The lines, in order. -/
  items : List LineItem
  /-- What is paid in all. -/
  totalPay : Decimal
  /-- The units that were delivered. -/
  totalUnits : Decimal
  /-- The gross of the delivered deals. -/
  totalGross : Decimal
  /-- Commission, with what was added to reach a guarantee. -/
  commission : Decimal
  /-- All bonuses. -/
  bonus : Decimal
  /-- The salary or the draw. -/
  basePay : Decimal
  /-- Whether it is a draw. -/
  isDraw : Bool
  /-- Notes on the plan. -/
  warnings : List String
deriving DecidableEq, Repr

namespace Breakdown

/-- A breakdown in which nothing is paid. -/
def empty : Breakdown where
  items := []
  totalPay := Decimal.zero
  totalUnits := Decimal.zero
  totalGross := Decimal.zero
  commission := Decimal.zero
  bonus := Decimal.zero
  basePay := Decimal.zero
  isDraw := false
  warnings := []

/-- A number among the fields of a breakdown, zero where it is not there. -/
def readTotal (fs : Fields) (key : String) : Reading Decimal :=
  fs.optional key Decimal.zero Value.readDecimal

/-- A breakdown from its fields. -/
def ofFields (source : Source) (fs : Fields) : Reading Breakdown :=
  Breakdown.mk
    <$> fs.optional "line_items" [] (Value.readItems .notSequence (LineItem.ofValue source))
    <*> readTotal fs "total_pay"
    <*> readTotal fs "total_units"
    <*> readTotal fs "total_gross"
    <*> readTotal fs "commission_subtotal"
    <*> readTotal fs "bonus_total"
    <*> readTotal fs "base_pay"
    <*> fs.optional "is_draw" false Value.readBool
    <*> fs.optional "warnings" [] (Value.readItems .notSequence Value.readText)

/-- A breakdown from a value. -/
def ofValue (source : Source) (v : Value) : Reading Breakdown :=
  v.readRecord source "PayBreakdown" (ofFields source)

/-- A breakdown as a value. -/
def toValue (b : Breakdown) : Value :=
  .object
    [("line_items", .list (b.items.map LineItem.toValue)),
     ("total_pay", .ofDecimal b.totalPay),
     ("total_units", .ofDecimal b.totalUnits),
     ("total_gross", .ofDecimal b.totalGross),
     ("commission_subtotal", .ofDecimal b.commission),
     ("bonus_total", .ofDecimal b.bonus),
     ("base_pay", .ofDecimal b.basePay),
     ("is_draw", .bool b.isDraw),
     ("warnings", .list (b.warnings.map .text))]

end Breakdown

end DealerPay
