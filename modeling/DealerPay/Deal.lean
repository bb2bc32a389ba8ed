import DealerPay.Calendar

/-!
# Deals

A deal is one sold vehicle, or half of one where two consultants share it.

* `Deal` is the record; `Condition` and `DealStatus` are its two classifications.
* `Deal.ofValue` reads one, `Deal.toValue` writes it down.
* `Deal.isDelivered` says whether it counts for pay.
-/

namespace DealerPay

/-- Whether a vehicle is new or used. -/
inductive Condition where
  /-- A new vehicle. -/
  | new
  /-- A used vehicle. -/
  | used
deriving DecidableEq, Repr

/-- The word for a condition. -/
def Condition.text : Condition → String
  | new => "New"
  | used => "Used"

/-- The conditions with their words. -/
def Condition.words : List (String × Condition) :=
  [("New", new), ("Used", used)]

/-- Whether a vehicle has been handed over. -/
inductive DealStatus where
  /-- Handed over. -/
  | delivered
  /-- Sold, but not handed over. -/
  | pending
deriving DecidableEq, Repr

/-- The word for a status. -/
def DealStatus.text : DealStatus → String
  | delivered => "delivered"
  | pending => "pending"

/-- The statuses with their words. -/
def DealStatus.words : List (String × DealStatus) :=
  [("delivered", delivered), ("pending", pending)]

/-- A sold vehicle, or a share of one. -/
structure Deal where
  /-- The day of the sale. -/
  soldOn : Option Date
  /-- New or used. -/
  condition : Condition
  /-- One, or one half for a shared deal. -/
  count : Decimal
  /-- The gross profit on the vehicle. -/
  frontGross : Decimal
  /-- The gross profit on financing and insurance. -/
  backGross : Decimal
  /-- Accessories sold with it. -/
  accessory : Decimal
  /-- Bonuses of the manufacturer. -/
  spiffs : Decimal
  /-- Bonuses for the vehicle taken in. -/
  tradeSpiff : Decimal
  /-- Handed over or not. -/
  status : DealStatus
  /-- The number of the vehicle in the books. -/
  stockNumber : String
  /-- The name of the buyer. -/
  customer : String
deriving DecidableEq, Repr

namespace Deal

/-- Whether the deal counts for pay. -/
def isDelivered (d : Deal) : Bool := d.status == .delivered

/-- A deal with nothing stated: one new vehicle, delivered, without any gross. -/
def plain : Deal where
  soldOn := none
  condition := .new
  count := Decimal.one
  frontGross := Decimal.zero
  backGross := Decimal.zero
  accessory := Decimal.zero
  spiffs := Decimal.zero
  tradeSpiff := Decimal.zero
  status := .delivered
  stockNumber := ""
  customer := ""

/-- Whether a count is one or one half, however it is written. -/
def isShare (count : Decimal) : Bool := count.same Decimal.half || count.same Decimal.one

/-- A count. -/
def readCount (v : Value) : Reading Decimal :=
  v.readAmount.check isShare (.breach "count must be 1 or 0.5 (split deal)") v

/-- A date that may be absent. -/
def readSoldOn : Value → Reading (Option Date)
  | .null => .accepted none
  | v => (Date.ofValue v).map some

/-- A deal from its fields. -/
def ofFields (fs : Fields) : Reading Deal :=
  Deal.mk
    <$> fs.optional "sold_date" none readSoldOn
    <*> fs.optional "condition" .new (Value.readWord Condition.words)
    <*> fs.optional "count" Decimal.one readCount
    <*> fs.optional "front_gross" Decimal.zero Value.readAmount
    <*> fs.optional "back_gross" Decimal.zero Value.readAmount
    <*> fs.optional "accessory" Decimal.zero Value.readAmount
    <*> fs.optional "spiffs" Decimal.zero Value.readAmount
    <*> fs.optional "trade_spiff" Decimal.zero Value.readAmount
    <*> fs.optional "status" .delivered (Value.readWord DealStatus.words)
    <*> fs.optional "stock_number" "" Value.readText
    <*> fs.optional "customer" "" Value.readText

/-- A deal from a value. -/
def ofValue (source : Source) (v : Value) : Reading Deal :=
  v.readRecord source "Transaction" ofFields

/-- The fields of a deal. -/
def toFields (d : Deal) : Fields :=
  [("sold_date", match d.soldOn with | some day => .text day.toText | none => .null),
   ("condition", .text d.condition.text),
   ("count", .ofDecimal d.count),
   ("front_gross", .ofDecimal d.frontGross),
   ("back_gross", .ofDecimal d.backGross),
   ("accessory", .ofDecimal d.accessory),
   ("spiffs", .ofDecimal d.spiffs),
   ("trade_spiff", .ofDecimal d.tradeSpiff),
   ("status", .text d.status.text),
   ("stock_number", .text d.stockNumber),
   ("customer", .text d.customer)]

/-- A deal as a value. -/
def toValue (d : Deal) : Value := .object d.toFields

end Deal

end DealerPay
