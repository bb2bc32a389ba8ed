import DealerPay.Rule.Basic
import DealerPay.Decimal.Arithmetic

/-!
# Periods

What the deals of a pay period add up to.

* `Deal.seen` keeps the deals that a scope admits, `Deal.unitCount` counts units.
* `GrossTotals` and `AddOnTotals` are the sums of the gross and of what is sold on top of it.
* `Period` is the delivered deals of a period with the units of each scope.
* `Scope.asked?` and `GrossBasis.asked` are the scope and the basis that a word asks for.

Sums are added up deal by deal at working precision, so each of them may report a signal.
-/

namespace DealerPay

/-! ## Scopes and bases by their words -/

/-- The scope that a value asks for: an absent one asks for all deals. -/
def Scope.asked? : Value → Option Scope
  | .null => some .all
  | v => (Scope.words.find? fun w => v.isText w.1).map (·.2)

/-- The basis that a value asks for; any word that is not known asks for the total. -/
def GrossBasis.asked (v : Value) : GrossBasis :=
  match GrossBasis.words.find? fun w => v.isText w.1 with
  | some w => w.2
  | none => .total

/-! ## Sums over deals -/

namespace Deal

/-- The deals that are handed over. -/
def delivered (deals : List Deal) : List Deal := deals.filter isDelivered

/-- The deals within a scope. -/
def seen (s : Scope) (deals : List Deal) : List Deal := deals.filter fun d => s.admits d.condition

/-- The deals within the scope that a value asks for; there are none in an unknown one. -/
def seenAsked (v : Value) (deals : List Deal) : List Deal :=
  match Scope.asked? v with
  | some s => seen s deals
  | none => []

/-- The sum of one figure of the deals. -/
def total (figure : Deal → Decimal) (deals : List Deal) : Except Signal Decimal :=
  Decimal.sum (deals.map figure)

/-- The units of the deals, a shared deal counting one half. -/
def unitCount (deals : List Deal) : Except Signal Decimal := total count deals

/-- Every deal is within the scope of all deals. -/
@[simp] theorem seen_all (deals : List Deal) : seen .all deals = deals :=
  List.filter_eq_self.2 fun _ _ => rfl

/-- A deal is seen by a scope exactly when it is there and its condition is admitted. -/
theorem mem_seen {s : Scope} {deals : List Deal} {d : Deal} :
    d ∈ seen s deals ↔ d ∈ deals ∧ s.admits d.condition = true :=
  List.mem_filter

end Deal

/-- The gross of several deals. -/
structure GrossTotals where
  /-- The gross on vehicles. -/
  front : Decimal
  /-- The gross on financing and insurance. -/
  back : Decimal
deriving DecidableEq, Repr

namespace GrossTotals

/-- The gross of these deals. -/
def ofDeals (deals : List Deal) : Except Signal GrossTotals := do
  return ⟨← Deal.total Deal.frontGross deals, ← Deal.total Deal.backGross deals⟩

/-- Both kinds of gross together. -/
def total (g : GrossTotals) : Except Signal Decimal := g.front.add g.back

/-- The gross that a percentage is taken of. -/
def basis (g : GrossTotals) : GrossBasis → Except Signal Decimal
  | .front => .ok g.front
  | .back => .ok g.back
  | .total => g.total

end GrossTotals

/-- What is sold on top of several deals. -/
structure AddOnTotals where
  /-- Accessories. -/
  accessory : Decimal
  /-- Bonuses of the manufacturer. -/
  spiff : Decimal
  /-- Bonuses for vehicles taken in. -/
  tradeSpiff : Decimal
deriving DecidableEq, Repr

namespace AddOnTotals

/-- What is sold on top of these deals. -/
def ofDeals (deals : List Deal) : Except Signal AddOnTotals := do
  return ⟨← Deal.total Deal.accessory deals, ← Deal.total Deal.spiffs deals,
    ← Deal.total Deal.tradeSpiff deals⟩

/-- What is sold on top of one deal. -/
def ofDeal (d : Deal) : AddOnTotals := ⟨d.accessory, d.spiffs, d.tradeSpiff⟩

end AddOnTotals

/-! ## Periods -/

/-- The delivered deals of a period, with their units. -/
structure Period where
  /-- The deals that count. -/
  delivered : List Deal
  /-- The units of all of them. -/
  units : Decimal
  /-- The units of the new vehicles. -/
  newUnits : Decimal
  /-- The units of the used vehicles. -/
  usedUnits : Decimal
deriving DecidableEq, Repr

namespace Period

/-- The period in which these deals were made. -/
def ofDeals (deals : List Deal) : Except Signal Period := do
  let sold := Deal.delivered deals
  return ⟨sold, ← Deal.unitCount sold, ← Deal.unitCount (Deal.seen (.only .new) sold),
    ← Deal.unitCount (Deal.seen (.only .used) sold)⟩

/-- The delivered deals within a scope. -/
def dealsOf (p : Period) (s : Scope) : List Deal := Deal.seen s p.delivered

/-- The units within a scope. -/
def unitsOf (p : Period) : Scope → Decimal
  | .all => p.units
  | .only .new => p.newUnits
  | .only .used => p.usedUnits

/-- The scope that a value asks for in a period; any word that is not known asks for all deals. -/
def scopeAsked (v : Value) : Scope := (Scope.asked? v).getD .all

end Period

end DealerPay
