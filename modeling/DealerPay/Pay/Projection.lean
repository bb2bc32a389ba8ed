import DealerPay.Pay.Evaluation

/-!
# Projections

What a plan would pay for a number of units, all of them alike.

* `Projection` is the assumption, `Projection.deals` the deals that it stands for: one for each whole
  unit, and a shared deal with half the gross for any fraction that is left.
* `Plan.project` evaluates a plan for them. Without rules or units nothing is paid and nothing else
  is looked at.
* `Plan.projectFor` does so with figures as they are handed over.
* `simpleEstimate` is units times an average commission, without any plan.
-/

namespace DealerPay

/-- Deals that are assumed to be made. -/
structure Projection where
  /-- How many units. -/
  units : Decimal
  /-- The front gross of each. -/
  front : Decimal
  /-- The back gross of each. -/
  back : Decimal
  /-- Whether the vehicles are new or used. -/
  condition : Condition
deriving DecidableEq, Repr

namespace Projection

/-- One whole deal. -/
def wholeDeal (x : Projection) : Deal :=
  { Deal.plain with condition := x.condition, frontGross := x.front, backGross := x.back }

/-- One shared deal: half a unit with half the gross. -/
def sharedDeal (x : Projection) : Except Signal Deal :=
  return { x.wholeDeal with
    count := Decimal.half
    frontGross := ← x.front.mul Decimal.half
    backGross := ← x.back.mul Decimal.half }

/-- The deals that a projection stands for. -/
def deals (x : Projection) : Except Signal (List Deal) := do
  let count := x.units.whole
  let whole := List.replicate count.toNat x.wholeDeal
  if x.units.same (Decimal.ofInt count) then return whole
  return whole ++ [← x.sharedDeal]

end Projection

namespace Plan

/-- Whether there is nothing to project: no rules, or no units. -/
def isIdle (p : Plan) (units : Decimal) : Bool := p.rules.isEmpty || !units.isPositive

/-- What a plan would pay, noted down. -/
def runProjection (p : Plan) (x : Projection) : Journal.Noted (Except Failure Breakdown) :=
  if p.isIdle x.units then pure (.ok .empty)
  else
    match x.deals with
    | .ok deals => p.run deals
    | .error s => pure (.error (.signal s))

/-- What a plan would pay. -/
def project (p : Plan) (x : Projection) : Except Failure Breakdown := (p.runProjection x).result

end Plan

/-! ## Projections as they are handed over -/

/-- Why a projection has no result. -/
inductive ProjectionError where
  /-- A figure is not an amount, or arithmetic has no result. -/
  | failure (f : Failure)
  /-- The deals cannot be made up from what is given. -/
  | refused (first : Fault) (rest : List Fault)
deriving Repr

namespace Projection

/-- The front and back gross of a projection, once its units are known. -/
def readGross (front back : Value) : Except Failure (Decimal × Decimal) :=
  return (← Amount.ofValue front, ← Amount.ofValue back)

/-- The condition of the projected deals. -/
def readCondition (v : Value) : Reading Condition :=
  (v.readWord Condition.words).within (.field "condition")

end Projection

/-- What a plan would pay for figures as they are handed over, noted down. The gross and the
condition are looked at only where there is something to project. -/
def Plan.projectFor (p : Plan) (units front back condition : Value) :
    Journal.Noted (Except ProjectionError Breakdown) :=
  match Amount.ofValue units with
  | .error e => pure (.error (.failure e))
  | .ok count =>
    if p.isIdle count then pure (.ok .empty)
    else
      match Projection.readGross front back with
      | .error e => pure (.error (.failure e))
      | .ok gross =>
        match Projection.readCondition condition with
        | .refused first rest => pure (.error (.refused first rest))
        | .halted s => pure (.error (.failure (.signal s)))
        | .accepted c => do
          return (← p.runProjection ⟨count, gross.1, gross.2, c⟩).mapError .failure

/-- Units times an average commission, in cents. -/
def simpleEstimate (units average : Value) : Except Failure Decimal := do
  let count ← Amount.ofValue units
  (← count.mul (← Amount.ofValue average)).toCents

end DealerPay
