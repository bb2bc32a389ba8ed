import DealerPay.Pay.Projection
import DealerPay.Pay.Rollup

/-!
# Requests

What the service is asked for: the bodies of its requests.

* `Assignment` is a list of rules with the deals that they are to be applied to. It is the body of a
  calculation, and of a rollup there is one for each consultant.
* `PreviewRequest`, `ProjectionRequest`, `CheckRequest` and `RollupRequest` are the other bodies.
* Each of them is read by `ofValue` and written down by `toValue`. Fields that are not there have
  defaults, with the exception of the deal of a preview.
-/

namespace DealerPay.Service

/-- The rules among the fields of a request. -/
def readRules (source : Source) (fs : Fields) : Reading (List Rule) :=
  fs.optional "rules" [] (Value.readItems .notList (Rule.ofValue source))

/-- Rules as a value. -/
def rulesToValue (rules : List Rule) : Value := .list (rules.map Rule.toValue)

/-! ## Assignments -/

/-- Rules and the deals that they are to be applied to. -/
structure Assignment where
  /-- The rules. -/
  rules : List Rule
  /-- The deals. -/
  deals : List Deal
deriving DecidableEq, Repr

namespace Assignment

/-- The name of the record in a calculation. -/
def calculationName : String := "CalculateRequest"

/-- The name of the record in a rollup. -/
def consultantName : String := "ConsultantPlan"

/-- An assignment from its fields. -/
def ofFields (source : Source) (fs : Fields) : Reading Assignment :=
  Assignment.mk
    <$> readRules source fs
    <*> fs.optional "transactions" [] (Value.readItems .notList (Deal.ofValue source))

/-- An assignment from a value, in a record of this name. -/
def ofValue (source : Source) (name : String) (v : Value) : Reading Assignment :=
  v.readRecord source name (ofFields source)

/-- An assignment as a value. -/
def toValue (a : Assignment) : Value :=
  .object [("rules", rulesToValue a.rules), ("transactions", .list (a.deals.map Deal.toValue))]

end Assignment

/-! ## Previews -/

/-- Rules and the one deal that they are to be applied to. -/
structure PreviewRequest where
  /-- The rules. -/
  rules : List Rule
  /-- The deal. -/
  deal : Deal
deriving DecidableEq, Repr

namespace PreviewRequest

/-- A request from its fields. -/
def ofFields (source : Source) (fs : Fields) : Reading PreviewRequest :=
  PreviewRequest.mk
    <$> readRules source fs
    <*> fs.required "transaction" (Deal.ofValue source)

/-- A request from a value. -/
def ofValue (source : Source) (v : Value) : Reading PreviewRequest :=
  v.readRecord source "PreviewRequest" (ofFields source)

/-- A request as a value. -/
def toValue (r : PreviewRequest) : Value :=
  .object [("rules", rulesToValue r.rules), ("transaction", r.deal.toValue)]

end PreviewRequest

/-! ## Projections -/

/-- Rules, what is assumed of the deals, and an average commission to compare with. -/
structure ProjectionRequest where
  /-- The rules. -/
  rules : List Rule
  /-- The deals that are assumed. -/
  projection : Projection
  /-- The average commission of a unit. -/
  average : Decimal
deriving DecidableEq, Repr

namespace ProjectionRequest

/-- An amount among the fields of a request. -/
def readAmount (fs : Fields) (key : String) : Reading Decimal :=
  fs.optional key Decimal.zero Value.readAmount

/-- The assumption among the fields of a request. -/
def readProjection (fs : Fields) : Reading Projection :=
  Projection.mk
    <$> readAmount fs "units"
    <*> readAmount fs "front_pvr"
    <*> readAmount fs "back_pvr"
    <*> fs.optional "condition" .new (Value.readWord Condition.words)

/-- A request from its fields. -/
def ofFields (source : Source) (fs : Fields) : Reading ProjectionRequest :=
  ProjectionRequest.mk
    <$> readRules source fs
    <*> readProjection fs
    <*> readAmount fs "avg_commission"

/-- A request from a value. -/
def ofValue (source : Source) (v : Value) : Reading ProjectionRequest :=
  v.readRecord source "ProjectionRequest" (ofFields source)

/-- A request as a value. -/
def toValue (r : ProjectionRequest) : Value :=
  .object
    [("rules", rulesToValue r.rules),
     ("units", .ofDecimal r.projection.units),
     ("front_pvr", .ofDecimal r.projection.front),
     ("back_pvr", .ofDecimal r.projection.back),
     ("condition", .text r.projection.condition.text),
     ("avg_commission", .ofDecimal r.average)]

end ProjectionRequest

/-! ## Checks -/

/-- Rules to be checked. -/
structure CheckRequest where
  /-- The rules. -/
  rules : List Rule
deriving DecidableEq, Repr

namespace CheckRequest

/-- A request from a value. -/
def ofValue (source : Source) (v : Value) : Reading CheckRequest :=
  v.readRecord source "ValidateRequest" fun fs => CheckRequest.mk <$> readRules source fs

/-- A request as a value. -/
def toValue (r : CheckRequest) : Value := .object [("rules", rulesToValue r.rules)]

end CheckRequest

/-! ## Rollups -/

/-- Consultants to be looked at together. -/
structure RollupRequest where
  /-- The consultants, in order. -/
  consultants : List Consultant
deriving DecidableEq, Repr

namespace RollupRequest

/-- The consultants among named values. In the place of a fault a name is patched. -/
def readConsultants (source : Source) : Fields → Reading (List Consultant)
  | [] => .accepted []
  | (name, v) :: rest =>
    (fun a others => ⟨name, a.rules, a.deals⟩ :: others)
      <$> (Assignment.ofValue source Assignment.consultantName v).within (.field (Text.patched name))
      <*> readConsultants source rest

/-- The consultants of an object of named values. -/
def ofObject (source : Source) : Value → Reading (List Consultant)
  | .object fields => readConsultants source fields
  | v => .refuse .notObject v

/-- A request from a value. -/
def ofValue (source : Source) (v : Value) : Reading RollupRequest :=
  v.readRecord source "RollupRequest" fun fs =>
    RollupRequest.mk <$> fs.optional "consultants" [] (ofObject source)

/-- A request as a value. -/
def toValue (r : RollupRequest) : Value :=
  .object [("consultants",
    .object (r.consultants.map fun c => (c.name, (Assignment.mk c.rules c.deals).toValue)))]

end RollupRequest

end DealerPay.Service
