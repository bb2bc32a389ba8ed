import DealerPay.Rule.Record

/-!
# Flaws of rules

What can be wrong with a rule although every one of its fields can be read.

* `Flaw` is one thing that is wrong, `Flaw.message` says it.
* `Terms.flaws` lists what is wrong with the terms of a rule: amounts and rates below zero, and tiers
  that end before they start. Caps may be anything.
* `PlanError` is the refusal of a plan: the cause, the position of the rule where one is to blame,
  and whose plan it is where several are looked at together.
-/

namespace DealerPay

/-- A figure of a rule, as messages name it. -/
inductive Figure where
  /-- A field of the rule itself. -/
  | field (name : String)
  /-- A field of one of its tiers. -/
  | tier (index : Nat) (name : String)
  /-- The lower bound of one of its tiers. -/
  | tierLower (index : Nat)
  /-- A field of one of its thresholds. -/
  | threshold (index : Nat) (name : String)
  /-- The units of one of its thresholds. -/
  | thresholdLower (index : Nat)
deriving DecidableEq, Repr

/-- The name of a figure. -/
def Figure.text : Figure → String
  | field name => name
  | tier index name => "tier " ++ toString index ++ " " ++ name
  | tierLower index => "tier " ++ toString index ++ " 'from'"
  | threshold index name => "threshold " ++ toString index ++ " " ++ name
  | thresholdLower index => "threshold " ++ toString index ++ " 'from'"

/-- One thing that is wrong with a rule. -/
inductive Flaw where
  /-- A figure is below zero. -/
  | negative (figure : Figure) (value : Decimal)
  /-- A tier ends below its start. -/
  | inverted (index : Nat) (upper lower : Decimal)
deriving DecidableEq, Repr

/-- What is said of a flaw. -/
def Flaw.message : Flaw → String
  | negative figure value => figure.text ++ " cannot be negative, got: " ++ value.toText
  | inverted index upper lower =>
    "tier " ++ toString index ++ " 'to' (" ++ upper.toText ++ ") is below 'from' ("
      ++ lower.toText ++ ")"

/-- The flaw of a figure below zero. -/
def Flaw.ofNegative (figure : Figure) (value : Decimal) : List Flaw :=
  if value.isNegative then [.negative figure value] else []

/-- The flaw of a tier that ends below its start. -/
def Tier.inversion (index : Nat) (t : Tier) : List Flaw :=
  match t.upper with
  | some upper => if upper < t.lower then [.inverted index upper t.lower] else []
  | none => []

/-- What is wrong with the bounds of a tier. -/
def Tier.boundFlaws (t : Tier) (index : Nat) : List Flaw :=
  Flaw.ofNegative (.tierLower index) t.lower ++ t.inversion index

/-- What is wrong with tiers: first the bounds of all of them, then the rates. -/
def Tier.flaws (kind : TierKind) (tiers : List Tier) : List Flaw :=
  tiers.zipIdx.flatMap (fun (t, i) => t.boundFlaws i) ++
    tiers.zipIdx.flatMap (fun (t, i) => Flaw.ofNegative (.tier i kind.rateKey) t.rate)

/-- What is wrong with a threshold. -/
def Threshold.flaws (t : Threshold) (index : Nat) : List Flaw :=
  Flaw.ofNegative (.thresholdLower index) t.lower ++
    Flaw.ofNegative (.threshold index "amount") t.amount

/-- What is wrong with the terms of a rule, in the order in which it is looked for. -/
def Terms.flaws : Terms → List Flaw
  | base amount _ => Flaw.ofNegative (.field "amount") amount
  | flatRate _ perUnit => Flaw.ofNegative (.field "amount_per_unit") perUnit
  | unitTiers _ tiers _ => Tier.flaws .unit tiers
  | grossShare front back _ _ =>
    Flaw.ofNegative (.field "front_percent") front ++
      Flaw.ofNegative (.field "back_percent") back
  | grossTiers _ tiers _ _ => Tier.flaws .gross tiers
  | volumeBonus _ thresholds => thresholds.zipIdx.flatMap fun (t, i) => t.flaws i
  | addOn _ accessory spiff tradeSpiff =>
    Flaw.ofNegative (.field "accessory_percent") accessory ++
      Flaw.ofNegative (.field "spiff_percent") spiff ++
      Flaw.ofNegative (.field "trade_spiff_percent") tradeSpiff
  | guarantee perUnit => Flaw.ofNegative (.field "amount_per_unit") perUnit

/-! ## Refusals -/

/-- Why a plan is refused. -/
inductive PlanFault where
  /-- A part of it cannot be read. -/
  | unreadable (path : List Step) (refusal : Refusal)
  /-- A rule is flawed. -/
  | flawed (flaw : Flaw)
  /-- Something is not a rule at all, but of this sort. -/
  | notRule (sort : String)
  /-- There is no such kind of rule. -/
  | unknownKind (word : String)
  /-- More than one salary or draw, where only one is allowed. -/
  | severalBases (positions : List Nat)
deriving Repr

/-- A path with points between its steps. -/
def dottedPath (path : List Step) : String := ".".intercalate (path.map Step.text)

/-- Numbers between brackets. -/
def bracketed (ns : List Nat) : String :=
  "[" ++ ", ".intercalate (ns.map toString) ++ "]"

/-- What is said of the cause of a refusal. -/
def PlanFault.message : PlanFault → String
  | unreadable path refusal =>
    let place := dottedPath path
    if place = "" then refusal.message else place ++ ": " ++ refusal.message
  | flawed flaw => flaw.message
  | notRule sort => "unknown rule type " ++ sort
  | unknownKind word =>
    "unknown rule kind '" ++ word ++ "' (expected one of "
      ++ ", ".intercalate RuleKind.words ++ ")"
  | severalBases positions =>
    "only one base salary/draw rule is allowed, found " ++ toString positions.length
      ++ " (rules " ++ bracketed positions ++ ")"

/-- The refusal of a plan. -/
structure PlanError where
  /-- The cause. -/
  fault : PlanFault
  /-- The position of the rule to blame, none where the plan as a whole is refused. -/
  position : Option Int
  /-- Whose plan it is, where several are looked at together. -/
  consultant : Option String
deriving Repr

namespace PlanError

/-- A refusal that names no consultant. -/
def ofFault (fault : PlanFault) (position : Option Int) : PlanError := ⟨fault, position, none⟩

/-- The refusal of this consultant's plan. -/
def ofConsultant (e : PlanError) (name : String) : PlanError := { e with consultant := some name }

/-- The cause without the place. -/
def detail (e : PlanError) : String := e.fault.message

/-- The whole message: whose plan, which rule, and the cause. -/
def message (e : PlanError) : String :=
  (match e.consultant with | some name => name ++ ": " | none => "")
    ++ (match e.position with | some i => "rule " ++ toString i ++ ": " | none => "")
    ++ e.detail

end PlanError

end DealerPay
