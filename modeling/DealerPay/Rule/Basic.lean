import DealerPay.Deal

/-!
# Rules of a pay plan

A pay plan is a list of rules, each of one of eight kinds.

* `Rule` is a rule: a label, which is for people only, and the `Terms` that pay follows.
* `Terms` has one constructor for each kind; `RuleKind` names the kinds.
* `Tier` is a bracket of units with a rate, `Threshold` a number of units with a bonus.
* `Scope` and `GrossBasis` say which deals and which gross a rule looks at.
-/

namespace DealerPay

/-- Which deals a rule looks at. -/
inductive Scope where
  /-- All of them. -/
  | all
  /-- Those of one condition. -/
  | only (c : Condition)
deriving DecidableEq, Repr

/-- The word for a scope. -/
def Scope.text : Scope → String
  | all => "All"
  | only c => c.text

/-- The scopes with their words. -/
def Scope.words : List (String × Scope) :=
  [("All", all), ("New", only .new), ("Used", only .used)]

/-- Whether a deal of this condition is within the scope. -/
def Scope.admits (s : Scope) (c : Condition) : Bool :=
  match s with
  | all => true
  | only wanted => c == wanted

/-- Which gross a percentage is taken of. -/
inductive GrossBasis where
  /-- The gross on vehicles. -/
  | front
  /-- The gross on financing and insurance. -/
  | back
  /-- Both together. -/
  | total
deriving DecidableEq, Repr

/-- The word for a basis. -/
def GrossBasis.text : GrossBasis → String
  | front => "Front"
  | back => "Back"
  | total => "Total"

/-- The bases with their words. -/
def GrossBasis.words : List (String × GrossBasis) :=
  [("Front", front), ("Back", back), ("Total", total)]

/-- A bracket of units and what is paid in it. -/
structure Tier where
  /-- The units from which the tier applies. -/
  lower : Decimal
  /-- The units up to which it applies, as stated. -/
  stated : Option Decimal
  /-- An amount for each unit, or a percentage of gross. -/
  rate : Decimal
deriving DecidableEq, Repr

/-- The upper bound of a tier: none where it is not stated or stated as zero. -/
def Tier.upper (t : Tier) : Option Decimal := t.stated.filter fun d => !d.isZero

/-- A number of units and the bonus for reaching it. -/
structure Threshold where
  /-- The units to reach. -/
  lower : Decimal
  /-- The bonus. -/
  amount : Decimal
deriving DecidableEq, Repr

/-- The kinds of rules. -/
inductive RuleKind where
  /-- A salary, or a draw against commission. -/
  | base
  /-- An amount for each unit. -/
  | flatRate
  /-- An amount for each unit, by tiers of units. -/
  | unitTiers
  /-- Percentages of front and back gross. -/
  | grossShare
  /-- A percentage of gross, by tiers of units. -/
  | grossTiers
  /-- Bonuses for numbers of units. -/
  | volumeBonus
  /-- Percentages of accessories and bonuses. -/
  | addOn
  /-- A guaranteed commission for each unit. -/
  | guarantee
deriving DecidableEq, Repr

namespace RuleKind

/-- The word for a kind. -/
def text : RuleKind → String
  | base => "base_salary"
  | flatRate => "flat_rate"
  | unitTiers => "tiered_unit"
  | grossShare => "percent_of_gross"
  | grossTiers => "tiered_gross"
  | volumeBonus => "volume_bonus"
  | addOn => "addon"
  | guarantee => "minimum_commission"

/-- All kinds, in the order in which they are listed to people. -/
def all : List RuleKind :=
  [base, flatRate, unitTiers, grossShare, grossTiers, volumeBonus, addOn, guarantee]

/-- The words of all kinds. -/
def words : List String := all.map text

/-- The kind that a value names. -/
def named? (v : Value) : Option RuleKind := all.find? fun k => v.isText k.text

/-- The name of the record that holds a rule of the kind. -/
def recordName : RuleKind → String
  | base => "BaseSalaryOrDraw"
  | flatRate => "FlatRatePerUnit"
  | unitTiers => "TieredUnitCommission"
  | grossShare => "PercentOfGross"
  | grossTiers => "TieredPercentOfGross"
  | volumeBonus => "UnitVolumeBonus"
  | addOn => "AddOnCommission"
  | guarantee => "MinimumCommissionPerUnit"

end RuleKind

/-- What a rule pays. -/
inductive Terms where
  /-- A salary, or a draw: an advance that commission is counted against. -/
  | base (amount : Decimal) (isDraw : Bool)
  /-- An amount for each unit. -/
  | flatRate (scope : Scope) (perUnit : Decimal)
  /-- An amount for each unit: the rate of the tier that is reached for all units, or for the
  units within each tier its own. -/
  | unitTiers (scope : Scope) (tiers : List Tier) (retroactive : Bool)
  /-- Percentages of front and back gross of each deal, with a most that is paid for one. -/
  | grossShare (front back : Decimal) (frontCap backCap : Option Decimal)
  /-- The percentage of the tier that is reached, of the gross of the scope. -/
  | grossTiers (scope : Scope) (tiers : List Tier) (retroactive : Bool) (basis : GrossBasis)
  /-- A bonus for each threshold that is reached. -/
  | volumeBonus (scope : Scope) (thresholds : List Threshold)
  /-- Percentages of accessories, of bonuses of the manufacturer and of bonuses for trades. -/
  | addOn (scope : Scope) (accessory spiff tradeSpiff : Decimal)
  /-- A least commission for each unit. -/
  | guarantee (perUnit : Decimal)
deriving DecidableEq, Repr

namespace Terms

/-- The kind of a rule with these terms. -/
def kind : Terms → RuleKind
  | base .. => .base
  | flatRate .. => .flatRate
  | unitTiers .. => .unitTiers
  | grossShare .. => .grossShare
  | grossTiers .. => .grossTiers
  | volumeBonus .. => .volumeBonus
  | addOn .. => .addOn
  | guarantee .. => .guarantee

/-- The scope, which is all deals for the kinds that state none. -/
def scope : Terms → Scope
  | flatRate s _ => s
  | unitTiers s _ _ => s
  | grossTiers s _ _ _ => s
  | volumeBonus s _ => s
  | addOn s _ _ _ => s
  | _ => .all

end Terms

/-- A rule of a pay plan. -/
structure Rule where
  /-- A name for people. -/
  label : String
  /-- What it pays. -/
  terms : Terms
deriving DecidableEq, Repr

/-- The kind of a rule. -/
def Rule.kind (r : Rule) : RuleKind := r.terms.kind

end DealerPay
