import DealerPay.Breakdown

/-!
# Milestones

A text for each bonus that a breakdown pays, to be shown to the consultant.
-/

namespace DealerPay

namespace LineItem

/-- Whether a line is a bonus that pays something. -/
def isEarnedBonus (i : LineItem) : Bool := i.category == .bonus && i.amount.isPositive

/-- The text for a bonus: what it is for and how many whole dollars it pays. -/
def milestone (i : LineItem) : Except Signal String :=
  return i.description ++ " unlocked: " ++ (← Amount.dollars (.ofDecimal i.amount))

end LineItem

/-- The texts for the bonuses of a breakdown, in order. -/
def Breakdown.milestones (b : Breakdown) : Except Signal (List String) :=
  (b.items.filter LineItem.isEarnedBonus).mapM LineItem.milestone

end DealerPay
