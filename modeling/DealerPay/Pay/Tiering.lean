import DealerPay.Period

/-!
# Tiers of units

How a number of units meets a list of tiers. The order in which tiers are listed matters only among
tiers that start at the same number of units.

* `sortByBound` orders by a lower bound and keeps the order of equal bounds; `Tier.sorted` and
  `Threshold.sorted` are its two uses.
* `Tier.reached?` is the last tier whose lower bound the units reach. Upper bounds play no part.
* `Tier.slices` divides the units among the tiers: each tier takes what lies between the units taken
  before it and its upper bound, so nothing is taken twice.
-/

namespace DealerPay

/-! ## Order by a lower bound -/

section Sorting

variable {α : Type} (bound : α → Decimal)

/-- A list with an item put in front of the first one whose bound is not below its own. -/
def insertByBound (x : α) : List α → List α
  | [] => [x]
  | y :: rest => if bound x ≤ bound y then x :: y :: rest else y :: insertByBound x rest

/-- A list by the bounds of its items; items with one bound keep their order. -/
def sortByBound : List α → List α
  | [] => []
  | x :: rest => insertByBound bound x (sortByBound rest)

/-- An inserted item is there, and so is all the rest. -/
theorem insertByBound_perm (x : α) (xs : List α) : (insertByBound bound x xs).Perm (x :: xs) := by
  induction xs with
  | nil => exact List.Perm.refl _
  | cons y rest ih =>
    unfold insertByBound
    split
    · exact List.Perm.refl _
    · exact (ih.cons y).trans (List.Perm.swap x y rest)

/-- Sorting keeps the items. -/
theorem sortByBound_perm (xs : List α) : (sortByBound bound xs).Perm xs := by
  induction xs with
  | nil => exact List.Perm.refl _
  | cons x rest ih => exact (insertByBound_perm bound x _).trans (ih.cons x)

end Sorting

/-! ## Tiers -/

namespace Tier

/-- The tiers by their lower bound. -/
def sorted (tiers : List Tier) : List Tier := sortByBound Tier.lower tiers

/-- The tier that the units reach. -/
def reached? (units : Decimal) (tiers : List Tier) : Option Tier :=
  ((sorted tiers).filter fun t => t.lower ≤ units).getLast?

/-- Units that are paid by one tier. -/
structure Slice where
  /-- The tier. -/
  tier : Tier
  /-- The units. -/
  units : Decimal
deriving DecidableEq, Repr

/-- The units up to which a tier takes them. -/
def ceiling (t : Tier) (units : Decimal) : Decimal :=
  match t.upper with
  | some upper => units.least upper
  | none => units

/-- The slices of the units beyond those that are accounted for, tier by tier. -/
def slicesFrom (units accounted : Decimal) : List Tier → Except Signal (List Slice)
  | [] => .ok []
  | t :: rest =>
    if units ≤ accounted ∨ units < t.lower then slicesFrom units accounted rest
    else do
      let taken ← (t.ceiling units).sub accounted
      if taken.isPositive then
        return ⟨t, taken⟩ :: (← slicesFrom units (← accounted.add taken) rest)
      else slicesFrom units accounted rest

/-- The slices of the units. -/
def slices (units : Decimal) (tiers : List Tier) : Except Signal (List Slice) :=
  slicesFrom units .zero (sorted tiers)

end Tier

/-! ## Thresholds -/

namespace Threshold

/-- The thresholds by the units to reach. -/
def sorted (thresholds : List Threshold) : List Threshold :=
  sortByBound Threshold.lower thresholds

/-- The thresholds that the units reach, by the units to reach. -/
def reached (units : Decimal) (thresholds : List Threshold) : List Threshold :=
  (sorted thresholds).filter fun t => t.lower ≤ units

end Threshold

end DealerPay
