/-!
# Decimal numbers

A finite decimal number together with the way it is written: its sign, its digits and the exponent
of its last digit. `1`, `1.0` and `100E-2` have one value and three spellings, and both matter: sums
and comparisons look at the value, texts at the spelling.

* `Decimal` is the number, `Decimal.ofNat` and `Decimal.ofInt` its integers.
* `digitCount` counts the digits of a natural number; `Decimal.adjusted` is the exponent of a
  number's first digit.
* `Decimal.compare` orders numbers by value. It compares leading digits before it aligns anything,
  so numbers of very different size cost nothing.
-/

namespace DealerPay

/-- A finite decimal number, `coefficient · 10 ^ exponent` with a sign that zero keeps too. -/
structure Decimal where
  /-- Whether the number carries a minus sign. -/
  negative : Bool
  /-- The digits, read as a natural number. -/
  coefficient : Nat
  /-- The power of ten that the last digit counts. -/
  exponent : Int
deriving DecidableEq, Repr, Inhabited

/-- The power of ten with this exponent. -/
def tenTo (k : Nat) : Nat := Nat.pow 10 k

/-- The power with exponent zero. -/
@[simp] theorem tenTo_zero : tenTo 0 = 1 := rfl

/-- One more in the exponent multiplies by ten. -/
theorem tenTo_succ (k : Nat) : tenTo (k + 1) = tenTo k * 10 := rfl

/-- How many decimal digits a natural number has; zero has one. -/
def digitCount (n : Nat) : Nat :=
  if n < 10 then 1 else digitCount (n / 10) + 1
termination_by n

/-- A number has at least one digit. -/
theorem digitCount_pos (n : Nat) : 0 < digitCount n := by
  unfold digitCount
  split <;> omega

/-- A number is below ten to the count of its digits. -/
theorem lt_tenTo_digitCount (n : Nat) : n < tenTo (digitCount n) := by
  fun_induction digitCount n with
  | case1 n h => exact h
  | case2 n h ih => rw [tenTo_succ]; omega

/-- A number other than zero reaches the power of ten one below the count of its digits. -/
theorem tenTo_le_of_pos {n : Nat} (hn : 0 < n) : tenTo (digitCount n - 1) ≤ n := by
  fun_induction digitCount n with
  | case1 n h => exact hn
  | case2 n h ih =>
    have hq : 0 < n / 10 := by omega
    have hd := digitCount_pos (n / 10)
    have := ih hq
    rw [Nat.add_sub_cancel]
    obtain ⟨k, hk⟩ : ∃ k, digitCount (n / 10) = k + 1 := ⟨digitCount (n / 10) - 1, by omega⟩
    rw [hk, Nat.add_sub_cancel] at this
    rw [hk, tenTo_succ]
    omega

namespace Decimal

/-- The number zero, written `0`. -/
def zero : Decimal := ⟨false, 0, 0⟩

/-- A natural number, written without an exponent. -/
def ofNat (n : Nat) : Decimal := ⟨false, n, 0⟩

/-- An integer, written without an exponent. -/
def ofInt (n : Int) : Decimal := ⟨n < 0, n.natAbs, 0⟩

/-- The number one. -/
def one : Decimal := ofNat 1

/-- The number one half, written `0.5`. -/
def half : Decimal := ⟨false, 5, -1⟩

/-- Whether the value is zero, whatever its sign and exponent. -/
def isZero (d : Decimal) : Bool := d.coefficient == 0

/-- The exponent of the first digit. -/
def adjusted (d : Decimal) : Int := d.exponent + digitCount d.coefficient - 1

/-- The number with the other sign. -/
def neg (d : Decimal) : Decimal := { d with negative := !d.negative }

/-- A coefficient moved up by `k` places; zero stays zero however far it moves. -/
def scaled (c k : Nat) : Nat := if c = 0 then 0 else c * tenTo k

/-- Moving by `k` places multiplies by the power of ten. -/
theorem scaled_eq (c k : Nat) : scaled c k = c * tenTo k := by
  unfold scaled
  split
  · next h => rw [h, Nat.zero_mul]
  · rfl

/-- The sign of the value: `-1`, `0` or `1`. -/
def signum (d : Decimal) : Int :=
  if d.coefficient = 0 then 0 else if d.negative then -1 else 1

/-- The order of two magnitudes other than zero: first by the place of the first digit, then digit
by digit. -/
def compareMagnitude (a b : Decimal) : Ordering :=
  match Ord.compare a.adjusted b.adjusted with
  | .eq =>
    let place := min a.exponent b.exponent
    Ord.compare (scaled a.coefficient (a.exponent - place).toNat)
      (scaled b.coefficient (b.exponent - place).toNat)
  | other => other

/-- The order of two numbers by value. -/
def compare (a b : Decimal) : Ordering :=
  match Ord.compare a.signum b.signum with
  | .eq =>
    if a.signum = 0 then .eq
    else if a.signum = 1 then compareMagnitude a b
    else compareMagnitude b a
  | other => other

instance : LT Decimal := ⟨fun a b => a.compare b = .lt⟩
instance : LE Decimal := ⟨fun a b => a.compare b ≠ .gt⟩
instance (a b : Decimal) : Decidable (a < b) := inferInstanceAs (Decidable (a.compare b = .lt))
instance (a b : Decimal) : Decidable (a ≤ b) := inferInstanceAs (Decidable (a.compare b ≠ .gt))

/-- Whether two numbers have one value. -/
def same (a b : Decimal) : Bool := a.compare b == .eq

/-- Whether the value is below zero; a zero with a minus sign is not. -/
def isNegative (d : Decimal) : Bool := d.negative && d.coefficient != 0

/-- Whether the value is above zero. -/
def isPositive (d : Decimal) : Bool := !d.negative && d.coefficient != 0

/-- The smaller of two numbers, the first where they are equal. -/
def least (a b : Decimal) : Decimal := if b < a then b else a

/-- The larger of two numbers, the first where they are equal. -/
def greatest (a b : Decimal) : Decimal := if a < b then b else a

end Decimal

end DealerPay
