import DealerPay.Decimal.Round

/-!
# Arithmetic

Sums and products are the exact result, fitted to the working limits of 28 digits.

* `Decimal.add`, `Decimal.sub`, `Decimal.mul` and `Decimal.sum`.
* `Decimal.hundredth` divides by a hundred and writes no more decimals than that needs.
* `Decimal.magnitude`, `Decimal.normalize` and `Decimal.whole`.
* `Decimal.toCents` is the nearest cent of a number, computed from all of its digits.

A sum aligns its terms. Where one term is so small that it lies beyond every digit of the result,
`standIn` puts a single digit in its place just below them: the rounded sum is the same, and the
work does not grow with the distance.
-/

namespace DealerPay.Decimal

/-! ## Sums -/

/-- The place of a digit that is below every digit kept of a sum whose larger term is `big`. -/
def floorPlace (l : Limits) (big : Decimal) : Int :=
  big.exponent - 1 +
    (if digitCount big.coefficient > l.precision then 0
     else (digitCount big.coefficient : Int) - l.precision - 1)

/-- `small` itself, or a digit that rounds as it does where it is out of the reach of `big`. -/
def standIn (l : Limits) (big small : Decimal) : Decimal :=
  if big.coefficient ≠ 0 ∧ small.adjusted < floorPlace l big then
    { small with coefficient := if small.coefficient = 0 then 0 else 1
                 exponent := floorPlace l big }
  else small

/-- The coefficient at exponent `place`, with the sign of the number. -/
def signedAt (place : Int) (d : Decimal) : Int :=
  let c : Int := scaled d.coefficient (d.exponent - place).toNat
  if d.negative then -c else c

/-- The exact sum, written with the smaller of the two exponents. A sum of zero is negative only
where both terms are. -/
def exactSum (a b : Decimal) : Decimal :=
  let place := min a.exponent b.exponent
  let s := a.signedAt place + b.signedAt place
  ⟨if s = 0 then a.negative && b.negative else s < 0, s.natAbs, place⟩

/-- The sum of two numbers. -/
def add (a b : Decimal) : Except Signal Decimal :=
  let sum :=
    if b.exponent < a.exponent then exactSum a (standIn working a b)
    else if a.exponent < b.exponent then exactSum (standIn working b a) b
    else exactSum a b
  sum.fit working

/-- The difference of two numbers. -/
def sub (a b : Decimal) : Except Signal Decimal := a.add b.neg

/-- The sum of a list, added up from the left and rounded at each step. -/
def sum (ds : List Decimal) : Except Signal Decimal := ds.foldlM add zero

/-! ## Products and quotients -/

/-- The exact product. -/
def exactProduct (a b : Decimal) : Decimal :=
  ⟨a.negative != b.negative, a.coefficient * b.coefficient, a.exponent + b.exponent⟩

/-- The product of two numbers. -/
def mul (a b : Decimal) : Except Signal Decimal := (exactProduct a b).fit working

/-- The exact hundredth: the point moves two places, over a zero at the end for as long as there
is one. Zero keeps its spelling. -/
def exactHundredth (d : Decimal) : Decimal :=
  if d.coefficient % 100 = 0 then { d with coefficient := d.coefficient / 100 }
  else if d.coefficient % 10 = 0 then
    { d with coefficient := d.coefficient / 10, exponent := d.exponent - 1 }
  else { d with exponent := d.exponent - 2 }

/-- The hundredth part of a number. -/
def hundredth (d : Decimal) : Except Signal Decimal := d.exactHundredth.fit working

/-- `percent` hundredths of a number. -/
def percentOf (percent d : Decimal) : Except Signal Decimal := do
  (← d.mul percent).hundredth

/-! ## Single numbers -/

/-- The number without its sign, fitted to the working limits. -/
def magnitude (d : Decimal) : Except Signal Decimal := { d with negative := false }.fit working

/-- A coefficient without the zeros at its end, and how many those were; zero has none. -/
def trimZeros (c : Nat) : Nat × Nat :=
  if c = 0 then (0, 0)
  else if c % 10 = 0 then
    let r := trimZeros (c / 10)
    (r.1, r.2 + 1)
  else (c, 0)
termination_by c
decreasing_by omega

/-- The number at working precision without zeros at the end of its coefficient. -/
def normalize (d : Decimal) : Except Signal Decimal := do
  let r ← d.fit working
  if r.coefficient = 0 then return { r with exponent := 0 }
  let t := trimZeros r.coefficient
  return { r with coefficient := t.1, exponent := r.exponent + t.2 }

/-- The whole part of a number, cut toward zero. -/
def whole (d : Decimal) : Int :=
  let n :=
    if 0 ≤ d.exponent then scaled d.coefficient d.exponent.toNat
    else
      let k := (-d.exponent).toNat
      if digitCount d.coefficient ≤ k then 0 else d.coefficient / tenTo k
  if d.negative then -(n : Int) else n

/-- The digits with which cents are computed. -/
def centPrecision : Nat := 50

/-- The nearest cent, a half cent going away from zero. -/
def toCents (d : Decimal) : Except Signal Decimal :=
  d.quantize centPrecision .awayFromZero (-2)

end DealerPay.Decimal
