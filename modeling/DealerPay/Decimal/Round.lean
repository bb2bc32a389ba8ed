import DealerPay.Decimal.Basic

/-!
# Rounding

Every rounding of the library is the same step: drop the last digits of a coefficient and decide by
what was dropped whether to go up. Two things vary: where a tie goes, and how many digits remain.

* `Tie` says where a tie goes; `divRound` is the rounded quotient.
* `dropDigits` drops digits, `Decimal.rescale` moves a number to a given exponent.
* `Limits` bounds digits and exponents; `Decimal.fit` is the nearest number within the limits. Near
  the least exponent it keeps fewer digits, and a number too large for the limits is an overflow.
* `Decimal.quantize` moves a number to an exponent and refuses a result of too many digits.
* `Signal` is what arithmetic reports in place of a number.
-/

namespace DealerPay

/-- What arithmetic reports when there is no result. -/
inductive Signal where
  /-- The magnitude is beyond the largest exponent. -/
  | overflow
  /-- The result cannot be written with the digits at hand. -/
  | invalidOperation
deriving DecidableEq, Repr

/-- Where a number half way between two neighbours goes. -/
inductive Tie where
  /-- To the neighbour with an even last digit. -/
  | toEven
  /-- To the neighbour of larger magnitude. -/
  | awayFromZero
deriving DecidableEq, Repr

/-- Whether a quotient with this remainder goes up to the next one. -/
def Tie.roundsUp (tie : Tie) (quotient remainder divisor : Nat) : Bool :=
  match Ord.compare (2 * remainder) divisor with
  | .gt => true
  | .lt => false
  | .eq =>
    match tie with
    | .toEven => quotient % 2 == 1
    | .awayFromZero => true

/-- The natural number nearest to `n / d`. -/
def divRound (tie : Tie) (n d : Nat) : Nat :=
  if tie.roundsUp (n / d) (n % d) d then n / d + 1 else n / d

/-- A coefficient without its last `k` digits, rounded. One that is shorter than `k` digits is less
than a tenth of the unit and goes to zero. -/
def dropDigits (tie : Tie) (c k : Nat) : Nat :=
  if digitCount c < k then 0 else divRound tie c (tenTo k)

/-- The bounds within which arithmetic works. -/
structure Limits where
  /-- The most digits a result has. -/
  precision : Nat
  /-- The largest exponent of a first digit. -/
  highest : Int
  /-- The least exponent of a first digit at full precision. -/
  lowest : Int
deriving DecidableEq, Repr

/-- The least exponent of a last digit. -/
def Limits.tiny (l : Limits) : Int := l.lowest - l.precision + 1

namespace Decimal

/-- The limits of sums and products: 28 digits, exponents to a million either way. -/
def working : Limits := ⟨28, 999999, -999999⟩

/-- The number nearest to `d` whose last digit counts `10 ^ place`. -/
def rescale (tie : Tie) (place : Int) (d : Decimal) : Decimal :=
  if place ≤ d.exponent then
    { d with coefficient := scaled d.coefficient (d.exponent - place).toNat, exponent := place }
  else
    { d with coefficient := dropDigits tie d.coefficient (place - d.exponent).toNat
             exponent := place }

/-- The exponent of the last digit that is kept of a number other than zero. -/
def lastPlace (l : Limits) (d : Decimal) : Int :=
  max l.tiny (d.exponent + digitCount d.coefficient - l.precision)

/-- A coefficient that rounding has carried to one digit too many ends in zero and gives it up. -/
def shed (l : Limits) (d : Decimal) : Decimal :=
  if l.precision < digitCount d.coefficient then
    { d with coefficient := d.coefficient / 10, exponent := d.exponent + 1 }
  else d

/-- The number within the limits that is nearest to `d`, ties to even. A zero keeps the exponent
that it can keep; a number with digits to spare keeps its spelling. -/
def fit (l : Limits) (d : Decimal) : Except Signal Decimal :=
  if d.coefficient = 0 then
    .ok { d with exponent := max l.tiny (min l.highest d.exponent) }
  else
    let place := d.lastPlace l
    let r := if d.exponent < place then (rescale .toEven place d).shed l else d
    if r.coefficient ≠ 0 ∧ l.highest < r.adjusted then .error .overflow else .ok r

/-- The number moved to exponent `place`, refused where that takes more than `precision` digits. -/
def quantize (precision : Nat) (tie : Tie) (place : Int) (d : Decimal) :
    Except Signal Decimal :=
  if d.coefficient = 0 then .ok { d with exponent := place }
  else if precision < d.exponent + digitCount d.coefficient - place then .error .invalidOperation
  else
    let r := rescale tie place d
    if precision < digitCount r.coefficient then .error .invalidOperation else .ok r

end Decimal

end DealerPay
