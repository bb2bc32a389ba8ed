import DealerPay.Decimal.Numeral

/-!
# Binary floating-point numbers

Numbers with 53 significant bits, as they occur in data that was written by a program. What is
asked of them is which one a decimal numeral means, how one is written, and what its whole part is.

* `Binary64` is the number in exact form, `mantissa · 2 ^ power`.
* `Binary64.nearest` is the number nearest to a decimal one, ties to the even mantissa.
* `Binary64.shortest` looks for the fewest digits that read back as the number, and among those of
  one length takes the ones nearest to it.
* `Binary64.toText` writes them: positional for magnitudes from `0.0001` to below `1e16`, always
  with a point, and with an exponent of two digits at least otherwise.
* `Binary64.floor` and `Binary64.beyondFloor` split one at its whole part, `Binary64.times` scales
  one and `Binary64.rounded` is the nearest whole number.

Everything is computed with natural numbers, and rounded where a number is made of the result.
-/

namespace DealerPay

/-- A binary floating-point number. -/
inductive Binary64 where
  /-- `mantissa · 2 ^ power` with a sign; the mantissa has at most 53 bits. -/
  | finite (negative : Bool) (mantissa : Nat) (power : Int)
  /-- An infinity, with its sign. -/
  | infinite (negative : Bool)
  /-- Not a number. -/
  | notNumber
deriving DecidableEq, Repr, Inhabited

namespace Binary64

/-! ## From decimal numbers -/

/-- The bits of a mantissa. -/
def precision : Nat := 53

/-- The least power of two. -/
def leastPower : Int := -1074

/-- The largest power of two. -/
def greatestPower : Int := 971

/-- The power of two with this exponent. -/
def twoTo (k : Nat) : Nat := Nat.pow 2 k

/-- A natural number multiplied by a power of two, unchanged for a negative power. -/
def raised (n : Nat) (power : Int) : Nat := n * twoTo power.toNat

/-- The mantissa of `n / d` at a power of two, rounded with ties to even. -/
def mantissaAt (n d : Nat) (power : Int) : Nat :=
  divRound .toEven (raised n (-power)) (raised d power)

/-- The power at which the mantissa of `n / d` has 53 bits, or the least power. -/
def powerFor (n d : Nat) : Int :=
  let guess : Int := (Nat.log2 n : Int) - Nat.log2 d - precision
  let power := if raised n (-guess) < raised d guess * twoTo precision then guess else guess + 1
  max leastPower power

/-- The number nearest to the quotient `n / d` of two positive numbers. -/
def ofQuotient (negative : Bool) (n d : Nat) : Binary64 :=
  let power := powerFor n d
  let m := mantissaAt n d power
  let (m, power) := if m = twoTo precision then (m / 2, power + 1) else (m, power)
  if power > greatestPower then infinite negative else finite negative m power

/-- The number nearest to the quotient `n / d`, where `d` is positive. -/
def ofRatio (negative : Bool) (n d : Nat) : Binary64 :=
  if n = 0 then finite negative 0 leastPower else ofQuotient negative n d

/-- Beyond this decimal exponent of the first digit, either way, a number is infinite or zero. -/
def farExponent : Int := 400

/-- The number nearest to a decimal number. -/
def nearest (d : Decimal) : Binary64 :=
  if d.coefficient = 0 || d.adjusted < -farExponent then finite d.negative 0 leastPower
  else if farExponent < d.adjusted then infinite d.negative
  else ofQuotient d.negative (d.coefficient * tenTo d.exponent.toNat) (tenTo (-d.exponent).toNat)

/-- The quotient of natural numbers that a magnitude is. -/
def quotient (mantissa : Nat) (power : Int) : Nat × Nat :=
  (raised mantissa power, raised 1 (-power))

/-! ## Shortest digits -/

/-- The place of the first decimal digit of a quotient: the exponent `e` with
`10 ^ e ≤ n / d < 10 ^ (e + 1)`. -/
def decimalExponent (n d : Nat) : Int :=
  let e : Int := (digitCount n : Int) - digitCount d
  if d * tenTo e.toNat ≤ n * tenTo (-e).toNat then e else e - 1

/-- The two neighbours of a magnitude on the grid of `10 ^ place`, the nearer first; of two at the
same distance the even one. -/
def neighbours (n d : Nat) (place : Int) : List Nat :=
  let n' := n * tenTo (-place).toNat
  let d' := d * tenTo place.toNat
  let low := n' / d'
  if divRound .toEven n' d' = low then [low, low + 1] else [low + 1, low]

/-- The first neighbour on the grid that reads back as the number. -/
def readsBack? (x : Binary64) (n d : Nat) (place : Int) : Option Decimal :=
  ((neighbours n d place).map fun c => (⟨false, c, place⟩ : Decimal)).find? fun c =>
    nearest c = x

/-- Looks for digits that read back on ever finer grids. -/
def searchGrids (x : Binary64) (n d : Nat) (place : Int) : Nat → Decimal
  | 0 => ⟨false, 0, 0⟩
  | fuel + 1 =>
    match readsBack? x n d place with
    | some c => c
    | none => searchGrids x n d (place - 1) fuel

/-- Seventeen digits always read back. -/
def mostDigits : Nat := 17

/-- The shortest decimal number that reads back as the magnitude given. -/
def shortest (mantissa : Nat) (power : Int) : Decimal :=
  let (n, d) := quotient mantissa power
  searchGrids (finite false mantissa power) n d (decimalExponent n d) mostDigits

/-! ## Texts -/

/-- An exponent with its sign and at least two digits. -/
def exponentChars (e : Int) : List Char :=
  let digits := Decimal.digitChars e.natAbs
  'e' :: (if e < 0 then '-' else '+') :: List.replicate (2 - digits.length) '0' ++ digits

/-- A magnitude in decimal digits: positional from `0.0001` to below `1e16`, where a whole number
ends in `.0`. -/
def magnitudeChars (d : Decimal) : List Char :=
  let t := Decimal.trimZeros d.coefficient
  let digits := Decimal.digitChars t.1
  let lead := d.adjusted
  if -4 ≤ lead ∧ lead < 16 then
    let place := d.exponent + t.2
    if 0 ≤ place then digits ++ List.replicate place.toNat '0' ++ ['.', '0']
    else Decimal.pointed digits (-place).toNat
  else Decimal.pointed digits (digits.length - 1) ++ exponentChars lead

/-- The text of a number: the shortest digits that read back. -/
def toText : Binary64 → String
  | finite negative mantissa power =>
    String.ofList (Decimal.signChars negative ++
      if mantissa = 0 then ['0', '.', '0'] else magnitudeChars (shortest mantissa power))
  | infinite negative => String.ofList (Decimal.signChars negative) ++ "inf"
  | notNumber => "nan"

/-! ## Reading a text -/

/-- Whether every underscore stands between two digits. -/
def underscoresInside : Bool → List Char → Bool
  | _, [] => true
  | afterDigit, '_' :: rest =>
    afterDigit && (match rest with | c :: _ => (Text.digitValue? c).isSome | [] => false)
      && underscoresInside false rest
  | _, c :: rest => underscoresInside (Text.digitValue? c).isSome rest

/-- The number that a text means. A text is read as a decimal numeral is, but underscores only
separate digits and a marker carries neither payload nor a demand for attention. -/
def ofText? (s : String) : Option Binary64 :=
  let cs := Text.trimChars s.toList
  if !underscoresInside false cs then none
  else
    match (cs.filter (· ≠ '_')).mapM Numeral.asciiChar? with
    | none => none
    | some plain =>
      let (negative, body) := Numeral.splitSign plain
      match Numeral.special? negative body with
      | some (.infinite negative) => some (infinite negative)
      | some _ => if body.length = 3 then some notNumber else none
      | none => (Numeral.unsigned? body).map fun d => nearest { d with negative := negative }

/-! ## Whole numbers and what is beyond them -/

/-- The whole part, cut down to the integer below. -/
def floor (negative : Bool) (mantissa : Nat) (power : Int) : Int :=
  let (n, d) := quotient mantissa power
  if negative then -(((n + d - 1) / d : Nat) : Int) else ((n / d : Nat) : Int)

/-- Whether the number is a whole one. -/
def isWhole (mantissa : Nat) (power : Int) : Bool :=
  let (n, d) := quotient mantissa power
  n % d == 0

/-- What the number is beyond its whole part, as the nearest number to that: zero at least, and one
for a number that is below zero by next to nothing. -/
def beyondFloor (negative : Bool) (mantissa : Nat) (power : Int) : Binary64 :=
  let (n, d) := quotient mantissa power
  let rest := n % d
  ofRatio false (if negative && rest ≠ 0 then d - rest else rest) d

/-- The number nearest to `k` times the number. -/
def times (k : Nat) : Binary64 → Binary64
  | finite negative mantissa power =>
    let (n, d) := quotient mantissa power
    ofRatio negative (n * k) d
  | x => x

/-- The whole number nearest to the magnitude, of two the one further from zero; what is no number
or has no bound counts as nothing. -/
def rounded : Binary64 → Nat
  | finite _ mantissa power =>
    let (n, d) := quotient mantissa power
    divRound .awayFromZero n d
  | _ => 0

end Binary64

end DealerPay
