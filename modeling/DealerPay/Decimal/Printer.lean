import DealerPay.Decimal.Arithmetic

/-!
# Texts of decimal numbers

* `Decimal.toText` keeps the spelling: every digit of the coefficient, positional while the exponent
  is not above zero and the first digit is no more than six places behind the point, and with an
  exponent otherwise.
* `Decimal.positional` never uses an exponent, `Decimal.fixed` writes a given number of decimals.
* `Decimal.grouped` writes whole units with a comma before every group of three digits.
-/

namespace DealerPay.Decimal

/-- The digits of a natural number. -/
def digitChars (n : Nat) : List Char := Nat.toDigits 10 n

/-- The minus sign of a negative number. -/
def signChars (negative : Bool) : List Char := if negative then ['-'] else []

/-- Digits with a point before the last `places` of them; zeros stand in for digits that are
missing, one of them always before the point. -/
def pointed (digits : List Char) (places : Nat) : List Char :=
  if places = 0 then digits
  else
    let padded := List.replicate (places + 1 - digits.length) '0' ++ digits
    padded.take (padded.length - places) ++ '.' :: padded.drop (padded.length - places)

/-- The digits without an exponent. A zero whose exponent is above zero is written `0`. -/
def positionalChars (d : Decimal) : List Char :=
  signChars d.negative ++
    if 0 ≤ d.exponent then digitChars (scaled d.coefficient d.exponent.toNat)
    else pointed (digitChars d.coefficient) (-d.exponent).toNat

/-- The text without an exponent. -/
def positional (d : Decimal) : String := String.ofList d.positionalChars

/-- An exponent with its sign. -/
def exponentChars (e : Int) : List Char :=
  'E' :: (if e < 0 then '-' else '+') :: digitChars e.natAbs

/-- The text with an exponent: one digit before the point. -/
def scientificChars (d : Decimal) : List Char :=
  let digits := digitChars d.coefficient
  signChars d.negative ++ pointed digits (digits.length - 1) ++ exponentChars d.adjusted

/-- The text that keeps every digit and the exponent of a number. -/
def toText (d : Decimal) : String :=
  if d.exponent ≤ 0 ∧ -6 ≤ d.adjusted then d.positional else String.ofList d.scientificChars

/-- The text with `places` decimals, ties to even. -/
def fixed (places : Nat) (d : Decimal) : String :=
  (d.rescale .toEven (-(places : Int))).positional

/-- The number written in whole units, ties to even. A zero stays zero at any exponent. -/
def units (d : Decimal) : Decimal :=
  d.rescale .toEven 0

/-- Digits, given from the last to the first, with a comma after every third that has another
before it. -/
def groupReversed : List Char → List Char
  | a :: b :: c :: d :: rest => a :: b :: c :: ',' :: groupReversed (d :: rest)
  | short => short

/-- Digits in groups of three, counted from the right. -/
def groupChars (digits : List Char) : List Char :=
  (groupReversed digits.reverse).reverse

/-- The text in whole units, ties to even, with commas between groups of three digits. -/
def grouped (d : Decimal) : String :=
  let u := d.units
  String.ofList (signChars u.negative ++ groupChars (digitChars u.coefficient))

end DealerPay.Decimal
