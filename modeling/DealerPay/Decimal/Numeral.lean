import DealerPay.Decimal.Basic
import DealerPay.Decimal.Printer
import DealerPay.Text.Blank
import DealerPay.Text.Digit

/-!
# Numerals

What a text can spell: a finite decimal number with all the digits written, an infinity, or one of
the markers for a value that is not a number.

* `Numeral` is what a text spells, `Numeral.toText` its plain spelling.
* `Numeral.ofText?` reads a text: blanks around it and underscores anywhere are skipped, and the
  digits of every script count. A finite number is a sign, digits with an optional point among them
  and an optional exponent. Nothing is rounded.
* `Decimal.spellable` bounds the exponents that can be read.
-/

namespace DealerPay

/-- What a numeral spells. -/
inductive Numeral where
  /-- A finite number. -/
  | finite (d : Decimal)
  /-- An infinity, with its sign. -/
  | infinite (negative : Bool)
  /-- Not a number: a marker with a sign that may demand attention and may carry a payload. -/
  | notNumber (negative signalling : Bool) (payload : Nat)
deriving DecidableEq, Repr, Inhabited

/-- The largest exponent of a first digit that can be spelled. -/
def Decimal.spellableHighest : Int := 999999999999999999

/-- The least exponent of a last digit that can be spelled. -/
def Decimal.spellableLowest : Int := -1999999999999999997

/-- Whether the exponents of a number are within reach of a numeral. -/
def Decimal.spellable (d : Decimal) : Bool :=
  Decimal.spellableLowest ≤ d.exponent && d.adjusted ≤ Decimal.spellableHighest

namespace Numeral

/-- A digit of any script as the digit of the same value in ASCII, another ASCII character as it
is, and nothing for the rest. -/
def asciiChar? (c : Char) : Option Char :=
  if c.toNat < 128 then some c
  else (Text.digitValue? c).map fun v => Char.ofNat (48 + v)

/-- The natural number that ASCII digits spell. -/
def digitsValue (cs : List Char) : Nat :=
  cs.foldl (fun n c => 10 * n + (c.toNat - 48)) 0

/-- A sign, if there is one, and what follows it. -/
def splitSign : List Char → Bool × List Char
  | '+' :: rest => (false, rest)
  | '-' :: rest => (true, rest)
  | cs => (false, cs)

/-- An exponent: a sign, if there is one, and at least one digit. -/
def exponent? (cs : List Char) : Option Int :=
  let (negative, digits) := splitSign cs
  if digits.isEmpty || !digits.all Char.isDigit then none
  else
    let n : Int := digitsValue digits
    some (if negative then -n else n)

/-- The part of a numeral behind its digits: nothing, or the letter `e` and an exponent. -/
def trailer? : List Char → Option Int
  | [] => some 0
  | c :: rest => if c = 'e' || c = 'E' then exponent? rest else none

/-- Digits behind a point, if there is one, and what follows them. -/
def splitFraction : List Char → List Char × List Char
  | '.' :: rest => (rest.takeWhile Char.isDigit, rest.dropWhile Char.isDigit)
  | cs => ([], cs)

/-- A finite number without its sign: digits, a point and digits, an exponent. -/
def unsigned? (cs : List Char) : Option Decimal := do
  let front := cs.takeWhile Char.isDigit
  let (fraction, rest) := splitFraction (cs.dropWhile Char.isDigit)
  let e ← trailer? rest
  if front.isEmpty && fraction.isEmpty then none
  else some ⟨false, digitsValue (front ++ fraction), e - fraction.length⟩

/-- The payload of a marker: digits, or nothing at all. -/
def payload? (cs : List Char) : Option Nat :=
  if cs.all Char.isDigit then some (digitsValue cs) else none

/-- An infinity or a marker in any mixture of cases, without its sign. -/
def special? (negative : Bool) (cs : List Char) : Option Numeral :=
  match cs.map Char.toLower with
  | ['i', 'n', 'f'] => some (.infinite negative)
  | ['i', 'n', 'f', 'i', 'n', 'i', 't', 'y'] => some (.infinite negative)
  | 'n' :: 'a' :: 'n' :: rest => (payload? rest).map (.notNumber negative false)
  | 's' :: 'n' :: 'a' :: 'n' :: rest => (payload? rest).map (.notNumber negative true)
  | _ => none

/-- What ASCII characters without blanks and underscores spell. -/
def ofAscii? (cs : List Char) : Option Numeral :=
  let (negative, body) := splitSign cs
  match special? negative body with
  | some n => some n
  | none =>
    match unsigned? body with
    | some d => if d.spellable then some (.finite { d with negative := negative }) else none
    | none => none

/-- The characters that count in a numeral, if all of them can. -/
def significant? (s : String) : Option (List Char) :=
  ((Text.trimChars s.toList).filter (· ≠ '_')).mapM asciiChar?

/-- What a text spells, if it spells anything. -/
def ofText? (s : String) : Option Numeral :=
  (significant? s).bind ofAscii?

/-- The plain spelling of a numeral. -/
def toText : Numeral → String
  | finite d => d.toText
  | infinite negative => String.ofList (Decimal.signChars negative) ++ "Infinity"
  | notNumber negative signalling payload =>
    String.ofList (Decimal.signChars negative) ++ (if signalling then "sNaN" else "NaN")
      ++ (if payload = 0 then "" else toString payload)

/-- The nearest cent of a numeral. A quiet marker passes through with as much of its payload as
there are digits for; there are no cents of the others. -/
def toCents : Numeral → Except Signal Numeral
  | finite d => do return finite (← d.toCents)
  | infinite _ => .error .invalidOperation
  | notNumber negative signalling payload =>
    if signalling then .error .invalidOperation
    else .ok (notNumber negative false (payload % tenTo Decimal.centPrecision))

end Numeral

end DealerPay
