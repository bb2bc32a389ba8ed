import DealerPay.Text.Blank
import DealerPay.Text.Digit
import DealerPay.Text.Quoted

/-!
# Integers in settings

How an integer is written in a setting: blanks around it do not count, a sign may stand before it,
and single underscores may stand between its digits, which may be of any script.

* `readInteger` reads one of at most `longestDigits` digits.
* `IntegerError` says why a text is none.
-/

namespace DealerPay.Text

/-- The most digits that an integer is read from. -/
def longestDigits : Nat := 4300

/-- Why a text is not read as an integer. -/
inductive IntegerError where
  /-- It is not written as one. -/
  | malformed
  /-- It starts with an integer of this many digits, which are too many. -/
  | tooLong (digits : Nat)
deriving DecidableEq, Repr

/-- How much of a text is quoted in a message. -/
def quotedLength : Nat := 200

/-- What is said of a text that is not read as an integer. -/
def IntegerError.message (s : String) : IntegerError → String
  | malformed =>
    "invalid literal for int() with base 10: " ++ String.ofList ((quoted s).toList.take quotedLength)
  | tooLong digits =>
    "Exceeds the limit (" ++ toString longestDigits
      ++ " digits) for integer string conversion: value has " ++ toString digits
      ++ " digits; use sys.set_int_max_str_digits() to increase the limit"

/-- Blanks that may surround an integer: all but the separators U+001C to U+001F. -/
def isIntegerBlank (c : Char) : Bool := isBlank c && !(0x1C ≤ c.toNat && c.toNat ≤ 0x1F)

/-- Whether a character can stand in an integer behind its sign. -/
def isIntegerChar (c : Char) : Bool := (digitValue? c).isSome || c == '_'

/-- Whether every underscore is followed by something other than an underscore. -/
def underscoresApart : List Char → Bool
  | [] => true
  | ['_'] => false
  | '_' :: '_' :: _ => false
  | _ :: rest => underscoresApart rest

/-- Digits with single underscores between them. -/
def isDigitRun : List Char → Bool
  | [] => false
  | c :: rest => c != '_' && underscoresApart (c :: rest)

/-- An integer without blanks and sign. -/
def readDigits (cs : List Char) : Except IntegerError Nat :=
  let run := cs.takeWhile isIntegerChar
  let digits := run.filterMap digitValue?
  if !isDigitRun run then .error .malformed
  else if longestDigits < digits.length then .error (.tooLong digits.length)
  else if (cs.dropWhile isIntegerChar).isEmpty then .ok (digits.foldl (fun n d => 10 * n + d) 0)
  else .error .malformed

/-- An integer. -/
def readInteger (s : String) : Except IntegerError Int :=
  let inner := (s.toList.dropWhile isIntegerBlank).reverse.dropWhile isIntegerBlank |>.reverse
  match inner with
  | '-' :: rest => (readDigits rest).map fun n => -(n : Int)
  | '+' :: rest => (readDigits rest).map fun n => (n : Int)
  | cs => (readDigits cs).map fun n => (n : Int)

end DealerPay.Text
