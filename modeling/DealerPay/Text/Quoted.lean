import DealerPay.Text.Point
import DealerPay.Text.Printable

/-!
# Quoted texts

How a text is shown inside a message: between quotes, on one line, with every character that
cannot be printed, and every half of one, replaced by an escape.

* `quoteFor` picks the mark: the double quote where the text holds a single quote and no double
  quote, the single quote otherwise.
* `escapeChar` writes one character, `escapePoint` a half of one as well.
* `quoted` is the whole form.
-/

namespace DealerPay.Text

/-- The hexadecimal digit of a value below sixteen, in lower case. -/
def hexDigit (n : Nat) : Char :=
  if n < 10 then Char.ofNat (48 + n) else Char.ofNat (87 + n)

/-- The last `width` hexadecimal digits of a number, the highest first. -/
def hexDigits : Nat → Nat → List Char
  | 0, _ => []
  | width + 1, n => hexDigits width (n / 16) ++ [hexDigit (n % 16)]

/-- The quotation mark for a text. -/
def quoteFor (ps : List Point) : Char :=
  if ps.contains (.char '\'') && !ps.contains (.char '"') then '"' else '\''

/-- One character inside quotes: the mark and the backslash are escaped, the usual controls have
letters, and the rest of the unprintable ones are written by their code in the shortest of the
three widths two, four and eight. -/
def escapeChar (mark c : Char) : List Char :=
  if c = mark || c = '\\' then ['\\', c]
  else if c = '\n' then ['\\', 'n']
  else if c = '\r' then ['\\', 'r']
  else if c = '\t' then ['\\', 't']
  else if isPrintable c then [c]
  else if c.toNat < 0x100 then '\\' :: 'x' :: hexDigits 2 c.toNat
  else if c.toNat < 0x10000 then '\\' :: 'u' :: hexDigits 4 c.toNat
  else '\\' :: 'U' :: hexDigits 8 c.toNat

/-- One point inside quotes; a half has no form that could be printed. -/
def escapePoint (mark : Char) : Point → List Char
  | .char c => escapeChar mark c
  | .half h => '\\' :: 'u' :: hexDigits 4 h.unit

/-- A text between quotation marks. -/
def quoted (s : String) : String :=
  let ps := points s
  let mark := quoteFor ps
  String.ofList (mark :: ps.flatMap (escapePoint mark) ++ [mark])

end DealerPay.Text
