/-!
# White space

The characters that may surround a number or a setting without being part of it: those with the
Unicode property `White_Space`, and the four separators U+001C to U+001F.

* `isBlank` is membership in that class.
* `trim` drops blanks at both ends of a text.
-/

namespace DealerPay.Text

/-- Code points of the blanks beyond the ranges U+0009 to U+000D, U+001C to U+0020 and
U+2000 to U+200A. -/
def scatteredBlanks : List Nat :=
  [0x85, 0xA0, 0x1680, 0x2028, 0x2029, 0x202F, 0x205F, 0x3000]

/-- White space of every script, with the separators U+001C to U+001F. -/
def isBlank (c : Char) : Bool :=
  let n := c.toNat
  (0x9 ≤ n && n ≤ 0xD) || (0x1C ≤ n && n ≤ 0x20) || (0x2000 ≤ n && n ≤ 0x200A)
    || scatteredBlanks.contains n

/-- What is left of a text after blanks at both of its ends are dropped. -/
def trimChars (cs : List Char) : List Char :=
  ((cs.dropWhile isBlank).reverse.dropWhile isBlank).reverse

/-- A text without the blanks at its two ends. -/
def trim (s : String) : String :=
  String.ofList (trimChars s.toList)

end DealerPay.Text
