import DealerPay.Text.Encoding
import DealerPay.Value

/-!
# Reading JSON

A reader for JSON texts that says where a text goes wrong.

* `Json.parse` reads a whole text. An integer has no point and no exponent and may be of any size up
  to `longestInteger` digits; any other number is a binary floating-point number. Of two fields with
  one name the later value counts, in the place of the earlier.
* `Json.Fault` is what can go wrong: the text stops making sense at a position counted in points, an
  integer is too long, or lists and objects stand inside each other too deep.

Inside the reader the points of the text are spelled, and a place in it is the number of characters
that are left from there on. A half of a character that stands alone is kept; two of them make a
character if both are spelled by their code units. The words `NaN`, `Infinity` and `-Infinity` are
read as numbers.
-/

namespace DealerPay.Json

/-- Why a text is refused. -/
inductive Fault where
  /-- The text makes no sense from this many characters before its end. -/
  | malformed (left : Nat)
  /-- An integer has more digits than are read. -/
  | longInteger
  /-- Lists and objects stand inside each other deeper than is followed. -/
  | tooDeep
deriving DecidableEq, Repr

/-- The most digits of an integer. -/
def longestInteger : Nat := 4300

/-- The blanks between the parts of a text. -/
def isSpace (c : Char) : Bool := c = ' ' || c = '\t' || c = '\n' || c = '\r'

/-- The text from its first character that is not a blank. -/
def skipSpace (cs : List Char) : List Char := cs.dropWhile isSpace

/-! ## Texts -/

/-- The character that a letter behind a backslash stands for. -/
def escaped? : Char → Option Char
  | '"' => some '"'
  | '\\' => some '\\'
  | '/' => some '/'
  | 'b' => some '\x08'
  | 'f' => some '\x0c'
  | 'n' => some '\n'
  | 'r' => some '\r'
  | 't' => some '\t'
  | _ => none

/-- The value of a hexadecimal digit. -/
def hexValue? (c : Char) : Option Nat :=
  if c.isDigit then some (c.toNat - 48)
  else if 'a' ≤ c && c ≤ 'f' then some (c.toNat - 87)
  else if 'A' ≤ c && c ≤ 'F' then some (c.toNat - 55)
  else none

/-- The code unit that four hexadecimal digits spell. -/
def codeUnit? (a b c d : Char) : Option Nat := do
  let a ← hexValue? a
  let b ← hexValue? b
  let c ← hexValue? c
  let d ← hexValue? d
  return ((a * 16 + b) * 16 + c) * 16 + d

/-- The second half of a pair, if one is spelled out next. A spelling that breaks off in its digits
is malformed; one that is cut short or no second half is left for later. -/
def lowHalf? : List Char → Except Fault (Option (Nat × List Char))
  | '\\' :: 'u' :: a :: b :: c :: d :: e :: rest =>
    match codeUnit? a b c d with
    | none => .error (.malformed (rest.length + 6))
    | some low => .ok (if Text.isLowHalf low then some (low, e :: rest) else none)
  | _ => .ok none

/-- The point of a code unit and the text behind its spelling. -/
def unitPoint (u : Nat) (rest : List Char) : Except Fault (Text.Point × List Char) :=
  if Text.isHighHalf u then
    match lowHalf? rest with
    | .error f => .error f
    | .ok (some (low, after)) => .ok (.char (Text.pairChar u low), after)
    | .ok none => .ok (.ofUnit u, rest)
  else .ok (.ofUnit u, rest)

/-- One point behind a backslash, and the text behind it. `opening` is the place of the quotation
mark that the text starts with. -/
def escape (opening : Nat) : List Char → Except Fault (Text.Point × List Char)
  | [] => .error (.malformed opening)
  | 'u' :: a :: b :: c :: d :: e :: rest =>
    match codeUnit? a b c d with
    | none => .error (.malformed (rest.length + 6))
    | some u => unitPoint u (e :: rest)
  | 'u' :: rest => .error (.malformed (rest.length + 1))
  | c :: rest =>
    match escaped? c with
    | some r => .ok (.char r, rest)
    | none => .error (.malformed (rest.length + 2))

/-- The characters of a text up to its closing quotation mark, and what follows that. -/
def readText (opening : Nat) : Nat → List Char → Except Fault (List Char × List Char)
  | 0, _ => .error (.malformed opening)
  | _, [] => .error (.malformed opening)
  | fuel + 1, c :: rest =>
    if c = '"' then .ok ([], rest)
    else if c = '\\' then do
      let (p, after) ← escape opening rest
      let (more, after) ← readText opening fuel after
      return (p.spelling ++ more, after)
    else if c.toNat < 0x20 then .error (.malformed (rest.length + 1))
    else do
      let (more, after) ← readText opening fuel rest
      return (c :: more, after)

/-! ## Numbers -/

/-- The digits before a point: a single zero, or digits that start with another one. -/
def wholeDigits? : List Char → Option (List Char × List Char)
  | '0' :: rest => some (['0'], rest)
  | cs =>
    let digits := cs.takeWhile Char.isDigit
    if digits.isEmpty then none else some (digits, cs.dropWhile Char.isDigit)

/-- A point and digits, if both are there. -/
def fractionDigits : List Char → List Char × List Char
  | '.' :: rest =>
    let digits := rest.takeWhile Char.isDigit
    if digits.isEmpty then ([], '.' :: rest) else (digits, rest.dropWhile Char.isDigit)
  | cs => ([], cs)

/-- An exponent, if it is complete. -/
def exponentPart (cs : List Char) : Option Int × List Char :=
  match cs with
  | c :: rest =>
    if c = 'e' || c = 'E' then
      let body := (Numeral.splitSign rest).2
      let digits := body.takeWhile Char.isDigit
      if digits.isEmpty then (none, cs)
      else
        let n : Int := Numeral.digitsValue digits
        (some (if (Numeral.splitSign rest).1 then -n else n), body.dropWhile Char.isDigit)
    else (none, cs)
  | [] => (none, cs)

/-- A number and what follows it. -/
def readNumber (cs : List Char) : Except Fault (Value × List Char) :=
  let (negative, body) :=
    match cs with
    | '-' :: rest => (true, rest)
    | _ => (false, cs)
  match wholeDigits? body with
  | none => .error (.malformed cs.length)
  | some (front, rest) =>
    let (fraction, rest) := fractionDigits rest
    let (e?, rest) := exponentPart rest
    if fraction.isEmpty && e?.isNone then
      if longestInteger < front.length then .error .longInteger
      else
        let n : Int := Numeral.digitsValue front
        .ok (.int (if negative then -n else n), rest)
    else
      let d : Decimal :=
        ⟨negative, Numeral.digitsValue (front ++ fraction), e?.getD 0 - fraction.length⟩
      .ok (.float (Binary64.nearest d), rest)

/-! ## Values -/

/-- A word with a meaning of its own, and what follows it. -/
def word? : List Char → Option (Value × List Char)
  | 'n' :: 'u' :: 'l' :: 'l' :: rest => some (.null, rest)
  | 't' :: 'r' :: 'u' :: 'e' :: rest => some (.bool true, rest)
  | 'f' :: 'a' :: 'l' :: 's' :: 'e' :: rest => some (.bool false, rest)
  | 'N' :: 'a' :: 'N' :: rest => some (.float .notNumber, rest)
  | 'I' :: 'n' :: 'f' :: 'i' :: 'n' :: 'i' :: 't' :: 'y' :: rest =>
    some (.float (.infinite false), rest)
  | '-' :: 'I' :: 'n' :: 'f' :: 'i' :: 'n' :: 'i' :: 't' :: 'y' :: rest =>
    some (.float (.infinite true), rest)
  | _ => none

mutual

/-- A value that starts at the first character, and what follows it. Lists and objects are followed
`depth` levels down. -/
def readValue : Nat → Nat → List Char → Except Fault (Value × List Char)
  | 0, _, cs => .error (.malformed cs.length)
  | _, _, [] => .error (.malformed 0)
  | fuel + 1, depth, c :: rest =>
    if c = '"' then do
      let (s, after) ← readText (rest.length + 1) (rest.length + 1) rest
      return (.text (String.ofList s), after)
    else if c = '[' then
      match depth with
      | 0 => .error .tooDeep
      | depth + 1 =>
        match skipSpace rest with
        | ']' :: after => .ok (.list [], after)
        | cs => do
          let (items, after) ← readItems fuel depth cs
          return (.list items, after)
    else if c = '{' then
      match depth with
      | 0 => .error .tooDeep
      | depth + 1 =>
        match skipSpace rest with
        | '}' :: after => .ok (.object [], after)
        | cs => do
          let (fields, after) ← readFields fuel depth [] cs
          return (.object fields, after)
    else
      match word? (c :: rest) with
      | some found => .ok found
      | none => readNumber (c :: rest)

/-- Items up to the closing bracket, from the first character of one of them. -/
def readItems : Nat → Nat → List Char → Except Fault (List Value × List Char)
  | 0, _, cs => .error (.malformed cs.length)
  | fuel + 1, depth, cs => do
    let (v, after) ← readValue fuel depth cs
    match skipSpace after with
    | ']' :: after => return ([v], after)
    | ',' :: after =>
      let (more, after) ← readItems fuel depth (skipSpace after)
      return (v :: more, after)
    | cs => .error (.malformed cs.length)

/-- Fields up to the closing brace, from the quotation mark of a name, added to those before. -/
def readFields : Nat → Nat → Fields → List Char → Except Fault (Fields × List Char)
  | 0, _, _, cs => .error (.malformed cs.length)
  | fuel + 1, depth, before, '"' :: rest => do
    let (name, after) ← readText (rest.length + 1) (rest.length + 1) rest
    match skipSpace after with
    | ':' :: after =>
      let (v, after) ← readValue fuel depth (skipSpace after)
      let fields := before.put (String.ofList name) v
      match skipSpace after with
      | '}' :: after => return (fields, after)
      | ',' :: after => readFields fuel depth fields (skipSpace after)
      | cs => .error (.malformed cs.length)
    | cs => .error (.malformed cs.length)
  | _, _, _, cs => .error (.malformed cs.length)

end

/-- The value that a whole text spells, followed `depth` levels down. -/
def parseChars (depth : Nat) (cs : List Char) : Except Fault Value := do
  let (v, after) ← readValue (2 * cs.length + 2) depth (skipSpace cs)
  match skipSpace after with
  | [] => return v
  | cs => .error (.malformed cs.length)

/-- Why a text is not JSON, with the place counted from its start. -/
inductive Refusal where
  /-- The text makes no sense from the point at this position on. -/
  | malformedAt (position : Nat)
  /-- An integer has more digits than are read. -/
  | longInteger
  /-- Lists and objects stand inside each other deeper than is followed. -/
  | tooDeep
deriving DecidableEq, Repr

/-- The value that points spell, with lists and objects inside each other `depth` levels deep at
most. -/
def parsePoints (depth : Nat) (ps : List Text.Point) : Except Refusal Value :=
  let cs := Text.spelling ps
  match parseChars depth cs with
  | .ok v => .ok v
  | .error (.malformed left) =>
    .error (.malformedAt (Text.pointsOf (cs.take (cs.length - left))).length)
  | .error .longInteger => .error .longInteger
  | .error .tooDeep => .error .tooDeep

/-- The value that a string spells. Its length is a depth that it stays within. -/
def parse (depth : Nat) (s : String) : Except Refusal Value := parsePoints depth (Text.charPoints s)

end DealerPay.Json
