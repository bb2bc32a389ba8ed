import DealerPay.Value

/-!
# Writing JSON

* `Json.render` writes a value on one line, in ASCII. A decimal number is written as a text, so that
  none of its digits is lost on the way.
* `Json.isWritable` says whether a value can be sent as JSON. There is no spelling for an infinity, nor
  for what is not a number. Texts are sent as they are, not in ASCII, and half of a character cannot
  be sent.
-/

namespace DealerPay.Json

/-- A code unit behind a backslash. -/
def unitEscape (u : Nat) : List Char := '\\' :: 'u' :: Text.hexDigits 4 u

/-- One character inside quotation marks, in ASCII. -/
def charEscape (c : Char) : List Char :=
  let n := c.toNat
  if c = '"' || c = '\\' then ['\\', c]
  else if 0x20 ≤ n && n < 0x7F then [c]
  else if n < 0x10000 then unitEscape n
  else unitEscape (0xD800 + (n - 0x10000) / 0x400) ++ unitEscape (0xDC00 + (n - 0x10000) % 0x400)

/-- One point inside quotation marks, in ASCII. -/
def pointEscape : Text.Point → List Char
  | .char c => charEscape c
  | .half h => unitEscape h.unit

/-- A text between quotation marks. -/
def renderText (s : String) : String :=
  String.ofList ('"' :: (Text.points s).flatMap pointEscape ++ ['"'])

mutual

/-- A value on one line. -/
def render : Value → String
  | .null => "null"
  | .bool true => "true"
  | .bool false => "false"
  | .int n => toString n
  | .float x => x.toText
  | .number n => renderText n.toText
  | .text s => renderText s
  | .list items => "[" ++ ",".intercalate (renderItems items) ++ "]"
  | .object fields => "\x7b" ++ ",".intercalate (renderFields fields) ++ "\x7d"

/-- The items of a list. -/
def renderItems : List Value → List String
  | [] => []
  | v :: rest => render v :: renderItems rest

/-- Fields: a name, a colon and a value. -/
def renderFields : List (String × Value) → List String
  | [] => []
  | (k, v) :: rest => (renderText k ++ ":" ++ render v) :: renderFields rest

end

mutual

/-- Whether a value can be sent as JSON. -/
def isWritable : Value → Bool
  | .float (.finite ..) => true
  | .float _ => false
  | .text s => Text.isWhole s
  | .list items => itemsWritable items
  | .object fields => fieldsWritable fields
  | _ => true

/-- Whether each of these items can be sent as JSON. -/
def itemsWritable : List Value → Bool
  | [] => true
  | v :: rest => isWritable v && itemsWritable rest

/-- Whether the name and the value of each of these fields can be sent as JSON. -/
def fieldsWritable : List (String × Value) → Bool
  | [] => true
  | (k, v) :: rest => Text.isWhole k && isWritable v && fieldsWritable rest

end

end DealerPay.Json
