import DealerPay.Binary64
import DealerPay.Text.Quoted

/-!
# Untyped values

What reaches the library before it is read as anything in particular: settings and figures typed by
people or sent by other programs. Reading such values is part of the job, and messages quote them.

* `Value` is the data; an object keeps the order of its fields.
* `Value.literal` writes a value the way messages quote it; `Value.shown` leaves a text unquoted.
* `Value.kindName` names the sort of a value.
* `Fields` are the fields of an object, with `Fields.get?` and `Fields.put`.
-/

namespace DealerPay

/-- An untyped value. -/
inductive Value where
  /-- The absent value. -/
  | null
  /-- A truth value. -/
  | bool (b : Bool)
  /-- An integer of any size. -/
  | int (n : Int)
  /-- A binary floating-point number. -/
  | float (x : Binary64)
  /-- A decimal number, or a marker in place of one. -/
  | number (n : Numeral)
  /-- A text. -/
  | text (s : String)
  /-- A list of values. -/
  | list (items : List Value)
  /-- Named values. -/
  | object (fields : List (String × Value))
deriving Repr, Inhabited

/-- The fields of an object, in order. -/
abbrev Fields := List (String × Value)

namespace Fields

/-- The value of a field. -/
def get? : Fields → String → Option Value
  | [], _ => none
  | (k, v) :: rest, key => if k = key then some v else get? rest key

/-- The fields with one of them set: in its old place, or at the end when it is new. -/
def put : Fields → String → Value → Fields
  | [], key, value => [(key, value)]
  | (k, v) :: rest, key, value =>
    if k = key then (k, value) :: rest else (k, v) :: put rest key value

/-- The fields of the first list, with those of the second put over them. -/
def overlay (fs changes : Fields) : Fields :=
  changes.foldl (fun acc c => put acc c.1 c.2) fs

/-- A field that was set has the value that it was set to. -/
theorem get?_put_same (fs : Fields) (key : String) (value : Value) :
    (fs.put key value).get? key = some value := by
  induction fs with
  | nil => simp [put, get?]
  | cons p rest ih =>
    obtain ⟨k, v⟩ := p
    by_cases h : k = key
    · simp [put, get?, h]
    · simpa [put, get?, h] using ih

/-- Setting one field leaves the others alone. -/
theorem get?_put_other (fs : Fields) {key other : String} (value : Value) (h : other ≠ key) :
    (fs.put key value).get? other = fs.get? other := by
  induction fs with
  | nil => simp [put, get?, Ne.symm h]
  | cons p rest ih =>
    obtain ⟨k, v⟩ := p
    by_cases hk : k = key
    · subst hk
      simp [put, get?, Ne.symm h]
    · by_cases ho : k = other
      · subst ho
        simp [put, get?, h]
      · simpa [put, get?, hk, ho] using ih

end Fields

namespace Value

/-- A decimal number as a value. -/
def ofDecimal (d : Decimal) : Value := number (.finite d)

/-- A decimal number that may be absent, as a value. -/
def ofDecimal? : Option Decimal → Value
  | some d => ofDecimal d
  | none => null

/-- The name of a value's sort. -/
def kindName : Value → String
  | null => "NoneType"
  | bool _ => "bool"
  | int _ => "int"
  | float _ => "float"
  | number _ => "Decimal"
  | text _ => "str"
  | list _ => "list"
  | object _ => "dict"

mutual

/-- A value as messages quote it. -/
def literal : Value → String
  | null => "None"
  | bool true => "True"
  | bool false => "False"
  | int n => toString n
  | float x => x.toText
  | number n => "Decimal(" ++ Text.quoted n.toText ++ ")"
  | text s => Text.quoted s
  | list items => "[" ++ ", ".intercalate (itemLiterals items) ++ "]"
  | object fields => "\x7b" ++ ", ".intercalate (fieldLiterals fields) ++ "\x7d"

/-- The quoted forms of the items of a list. -/
def itemLiterals : List Value → List String
  | [] => []
  | v :: rest => literal v :: itemLiterals rest

/-- The quoted forms of fields: a name, a colon and a value. -/
def fieldLiterals : List (String × Value) → List String
  | [] => []
  | (k, v) :: rest => (Text.quoted k ++ ": " ++ literal v) :: fieldLiterals rest

end

/-- A value as messages show it where it stands alone: a text without quotation marks. -/
def shown : Value → String
  | text s => s
  | v => literal v

/-- Whether a value is the text `s`. -/
def isText (v : Value) (s : String) : Bool :=
  match v with
  | text t => t == s
  | _ => false

end Value

end DealerPay
