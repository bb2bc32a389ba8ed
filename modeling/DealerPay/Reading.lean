import DealerPay.Amount

/-!
# Reading untyped values

A record is read field by field, and all that is wrong with it is reported at once.

* `Refusal` is one reason why a value is refused, `Fault` a reason with its place and the value.
* `Reading` is the outcome: a result, the faults in the order of the fields, or a signal of the
  arithmetic, which ends the reading where it occurs.
* Readings are joined by `<*>`: faults of both sides are kept. `Reading.check` adds a condition on a
  result.
* `Fields.optional`, `Fields.renamed` and `Fields.required` read one field of a record;
  `Value.readItems` reads a list.
* `Source` says where a record comes from, which decides the words about a value that is no record.
-/

namespace DealerPay

/-- One step on the way to a place inside a value. -/
inductive Step where
  /-- Into a field. -/
  | field (name : String)
  /-- Into an item of a list. -/
  | item (index : Nat)
deriving DecidableEq, Repr

/-- A step as it is written in a path. -/
def Step.text : Step → String
  | field name => name
  | item index => toString index

/-- Where a record comes from. -/
inductive Source where
  /-- Handed over directly: a record is named in what is said about it. -/
  | direct
  /-- The body of a request: any object with the right fields would do. -/
  | request
deriving DecidableEq, Repr

/-- Why a value is refused. -/
inductive Refusal where
  /-- A field without a default is not there. -/
  | missing
  /-- A text that should have been data is malformed. -/
  | malformedData
  /-- Not a text. -/
  | notText
  /-- A text that has to be compared with others, but has halves of characters in it. -/
  | unclearText
  /-- Of no sort that a truth value can be read from. -/
  | notBool
  /-- Of such a sort, but neither true nor false. -/
  | unclearBool
  /-- Not a list of fixed content. -/
  | notSequence
  /-- Not a list. -/
  | notList
  /-- Not an object of named values. -/
  | notObject
  /-- Not a record of this name. -/
  | notRecord (name : String)
  /-- Not anything with fields. -/
  | notFields
  /-- None of the words that are allowed. -/
  | notOneOf (words : List String)
  /-- No field that says which kind of record it is. -/
  | kindMissing (field : String)
  /-- A kind that there is not. -/
  | kindUnknown (field tag : String) (words : List String)
  /-- Of no sort that a decimal number can be read from. -/
  | notDecimal
  /-- Of such a sort, but it spells no number. -/
  | unclearDecimal
  /-- An infinity or a marker in place of a number. -/
  | notFinite
  /-- Not an amount. -/
  | amount (e : AmountError)
  /-- Not what the rules of the business allow. -/
  | breach (message : String)
  /-- Of no sort that a date can be read from. -/
  | notDate
  /-- A text or number that is neither a date nor a point in time. -/
  | unclearDate (reason : String)
  /-- A date that the calendar does not have. -/
  | offCalendar (reason : String)
  /-- A point in time that is not the start of a day. -/
  | withinDay
deriving Repr

/-- Words in quotation marks, the last one after an "or". -/
def quotedChoice (words : List String) : String :=
  let marked := words.map fun w => "'" ++ w ++ "'"
  match marked.reverse with
  | [] => ""
  | [only] => only
  | last :: before => ", ".intercalate before.reverse ++ " or " ++ last

namespace Refusal

/-- The name of the sort of refusal. -/
def code : Refusal → String
  | missing => "missing"
  | malformedData => "json_invalid"
  | notText => "string_type"
  | unclearText => "string_unicode"
  | notBool => "bool_type"
  | unclearBool => "bool_parsing"
  | notSequence => "tuple_type"
  | notList => "list_type"
  | notObject => "dict_type"
  | notRecord _ => "model_type"
  | notFields => "model_attributes_type"
  | notOneOf _ => "literal_error"
  | kindMissing _ => "union_tag_not_found"
  | kindUnknown _ _ _ => "union_tag_invalid"
  | notDecimal => "decimal_type"
  | unclearDecimal => "decimal_parsing"
  | notFinite => "finite_number"
  | amount _ => "value_error"
  | breach _ => "value_error"
  | notDate => "date_type"
  | unclearDate _ => "date_from_datetime_parsing"
  | offCalendar _ => "date_parsing"
  | withinDay => "date_from_datetime_inexact"

/-- What is said about the value. -/
def message : Refusal → String
  | missing => "Field required"
  | malformedData => "JSON decode error"
  | notText => "Input should be a valid string"
  | unclearText => "Input should be a valid string, unable to parse raw data as a unicode string"
  | notBool => "Input should be a valid boolean"
  | unclearBool => "Input should be a valid boolean, unable to interpret input"
  | notSequence => "Input should be a valid tuple"
  | notList => "Input should be a valid list"
  | notObject => "Input should be a valid dictionary"
  | notRecord name => "Input should be a valid dictionary or instance of " ++ name
  | notFields => "Input should be a valid dictionary or object to extract fields from"
  | notOneOf words => "Input should be " ++ quotedChoice words
  | kindMissing field => "Unable to extract tag using discriminator '" ++ field ++ "'"
  | kindUnknown field tag words =>
    "Input tag '" ++ tag ++ "' found using '" ++ field
      ++ "' does not match any of the expected tags: "
      ++ ", ".intercalate (words.map fun w => "'" ++ w ++ "'")
  | notDecimal => "Decimal input should be an integer, float, string or Decimal object"
  | unclearDecimal => "Input should be a valid decimal"
  | notFinite => "Input should be a finite number"
  | amount e => "Value error, " ++ e.message
  | breach message => "Value error, " ++ message
  | notDate => "Input should be a valid date"
  | unclearDate reason => "Input should be a valid date or datetime, " ++ reason
  | offCalendar reason => "Input should be a valid date in the format YYYY-MM-DD, " ++ reason
  | withinDay => "Datetimes provided to dates should have zero time - e.g. be exact dates"

end Refusal

/-- A refusal with the place of the value, from the outside in. -/
structure Fault where
  /-- The steps that lead to the value. -/
  path : List Step
  /-- Why it is refused. -/
  refusal : Refusal
  /-- What was found at the place; for something missing, the record that it is missing from. -/
  found : Value
deriving Repr

/-- A fault seen from one step further out. -/
def Fault.within (step : Step) (f : Fault) : Fault := { f with path := step :: f.path }

/-- A step as a value. -/
def Step.toValue : Step → Value
  | .field name => .text name
  | .item index => .int index

/-- A fault as a value: its sort, its place and what is said about it. -/
def Fault.toValue (f : Fault) : Value :=
  .object
    [("type", .text f.refusal.code),
     ("loc", .list (f.path.map Step.toValue)),
     ("msg", .text f.refusal.message)]

/-- The outcome of reading a value. -/
inductive Reading (α : Type) where
  /-- The value reads as this. -/
  | accepted (result : α)
  /-- These faults are in it, one at least. -/
  | refused (first : Fault) (rest : List Fault)
  /-- Arithmetic broke the reading off. -/
  | halted (s : Signal)
deriving Repr

namespace Reading

variable {α β : Type}

/-- The result changed, faults and signals kept. -/
def map (f : α → β) : Reading α → Reading β
  | accepted a => accepted (f a)
  | refused first rest => refused first rest
  | halted s => halted s

/-- Two readings one after the other. The second takes place even where the first has faults; a
signal of either ends the whole. -/
def ap (f : Reading (α → β)) (x : Reading α) : Reading β :=
  match f with
  | halted s => halted s
  | accepted g => x.map g
  | refused first rest =>
    match x with
    | halted s => halted s
    | accepted _ => refused first rest
    | refused next more => refused first (rest ++ next :: more)

instance : Functor Reading where
  map f x := x.map f

instance : Applicative Reading where
  pure := accepted
  seq f x := f.ap (x ())

/-- One refusal of the value itself. -/
def refuse (r : Refusal) (v : Value) : Reading α := refused ⟨[], r, v⟩ []

/-- A reading that goes on with the result of another. -/
def andThen (x : Reading α) (f : α → Reading β) : Reading β :=
  match x with
  | accepted a => f a
  | refused first rest => refused first rest
  | halted s => halted s

/-- A reading of a value whose result has to meet a condition. -/
def check (x : Reading α) (ok : α → Bool) (r : Refusal) (v : Value) : Reading α :=
  x.andThen fun a => if ok a then accepted a else refuse r v

/-- A reading seen from one step further out. -/
def within (step : Step) : Reading α → Reading α
  | accepted a => accepted a
  | refused first rest => refused (first.within step) (rest.map (Fault.within step))
  | halted s => halted s

/-- The reading of a value as an amount. -/
def ofAmount (v : Value) : Except Failure α → Reading α
  | .ok a => accepted a
  | .error (.amount e) => refuse (.amount e) v
  | .error (.signal s) => halted s

@[simp] theorem pure_eq (a : α) : (pure a : Reading α) = accepted a := rfl

@[simp] theorem map_accepted (f : α → β) (a : α) : f <$> accepted a = accepted (f a) := rfl

@[simp] theorem accepted_seq_accepted (f : α → β) (a : α) :
    (accepted f : Reading (α → β)) <*> accepted a = accepted (f a) := rfl

/-- Two readings give a result together exactly when each gives one. -/
theorem seq_eq_accepted_iff {f : Reading (α → β)} {x : Reading α} {b : β} :
    f <*> x = accepted b ↔ ∃ g a, f = accepted g ∧ x = accepted a ∧ g a = b := by
  constructor
  · intro h
    cases f with
    | accepted g =>
      cases x with
      | accepted a => exact ⟨g, a, rfl, rfl, by injection h⟩
      | refused first rest => cases h
      | halted s => cases h
    | refused first rest => cases x <;> cases h
    | halted s => cases h
  · rintro ⟨g, a, rfl, rfl, rfl⟩
    rfl

end Reading

/-! ## Plain values -/

namespace Value

/-- The words for true, in lower case. -/
def trueWords : List String := ["1", "t", "y", "on", "yes", "true"]

/-- The words for false, in lower case. -/
def falseWords : List String := ["0", "f", "n", "no", "off", "false"]

/-- What a word means as a truth value, whatever the case of its letters. -/
def boolOfWord? (s : String) : Option Bool :=
  let w := String.ofList (s.toList.map Char.toLower)
  if falseWords.contains w then some false
  else if trueWords.contains w then some true
  else none

/-- The number of integers of 64 bits that are below zero. -/
def wordLimit : Int := 9223372036854775808

/-- Integers of 64 bits, among which a truth value is looked for. -/
def inWordRange (n : Int) : Bool := -wordLimit ≤ n && n < wordLimit

/-- What an integer means as a truth value: one or zero. -/
def boolOfInt? (n : Int) : Option Bool :=
  if n = 0 then some false else if n = 1 then some true else none

/-- The integer below 2^63 in magnitude that a floating-point number is. -/
def wordOfFloat? : Binary64 → Option Int
  | .finite negative mantissa power =>
    let n := Binary64.floor negative mantissa power
    if Binary64.isWhole mantissa power && -wordLimit < n && n < wordLimit then some n else none
  | _ => none

/-- A value of a sort that a truth value can be read from, as what it means. -/
def ofBool? (v : Value) : Option Bool → Reading Bool
  | some b => .accepted b
  | none => .refuse .unclearBool v

/-- A truth value. -/
def readBool (v : Value) : Reading Bool :=
  match v with
  | bool b => .accepted b
  | text s => if Text.isWhole s then v.ofBool? (boolOfWord? s) else .refuse .unclearText v
  | int n => if inWordRange n then v.ofBool? (boolOfInt? n) else .refuse .notBool v
  | float x =>
    match wordOfFloat? x with
    | some n => v.ofBool? (boolOfInt? n)
    | none => .refuse .notBool v
  | _ => .refuse .notBool v

/-- A text. -/
def readText : Value → Reading String
  | text s => .accepted s
  | v => .refuse .notText v

/-- Why a value is none of several words. -/
def wordRefusal (words : List String) : Value → Refusal
  | text s => if Text.isWhole s then .notOneOf words else .unclearText
  | _ => .notOneOf words

/-- One of several words, by its meaning. -/
def readWord {α : Type} (choices : List (String × α)) (v : Value) : Reading α :=
  match choices.find? fun c => v.isText c.1 with
  | some c => .accepted c.2
  | none => .refuse (v.wordRefusal (choices.map (·.1))) v

/-- An amount. -/
def readAmount (v : Value) : Reading Decimal := .ofAmount v (Amount.ofValue v)

/-- An amount that may be absent. -/
def readOptionalAmount (v : Value) : Reading (Option Decimal) := .ofAmount v (Amount.optional v)

/-- A finite decimal number of any size. -/
def readDecimal (v : Value) : Reading Decimal :=
  match v with
  | null | bool _ | list _ | object _ => .refuse .notDecimal v
  | _ =>
    match Amount.numeral? v with
    | some (.finite d) => .accepted d
    | some _ => .refuse .notFinite v
    | none => .refuse .unclearDecimal v

/-- Readings of the items of a list, with their places. -/
def readEach {α : Type} (read : Value → Reading α) : Nat → List Value → Reading (List α)
  | _, [] => .accepted []
  | i, v :: rest => List.cons <$> (read v).within (.item i) <*> readEach read (i + 1) rest

/-- A list, read item by item. `refusal` is said of a value that is no list. -/
def readItems {α : Type} (refusal : Refusal) (read : Value → Reading α) :
    Value → Reading (List α)
  | list items => readEach read 0 items
  | v => .refuse refusal v

/-- The fields of a record. -/
def readFields (source : Source) (name : String) : Value → Reading Fields
  | object fields => .accepted fields
  | v =>
    match source with
    | .direct => .refuse (.notRecord name) v
    | .request => .refuse .notFields v

/-- A record, read field by field. -/
def readRecord {α : Type} (source : Source) (name : String) (read : Fields → Reading α)
    (v : Value) : Reading α :=
  (v.readFields source name).andThen read

end Value

/-! ## Fields -/

namespace Fields

variable {α : Type}

/-- A field with a default. -/
def optional (fs : Fields) (key : String) (default : α) (read : Value → Reading α) : Reading α :=
  match fs.get? key with
  | some v => (read v).within (.field key)
  | none => .accepted default

/-- A field with a default and two names, of which the first counts where both are there. -/
def renamed (fs : Fields) (key second : String) (default : α) (read : Value → Reading α) :
    Reading α :=
  match fs.get? key with
  | some v => (read v).within (.field key)
  | none => fs.optional second default read

/-- A field without a default. -/
def required (fs : Fields) (key : String) (read : Value → Reading α) : Reading α :=
  match fs.get? key with
  | some v => (read v).within (.field key)
  | none => (Reading.refuse .missing (.object fs)).within (.field key)

end Fields

end DealerPay
