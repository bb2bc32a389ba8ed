import DealerPay.Value

/-!
# Amounts

Every amount, rate and count is a decimal number of magnitude below 10^15.

* `Amount.ofValue` reads one: an absent value or an empty text is zero, a number or a text that
  spells one is taken digit by digit, and everything else is an `AmountError`.
* `Amount.cents` is the nearest cent of a value.
* `Amount.dollars` and `Amount.plain` are the two ways in which amounts are shown: in whole dollars,
  and as a number without an exponent and without zeros at its end.
* `Failure` joins the two ways in which a computation with amounts can fail.

The range is checked on the magnitude at working precision, which a number just below the limit can
reach by rounding, and which a number of a million digits cannot be computed of at all.
-/

namespace DealerPay

/-- Why a value is not an amount. -/
inductive AmountError where
  /-- It does not spell a number. -/
  | notNumber (v : Value)
  /-- It spells an infinity or a marker in place of a number. -/
  | notFinite (v : Value)
  /-- Its magnitude is not below the limit. -/
  | outOfRange (v : Value)
deriving Repr

/-- Why a computation with amounts has no result. -/
inductive Failure where
  /-- A value is not an amount. -/
  | amount (e : AmountError)
  /-- Arithmetic has no result. -/
  | signal (s : Signal)
deriving Repr

instance : MonadLift (Except Signal) (Except Failure) := ⟨fun x => x.mapError .signal⟩

namespace Amount

/-- The magnitude that every amount is below. -/
def limit : Decimal := ⟨false, 1, 15⟩

end Amount

/-- What is said of a value that is not an amount. -/
def AmountError.message : AmountError → String
  | notNumber v => "not a number: " ++ v.literal
  | notFinite v => "not a finite number: " ++ v.literal
  | outOfRange v => "out of range (must be below " ++ Amount.limit.grouped ++ "): " ++ v.literal

namespace Amount

/-- The numeral that a value is or spells. -/
def numeral? : Value → Option Numeral
  | .number n => some n
  | .int n => some (.finite (Decimal.ofInt n))
  | .float x => Numeral.ofText? x.toText
  | .text s => Numeral.ofText? s
  | _ => none

/-- Whether a value stands for no amount at all. -/
def isAbsent : Value → Bool
  | .null => true
  | v => v.isText ""

/-- The amount that a value means. -/
def ofValue (v : Value) : Except Failure Decimal :=
  if isAbsent v then .ok Decimal.zero
  else
    match numeral? v with
    | none => .error (.amount (.notNumber v))
    | some (.finite d) =>
      match d.magnitude with
      | .error s => .error (.signal s)
      | .ok m => if limit ≤ m then .error (.amount (.outOfRange v)) else .ok d
    | some _ => .error (.amount (.notFinite v))

/-- The amount that a value means, where an absent value stays absent. -/
def optional (v : Value) : Except Failure (Option Decimal) :=
  if isAbsent v then .ok none else (ofValue v).map some

/-- A number as the amount that it is, if it is in range. -/
def ofDecimal (d : Decimal) : Except Failure Decimal := ofValue (.ofDecimal d)

/-- The nearest cent of a value. A number is taken as it is, whatever its size. -/
def cents : Value → Except Failure Numeral
  | .number n => (n.toCents).mapError .signal
  | v => do
    let d ← ofValue v
    return .finite (← d.toCents)

/-- An amount in whole dollars, ties to even; what is no amount counts as nothing. -/
def dollars (v : Value) : Except Signal String :=
  match ofValue v with
  | .ok d => .ok ("$" ++ d.grouped)
  | .error (.amount _) => .ok "$0"
  | .error (.signal s) => .error s

/-- An amount as a number without an exponent and without zeros at the end of its decimals. -/
def plain (v : Value) : Except Failure String := do
  let d ← ofValue v
  return (← d.normalize).positional

/-- A number shown as amounts are. -/
def plainText (d : Decimal) : Except Failure String := plain (.ofDecimal d)

end Amount

end DealerPay
