import DealerPay.Reading

/-!
# Calendar dates

The day on which a deal was made.

* `Date` is a day of the Gregorian calendar in the years 1 to 9999, `Date.toText` its text
  `YYYY-MM-DD`.
* `Date.ofValue` reads one. A text is a date, or a point in time at which a day starts; a number,
  or a text that spells one, counts seconds since the start of 1970, or thousandths of them beyond
  `Moment.secondsLimit`.
* `MomentError` says where a text stops being a date or a point in time.

A text is read by the places that its characters take when it is stored, so `storedChars` repeats
a character for every place. A text with halves of characters in it is not stored at all.
-/

namespace DealerPay

/-! ## The calendar -/

namespace Calendar

/-- Whether a year has a 29th of February. -/
def isLeap (year : Nat) : Bool := year % 4 == 0 && (year % 100 != 0 || year % 400 == 0)

/-- The days of a month. -/
def daysIn (year month : Nat) : Nat :=
  if month = 2 then (if isLeap year then 29 else 28)
  else if month = 4 || month = 6 || month = 9 || month = 11 then 30
  else 31

/-- Whether a day is in the calendar. -/
def isDay (year month day : Nat) : Bool :=
  1 ≤ year && year ≤ 9999 && 1 ≤ month && month ≤ 12 && 1 ≤ day && day ≤ daysIn year month

end Calendar

/-- A day of the calendar. -/
structure Date where
  /-- The year, from 1 to 9999. -/
  year : Nat
  /-- The month, from 1 to 12. -/
  month : Nat
  /-- The day of the month, from 1. -/
  day : Nat
  /-- The calendar has this day. -/
  isDay : Calendar.isDay year month day = true
deriving DecidableEq, Repr

/-- Digits of a number, with zeros in front up to a width. -/
def Calendar.padded (width n : Nat) : List Char :=
  let digits := Decimal.digitChars n
  List.replicate (width - digits.length) '0' ++ digits

/-- The text `YYYY-MM-DD`. -/
def Date.toText (d : Date) : String :=
  String.ofList (Calendar.padded 4 d.year ++ '-' :: Calendar.padded 2 d.month
    ++ '-' :: Calendar.padded 2 d.day)

/-! ## Points in time -/

/-- Why a text or a number is no point in time. -/
inductive MomentError where
  /-- The text ends too early. -/
  | tooShort
  /-- The text goes on behind its end. -/
  | tooLong
  /-- No digit in the year. -/
  | yearChar
  /-- No digit in the month. -/
  | monthChar
  /-- No digit in the day. -/
  | dayChar
  /-- No hyphen between the parts of a date. -/
  | dateMark
  /-- No such month. -/
  | monthRange
  /-- No such day. -/
  | dayRange
  /-- Nothing that separates a date from a time. -/
  | timeMark
  /-- No digit in the hour. -/
  | hourChar
  /-- No colon between the parts of a time. -/
  | colon
  /-- No digit in the minute. -/
  | minuteChar
  /-- No digit in the second. -/
  | secondChar
  /-- No digit behind the point of a second. -/
  | fractionMissing
  /-- No such hour. -/
  | hourRange
  /-- No such minute. -/
  | minuteRange
  /-- No such second. -/
  | secondRange
  /-- No sign of an offset. -/
  | offsetSign
  /-- No digit in the hours of an offset. -/
  | offsetHourChar
  /-- No digit in the minutes of an offset. -/
  | offsetMinuteChar
  /-- No such minutes of an offset. -/
  | offsetMinuteRange
  /-- An offset of a day or more. -/
  | offsetRange
  /-- Before the first year. -/
  | tooEarly
  /-- After the last year. -/
  | tooLate
  /-- A marker in place of a number. -/
  | notNumber
deriving DecidableEq, Repr

/-- What is said of a text or number that is no point in time. -/
def MomentError.message : MomentError → String
  | tooShort => "input is too short"
  | tooLong => "unexpected extra characters at the end of the input"
  | yearChar => "invalid character in year"
  | monthChar => "invalid character in month"
  | dayChar => "invalid character in day"
  | dateMark => "invalid date separator, expected `-`"
  | monthRange => "month value is outside expected range of 1-12"
  | dayRange => "day value is outside expected range"
  | timeMark => "invalid datetime separator, expected `T`, `t`, `_` or space"
  | hourChar => "invalid character in hour"
  | colon => "invalid time separator, expected `:`"
  | minuteChar => "invalid character in minute"
  | secondChar => "invalid character in second"
  | fractionMissing => "second fraction digits missing after `.`"
  | hourRange => "hour value is outside expected range of 0-23"
  | minuteRange => "minute value is outside expected range of 0-59"
  | secondRange => "second value is outside expected range of 0-59"
  | offsetSign => "invalid timezone sign"
  | offsetHourChar => "invalid timezone hour"
  | offsetMinuteChar => "invalid timezone minute"
  | offsetMinuteRange => "timezone minute value is outside expected range of 0-59"
  | offsetRange => "timezone offset must be less than 24 hours"
  | tooEarly => "dates before 0000 are not supported as unix timestamps"
  | tooLate => "dates after 9999 are not supported as unix timestamps"
  | notNumber => "NaN values not permitted"

/-- A day that may lie in a year zero, and whether a point in time is its start. -/
structure Moment where
  /-- The year. -/
  year : Nat
  /-- The month. -/
  month : Nat
  /-- The day of the month. -/
  day : Nat
  /-- Whether the day starts at this point. -/
  atStart : Bool
deriving DecidableEq, Repr

namespace Moment

/-! ## Texts -/

/-- The characters of a text, each as often as the places that it takes when stored. -/
def storedChars (s : String) : List Char :=
  (Text.points s).flatMap fun
    | .char c => List.replicate c.utf8Size c
    | .half _ => []

/-- A digit at the front of a text. -/
def digit (e : MomentError) : List Char → Except MomentError (Nat × List Char)
  | c :: rest => if c.isDigit then .ok (c.toNat - 48, rest) else .error e
  | [] => .error e

/-- Two digits at the front of a text. -/
def twoDigits (e : MomentError) (cs : List Char) : Except MomentError (Nat × List Char) := do
  let (tens, cs) ← digit e cs
  let (ones, cs) ← digit e cs
  return (10 * tens + ones, cs)

/-- A certain character at the front of a text. -/
def mark (e : MomentError) (wanted : Char) : List Char → Except MomentError (List Char)
  | c :: rest => if c = wanted then .ok rest else .error e
  | [] => .error e

/-- A date at the front of a text. -/
def readDay (cs : List Char) : Except MomentError (Moment × List Char) := do
  if cs.length < 10 then throw .tooShort
  let (century, cs) ← twoDigits .yearChar cs
  let (years, cs) ← twoDigits .yearChar cs
  let cs ← mark .dateMark '-' cs
  let (month, cs) ← twoDigits .monthChar cs
  let cs ← mark .dateMark '-' cs
  let (day, cs) ← twoDigits .dayChar cs
  let year := 100 * century + years
  if month < 1 || 12 < month then throw .monthRange
  if day < 1 || Calendar.daysIn year month < day then throw .dayRange
  return (⟨year, month, day, true⟩, cs)

/-- The digits behind the point of a second, cut down to millionths; whether they are all zero. -/
def readFraction (cs : List Char) : Except MomentError (Bool × List Char) :=
  let digits := cs.takeWhile Char.isDigit
  if digits.isEmpty then .error .fractionMissing
  else .ok ((digits.take 6).all (· = '0'), cs.dropWhile Char.isDigit)

/-- Seconds, if there are any; whether they are zero. -/
def readSeconds : List Char → Except MomentError (Bool × List Char)
  | ':' :: rest => do
    let (second, rest) ← twoDigits .secondChar rest
    if 59 < second then throw .secondRange
    match rest with
    | c :: more =>
      if c = '.' || c = ',' then
        let (zero, after) ← readFraction more
        return (second == 0 && zero, after)
      else return (second == 0, rest)
    | [] => return (second == 0, rest)
  | cs => .ok (true, cs)

/-- The hours and minutes of an offset. -/
def readOffset (cs : List Char) : Except MomentError (List Char) := do
  let (hours, cs) ← twoDigits .offsetHourChar cs
  let cs := match cs with
    | ':' :: rest => rest
    | _ => cs
  let (minutes, cs) ← twoDigits .offsetMinuteChar cs
  if 59 < minutes then throw .offsetMinuteRange
  if 24 ≤ hours then throw .offsetRange
  return cs

/-- The end of a point in time: nothing, a letter Z or an offset. The minus sign of an offset may
be the mathematical one, which takes three places. -/
def readZone : List Char → Except MomentError Unit
  | [] => .ok ()
  | c :: rest => do
    let after ←
      if c = 'Z' || c = 'z' then pure rest
      else if c = '+' || c = '-' then readOffset rest
      else if c.toNat = 0x2212 then readOffset (rest.drop 2)
      else throw .offsetSign
    if after.isEmpty then return () else throw .tooLong

/-- A time of day up to the end of a text; whether it is midnight. -/
def readTime (cs : List Char) : Except MomentError Bool := do
  if cs.length < 5 then throw .tooShort
  let (hour, cs) ← twoDigits .hourChar cs
  let cs ← mark .colon ':' cs
  let (minute, cs) ← twoDigits .minuteChar cs
  if 23 < hour then throw .hourRange
  if 59 < minute then throw .minuteRange
  let (zero, cs) ← readSeconds cs
  readZone cs
  return hour == 0 && minute == 0 && zero

/-- A date, or a date and a time. -/
def ofChars (cs : List Char) : Except MomentError Moment := do
  let (moment, rest) ← readDay cs
  match rest with
  | [] => return moment
  | c :: rest =>
    if c = 'T' || c = 't' || c = '_' || c = ' ' then
      return { moment with atStart := ← readTime rest }
    else throw .timeMark

/-! ## Numbers -/

/-- The seconds of a day. -/
def daySeconds : Int := 86400

/-- The millionths of a second. -/
def secondMillionths : Nat := 1000000

/-- A count beyond this is one of thousandths of a second. -/
def secondsLimit : Nat := 20000000000

/-- The first second of the year zero. -/
def firstSecond : Int := -62167219200

/-- The last second of the year 9999. -/
def lastSecond : Int := 253402300799

/-- The day at a distance in days from the first of January 1970. Years are counted from March, so
that the leap day is the last of its year, in cycles of 400 years. -/
def dayAt (days : Int) : Nat × Nat × Nat :=
  let shifted := days + 719468
  let cycle := shifted / 146097
  let inCycle := (shifted % 146097).toNat
  let years := (inCycle - inCycle / 1460 + inCycle / 36524 - inCycle / 146096) / 365
  let inYear := inCycle - (365 * years + years / 4 - years / 100)
  let index := (5 * inYear + 2) / 153
  let day := inYear - (153 * index + 2) / 5 + 1
  let month := if index < 10 then index + 3 else index - 9
  let year := (years : Int) + 400 * cycle + (if month ≤ 2 then 1 else 0)
  (year.toNat, month, day)

/-- The point in time at so many seconds, and so many millionths of a second after them. -/
def ofSeconds (seconds : Int) (millionths : Nat) : Except MomentError Moment :=
  let seconds := seconds + (millionths / secondMillionths : Nat)
  if seconds < firstSecond then .error .tooEarly
  else if lastSecond < seconds then .error .tooLate
  else
    let (year, month, day) := dayAt (seconds / daySeconds)
    .ok ⟨year, month, day, seconds % daySeconds == 0 && millionths % secondMillionths == 0⟩

/-- The point in time at a count of seconds, or of thousandths where it is beyond the limit, and so
many millionths of one after it. Of a thousandth, what is less than a millionth of a second is cut
off. -/
def ofCount (count : Int) (millionths : Nat) : Except MomentError Moment :=
  if count.natAbs ≤ secondsLimit then ofSeconds count millionths
  else ofSeconds (count / 1000) ((count % 1000).toNat * 1000 + millionths / 1000)

/-- The point in time that a floating-point number counts, to the nearest millionth of what it
counts. -/
def ofFloat : Binary64 → Except MomentError Moment
  | .finite negative mantissa power =>
    ofCount (Binary64.floor negative mantissa power)
      ((Binary64.beyondFloor negative mantissa power).times secondMillionths).rounded
  | .infinite negative => .error (if negative then .tooEarly else .tooLate)
  | .notNumber => .error .notNumber

/-- Integers of 64 bits are counted as they are. -/
def ofInt (n : Int) : Except MomentError Moment :=
  if Value.inWordRange n then ofCount n 0 else ofFloat (Binary64.nearest (Decimal.ofInt n))

/-- An integer that a text spells in digits, if it has no more than 64 bits. -/
def integer? (cs : List Char) : Option Int :=
  let (negative, digits) := Numeral.splitSign cs
  if digits.isEmpty || !digits.all Char.isDigit then none
  else
    let magnitude : Int := Numeral.digitsValue digits
    let n := if negative then -magnitude else magnitude
    if Value.inWordRange n then some n else none

/-- A number of any size that a text spells with a point. Without a point neither an exponent nor
digits beyond 64 bits make one. -/
def number? (cs : List Char) : Option Binary64 :=
  let (negative, body) := Numeral.splitSign cs
  if body.contains '.' then
    (Numeral.unsigned? body).map fun d => Binary64.nearest { d with negative := negative }
  else none

/-- The point in time that a text means: a date, a date with a time, or a count. -/
def ofText (s : String) : Except MomentError Moment :=
  let cs := storedChars s
  match ofChars cs with
  | .ok moment => .ok moment
  | .error e =>
    match integer? cs, number? cs with
    | some n, _ => ofInt n
    | none, some x => ofFloat x
    | none, none => .error e

end Moment

/-! ## Reading a date -/

/-- The date that starts at the point in time that a value means. -/
def Date.ofMoment (v : Value) (m : Moment) : Reading Date :=
  if m.atStart then
    if h : Calendar.isDay m.year m.month m.day = true then .accepted ⟨m.year, m.month, m.day, h⟩
    else .refuse (.offCalendar ("year " ++ toString m.year ++ " is out of range")) v
  else .refuse .withinDay v

/-- The date that starts at the point in time that a value means, if it means one. -/
def Date.ofMoment? (v : Value) : Except MomentError Moment → Reading Date
  | .ok m => Date.ofMoment v m
  | .error e => .refuse (.unclearDate e.message) v

/-- The date that a value means. -/
def Date.ofValue (v : Value) : Reading Date :=
  match v with
  | .text s =>
    if Text.isWhole s then Date.ofMoment? v (Moment.ofText s) else .refuse .unclearText v
  | .int n =>
    if Binary64.nearest (Decimal.ofInt n) = .infinite (n < 0) then .refuse .notDate v
    else Date.ofMoment? v (Moment.ofInt n)
  | .float x => Date.ofMoment? v (Moment.ofFloat x)
  | _ => .refuse .notDate v

end DealerPay
