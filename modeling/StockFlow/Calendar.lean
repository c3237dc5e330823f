/-!
# Dates and moments

Calendar dates and times of day as documents declare them, with or without an offset from
universal time. `Date.ofParts?` and `Moment.ofParts?` accept exactly the dates of the years 1 to
9999 and the times of a day.
-/

namespace StockFlow

/-- A day of the calendar. -/
structure Date where
  year : Nat
  month : Nat
  day : Nat
deriving DecidableEq

/-- A time of a day, with the offset from universal time in minutes where one is given. -/
structure Moment where
  date : Date
  hour : Nat
  minute : Nat
  second : Nat
  microsecond : Nat
  offset : Option Int
deriving DecidableEq

/-- A number in decimal digits, filled up with zeros. -/
def decimalPadded (width n : Nat) : String :=
  let digits := Nat.toDigits 10 n
  String.ofList (List.replicate (width - digits.length) '0' ++ digits)

namespace Date

/-- Whether a year has a twenty-ninth day of February. -/
def isLeap (year : Nat) : Bool :=
  year % 4 == 0 && (year % 100 != 0 || year % 400 == 0)

/-- The number of days of a month. -/
def daysIn (year month : Nat) : Nat :=
  if month = 2 then (if isLeap year then 29 else 28)
  else if month = 4 ∨ month = 6 ∨ month = 9 ∨ month = 11 then 30
  else 31

/-- The date with the given parts, if the calendar has it. -/
def ofParts? (year month day : Nat) : Option Date :=
  if 1 ≤ year ∧ year ≤ 9999 ∧ 1 ≤ month ∧ month ≤ 12 ∧ 1 ≤ day ∧ day ≤ daysIn year month then
    some ⟨year, month, day⟩
  else none

/-- The number of days before a date, counted from the beginning of the year 1. -/
def dayNumber (d : Date) : Nat :=
  let y := d.year - 1
  let months := (List.range (d.month - 1)).foldl (fun days m => days + daysIn d.year (m + 1)) 0
  365 * y + y / 4 - y / 100 + y / 400 + months + (d.day - 1)

/-- The text of a date. -/
def text (d : Date) : String :=
  decimalPadded 4 d.year ++ "-" ++ decimalPadded 2 d.month ++ "-" ++ decimalPadded 2 d.day

/-- The parts of a date, separated by commas. -/
def parts (d : Date) : String :=
  toString d.year ++ ", " ++ toString d.month ++ ", " ++ toString d.day

/-- The form in which a date stands inside a list or a message. -/
def literal (d : Date) : String :=
  "datetime.date(" ++ d.parts ++ ")"

end Date

namespace Moment

/-- The moment with the given parts, if a day has that time and the offset is shorter than a
day. -/
def ofParts? (date : Date) (hour minute second microsecond : Nat) (offset : Option Int) :
    Option Moment :=
  if hour < 24 ∧ minute < 60 ∧ second < 60 ∧ microsecond < 1000000 ∧
      offset.all (fun o => -1440 < o ∧ o < 1440) then
    some ⟨date, hour, minute, second, microsecond, offset⟩
  else none

/-- The seconds since the beginning of the year 1, by the clock of the moment. -/
def clockSeconds (m : Moment) : Nat :=
  m.date.dayNumber * 86400 + m.hour * 3600 + m.minute * 60 + m.second

/-- Whether two moments are the same point in time. A moment with an offset never equals one
without. -/
def sameMoment (m n : Moment) : Bool :=
  match m.offset, n.offset with
  | none, none => m = n
  | some o, some p =>
    m.microsecond == n.microsecond &&
      (m.clockSeconds : Int) - 60 * o == (n.clockSeconds : Int) - 60 * p
  | _, _ => false

/-- The text of an offset, with its sign. -/
def offsetText (offset : Int) : String :=
  let minutes := offset.natAbs
  (if offset < 0 then "-" else "+") ++ decimalPadded 2 (minutes / 60) ++ ":" ++
    decimalPadded 2 (minutes % 60)

/-- The text of a moment. The fraction of a second stands only if it is not zero. -/
def text (m : Moment) : String :=
  m.date.text ++ " " ++ decimalPadded 2 m.hour ++ ":" ++ decimalPadded 2 m.minute ++ ":" ++
    decimalPadded 2 m.second ++
    (if m.microsecond = 0 then "" else "." ++ decimalPadded 6 m.microsecond) ++
    (m.offset.map offsetText).getD ""

/-- The form in which a span of whole minutes, shorter than a day, stands inside a message. -/
def spanLiteral (minutes : Int) : String :=
  let days := if minutes < 0 then "days=-1, " else ""
  "datetime.timedelta(" ++ days ++ "seconds=" ++ toString ((60 * minutes) % 86400) ++ ")"

/-- The form in which an offset stands inside a message. -/
def offsetLiteral (offset : Int) : String :=
  if offset = 0 then "datetime.timezone.utc"
  else "datetime.timezone(" ++ spanLiteral offset ++ ")"

/-- The form in which a moment stands inside a list or a message. Seconds and fractions that are
zero are left out from the end. -/
def literal (m : Moment) : String :=
  let fraction := if m.microsecond = 0 then "" else ", " ++ toString m.microsecond
  let seconds :=
    if m.microsecond = 0 ∧ m.second = 0 then "" else ", " ++ toString m.second ++ fraction
  let zone := (m.offset.map fun o => ", tzinfo=" ++ offsetLiteral o).getD ""
  "datetime.datetime(" ++ m.date.parts ++ ", " ++ toString m.hour ++ ", " ++ toString m.minute ++
    seconds ++ zone ++ ")"

end Moment

end StockFlow
