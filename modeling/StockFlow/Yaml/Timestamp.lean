import StockFlow.Calendar
import StockFlow.Numeral
/-!
# Dates in YAML texts

Reads a date, or a date with a time of day and perhaps an offset from universal time, from the
characters of a scalar. A text of another shape is told apart from one of the right shape that is no
date.
-/

namespace StockFlow.Yaml

/-- A number of digits between two bounds, as many as there are. -/
def takeDigits? (least most : Nat) (cs : List Char) : Option (Nat × List Char) :=
  let digits := (cs.take most).takeWhile Char.isDigit
  if digits.length < least then none else some (digitsValue digits, cs.drop digits.length)

/-- What follows a fixed character. -/
def dropChar? (c : Char) : List Char → Option (List Char)
  | d :: rest => if c = d then some rest else none
  | [] => none

/-- Whether a character is a space or a tab. -/
def isSpaceOrTab (c : Char) : Bool := c == ' ' || c == '\t'

/-- What follows the mark between a date and a time: a letter, or blanks. -/
def dropTimeMark? : List Char → Option (List Char)
  | c :: rest =>
    if c = 'T' ∨ c = 't' then some rest
    else if isSpaceOrTab c then some (rest.dropWhile isSpaceOrTab)
    else none
  | [] => none

/-- The fraction of a second in microseconds, further digits being dropped. -/
def takeFraction (cs : List Char) : Nat × List Char :=
  match cs with
  | '.' :: rest =>
    let digits := rest.takeWhile Char.isDigit
    let six := digits.take 6
    (digitsValue (six ++ List.replicate (6 - six.length) '0'), rest.drop digits.length)
  | cs => (0, cs)

/-- The minutes of an offset behind its hours. -/
def takeOffsetMinutes? : List Char → Option (Nat × List Char)
  | ':' :: rest => takeDigits? 2 2 rest
  | cs => some (0, cs)

/-- The offset at the end of a time in minutes, or none. -/
def takeOffset? (cs : List Char) : Option (Option Int) :=
  match cs.dropWhile isSpaceOrTab with
  | [] => if cs.isEmpty then some none else none
  | 'Z' :: rest => if rest.isEmpty then some (some 0) else none
  | sign :: rest =>
    if sign = '+' ∨ sign = '-' then
      match takeDigits? 1 2 rest with
      | none => none
      | some (hours, rest) =>
        match takeOffsetMinutes? rest with
        | some (minutes, []) =>
          let offset : Int := 60 * hours + minutes
          some (some (if sign = '-' then -offset else offset))
        | _ => none
    else none

/-- The parts of a time of day: hour, minute, second, microsecond and offset. -/
structure TimeParts where
  hour : Nat
  minute : Nat
  second : Nat
  microsecond : Nat
  offset : Option Int

/-- The time of day that the characters describe. -/
def takeTime? (cs : List Char) : Option TimeParts := do
  let (hour, cs) ← takeDigits? 1 2 cs
  let (minute, cs) ← takeDigits? 2 2 (← dropChar? ':' cs)
  let (second, cs) ← takeDigits? 2 2 (← dropChar? ':' cs)
  let (microsecond, cs) := takeFraction cs
  let offset ← takeOffset? cs
  return { hour, minute, second, microsecond, offset }

/-- The year, month and day that the characters begin with. -/
def takeDate? (cs : List Char) : Option (Nat × Nat × Nat × List Char) := do
  let (year, cs) ← takeDigits? 4 4 cs
  let (month, cs) ← takeDigits? 1 2 (← dropChar? '-' cs)
  let (day, cs) ← takeDigits? 1 2 (← dropChar? '-' cs)
  return (year, month, day, cs)

/-- The value of a date, or a failure if the calendar or the clock does not have it. -/
def timestampValue (cs : List Char) : Except Failure Atom :=
  let shown := if cs.getLast? = some '\n' then cs.dropLast else cs
  match takeDate? shown with
  | none => .error .wrongType
  | some (year, month, day, []) =>
    match Date.ofParts? year month day with
    | some d => .ok (.date d)
    | none => .error .badValue
  | some (year, month, day, rest) =>
    match (dropTimeMark? rest).bind takeTime? with
    | none => .error .wrongType
    | some t =>
      match Date.ofParts? year month day with
      | none => .error .badValue
      | some d =>
        match Moment.ofParts? d t.hour t.minute t.second t.microsecond t.offset with
        | some m => .ok (.moment m)
        | none => .error .badValue

end StockFlow.Yaml
