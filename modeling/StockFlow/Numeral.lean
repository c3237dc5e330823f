import StockFlow.Binary64.Decimal
import StockFlow.Datum.Display
import StockFlow.Number
import StockFlow.Text.Blank
import StockFlow.Text.DecimalDigit
/-!
# Numerals

Texts that stand for numbers. A whole numeral is an optional sign and decimal digits of any script,
with single underscores between digits, at most 4300 digits in all. A decimal numeral may have a
point and an exponent besides. `parseNumber` reads a text with blanks around it as a whole number if
it can, as a finite binary64 number otherwise; a text with surrogates is no number.
-/

namespace StockFlow

/-- An optional sign, and what follows it. -/
def splitSign : List Char → Bool × List Char
  | '-' :: rest => (true, rest)
  | '+' :: rest => (false, rest)
  | cs => (false, cs)

/-- Digits with single underscores between neighbours, read as their values. -/
def underscoredDigits? : List Char → Option (List Nat)
  | [] => none
  | [c] => (digitValue? c).map fun d => [d]
  | c :: '_' :: rest => do
    let d ← digitValue? c
    let ds ← underscoredDigits? rest
    return d :: ds
  | c :: rest => do
    let d ← digitValue? c
    let ds ← underscoredDigits? rest
    return d :: ds

/-- The positional value of digits. -/
def positional (base : Nat) (digits : List Nat) : Nat :=
  digits.foldl (fun value digit => base * value + digit) 0

/-- The whole number that a whole numeral stands for. -/
def wholeNumeral? (cs : List Char) : Option Int :=
  let (negative, body) := splitSign cs
  match underscoredDigits? body with
  | none => none
  | some digits =>
    if maxDigits < digits.length then none
    else
      let value : Int := positional 10 digits
      some (if negative then -value else value)

/-- A decimal digit of any script as the ASCII digit of its value; other characters as they are. -/
def plainDigit (c : Char) : Char :=
  match digitValue? c with
  | some d => Nat.digitChar d
  | none => c

/-- The characters without underscores, each of which has to stand between two ASCII digits. -/
def dropUnderscores? (previous : Option Char) : List Char → Option (List Char)
  | [] => if previous = some '_' then none else some []
  | '_' :: rest =>
    if previous.any Char.isDigit then dropUnderscores? (some '_') rest else none
  | c :: rest =>
    if previous = some '_' ∧ ¬c.isDigit then none
    else (dropUnderscores? (some c) rest).map (c :: ·)

/-- An exponent after its letter. -/
def exponent? (cs : List Char) : Option Int :=
  let (negative, digits) := splitSign cs
  if digits.isEmpty ∨ ¬digits.all Char.isDigit then none
  else
    let value : Int := positional 10 (digits.map fun c => c.toNat - 48)
    some (if negative then -value else value)

/-- The value of ASCII digits. -/
def digitsValue (cs : List Char) : Nat :=
  positional 10 (cs.map fun c => c.toNat - 48)

/-- A decimal numeral of ASCII characters without its sign: digits with a point before, between or
after them, and an optional exponent. -/
def unsignedDecimal? (negative : Bool) (cs : List Char) : Option Binary64 :=
  let whole := cs.takeWhile Char.isDigit
  let afterWhole := cs.dropWhile Char.isDigit
  let (fraction, rest) :=
    match afterWhole with
    | '.' :: more => (more.takeWhile Char.isDigit, more.dropWhile Char.isDigit)
    | more => ([], more)
  if whole.isEmpty ∧ fraction.isEmpty then none
  else
    let value := fun (exponent : Int) =>
      Binary64.ofDecimal negative (digitsValue (whole ++ fraction)) (exponent - fraction.length)
    match rest with
    | [] => some (value 0)
    | c :: more => if c = 'e' ∨ c = 'E' then (exponent? more).map value else none

/-- The number that a decimal numeral or the name of a number that is not finite stands for. -/
def decimalNumeral? (cs : List Char) : Option Binary64 := do
  let plain ← dropUnderscores? none (cs.map plainDigit)
  let (negative, body) := splitSign plain
  let word := String.ofList (body.map Char.toLower)
  if word = "inf" ∨ word = "infinity" then return .infinity negative
  else if word = "nan" then return .nan
  else unsignedDecimal? negative body

/-- The number that a numeral stands for: a whole number if it can be read as one, and a finite
binary64 number otherwise. -/
def numeral? (cs : List Char) : Option Number :=
  match wholeNumeral? cs with
  | some n => some (.int n)
  | none =>
    match decimalNumeral? cs with
    | some x => if x.isFinite then some (.float x) else none
    | none => none

/-- The number that a text stands for, blanks around it aside; only finite numbers count. -/
def parseNumber (s : Text) : Option Number := s.trim.chars?.bind numeral?

/-- The number that bytes stand for, plain blanks around them aside. Only ASCII can be read. -/
def parseNumberBytes (bs : List UInt8) : Option Number :=
  let cs := bs.map fun b => Char.ofNat b.toNat
  if cs.all isPlain then numeral? (trimBy isPlainBlank cs) else none

end StockFlow
