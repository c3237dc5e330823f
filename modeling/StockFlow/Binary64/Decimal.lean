import StockFlow.Binary64.Basic
/-!
# Decimal texts of binary floating-point numbers

A finite number is written with the fewest significant digits that read back as the same number,
and among those texts with the one nearest to it. `Binary64.shortest` finds the digits on the
grids of one, two, and up to seventeen digits; `Binary64.text` lays them out, with a point while
the point stands at most sixteen places to the right and three places to the left of the digits,
and with an exponent otherwise. `Binary64.ofDecimal` reads a decimal number, rounding once.
-/

namespace StockFlow

namespace Binary64

/-! ## From decimal numbers -/

/-- The number nearest to `± digits * 10 ^ exponent`. Far outside the range the answer is known
from the number of digits alone, so no large power is computed. -/
def ofDecimal (negative : Bool) (digits : Nat) (exponent : Int) : Binary64 :=
  let places : Int := (Nat.toDigits 10 digits).length + exponent
  if digits = 0 then zero negative
  else if 400 < places then .infinity negative
  else if places < -400 then zero negative
  else ofRatio negative (digits * Nat.pow 10 exponent.toNat) (Nat.pow 10 (-exponent).toNat)

/-! ## Shortest digits -/

/-- The decimal position of a positive quotient: the least `k` with `num / den < 10 ^ k`. -/
def decimalPosition (num den : Nat) : Int :=
  if den ≤ num then (Nat.toDigits 10 (num / den)).length
  else
    let count := (Nat.toDigits 10 (den / num)).length
    if den ≤ num * Nat.pow 10 (count - 1) then 2 - (count : Int) else 1 - (count : Int)

/-- The numbers that round to one finite positive number: its exact value and the two ends of the
interval, all over one denominator, and whether the ends belong to it. -/
structure Rounding where
  value : Nat
  low : Nat
  high : Nat
  denominator : Nat
  closed : Bool

/-- The interval of numbers that round to `mantissa * 2 ^ exponent`. Below a power of two the next
number is half as far away, except at the least exponent. -/
def rounding (mantissa : Nat) (exponent : Int) : Rounding :=
  let below := if mantissa = Nat.pow 2 52 ∧ -1074 < exponent then 1 else 2
  let scale := Nat.pow 2 (exponent - 2).toNat
  { value := 4 * mantissa * scale
    low := (4 * mantissa - below) * scale
    high := (4 * mantissa + 2) * scale
    denominator := Nat.pow 2 (2 - exponent).toNat
    closed := mantissa % 2 = 0 }

/-- Whether `num / den` lies in the interval. -/
def Rounding.contains (r : Rounding) (num den : Nat) : Bool :=
  let point := num * r.denominator
  let low := r.low * den
  let high := r.high * den
  if r.closed then low ≤ point && point ≤ high else low < point && point < high

/-- The point of the grid of multiples of `10 ^ place` that lies in the interval and is nearest to
its value, as a multiple. -/
def Rounding.onGrid (r : Rounding) (place : Int) : Option Nat :=
  let up := Nat.pow 10 (-place).toNat
  let down := Nat.pow 10 place.toNat
  let below := r.value * up / (r.denominator * down)
  let above := below + 1
  let belowFits := r.contains (below * down) up && below != 0
  let aboveFits := r.contains (above * down) up
  let belowGap := r.value * up - below * down * r.denominator
  let aboveGap := above * down * r.denominator - r.value * up
  match belowFits, aboveFits with
  | true, true =>
    some (if belowGap < aboveGap then below
      else if aboveGap < belowGap then above
      else if below % 2 = 0 then below else above)
  | true, false => some below
  | false, true => some above
  | false, false => none

/-- The fewest digits that read back as `mantissa * 2 ^ exponent`, as a whole number and the power
of ten that it counts. -/
def shortest (mantissa : Nat) (exponent : Int) : Nat × Int :=
  let r := rounding mantissa exponent
  let position := decimalPosition r.value r.denominator
  let hit := (List.range 17).findSome? fun (i : Nat) =>
    let place := position - ((i : Int) + 1)
    (r.onGrid place).map fun digits => (digits, place)
  hit.getD (0, 0)

/-! ## Layout -/

/-- A run of zeros. -/
def zeros (n : Int) : List Char := List.replicate n.toNat '0'

/-- The exponent of a number in scientific layout: its sign and at least two digits. -/
def exponentText (exponent : Int) : List Char :=
  let sign := if exponent < 0 then '-' else '+'
  let digits := Nat.toDigits 10 exponent.natAbs
  'e' :: sign :: (if digits.length < 2 then '0' :: digits else digits)

/-- The layout of significant digits whose decimal point stands `point` places to the right of
their beginning. -/
def layout (digits : List Char) (point : Int) : List Char :=
  if -4 < point ∧ point ≤ 16 then
    if point ≤ 0 then '0' :: '.' :: (zeros (-point) ++ digits)
    else if (digits.length : Int) ≤ point then
      digits ++ zeros (point - digits.length) ++ ['.', '0']
    else digits.take point.toNat ++ '.' :: digits.drop point.toNat
  else
    match digits with
    | [] => []
    | [d] => d :: exponentText (point - 1)
    | d :: rest => d :: '.' :: (rest ++ exponentText (point - 1))

/-- The text of the absolute value of a finite number. -/
def magnitudeText (mantissa : Nat) (exponent : Int) : List Char :=
  if mantissa = 0 then ['0', '.', '0']
  else
    let (whole, place) := shortest mantissa exponent
    let digits := Nat.toDigits 10 whole
    let significant := (digits.reverse.dropWhile (· == '0')).reverse
    layout significant (digits.length + place)

/-- The text of a number. -/
def text : Binary64 → String
  | .nan => "nan"
  | .infinity negative => if negative then "-inf" else "inf"
  | .finite negative m e _ =>
    String.ofList (if negative then '-' :: magnitudeText m e else magnitudeText m e)

end Binary64

end StockFlow
