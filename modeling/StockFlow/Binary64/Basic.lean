/-!
# Binary floating-point numbers of 64 bits

This module holds the numbers of the binary64 format as exact data: a sign, a whole mantissa and a
power of two, in the one canonical form that every number has. Every operation computes the exact
result first and rounds it once, to the nearest number of the format with a half going to the even
mantissa, so that each law about an operation splits into a law of whole numbers and the law of
`Binary64.ofRatio`.
-/

namespace StockFlow

/-- The mantissas and exponents that the format keeps: 53 bits at most, and the highest bit is set
unless the exponent is the least one. -/
def Binary64.Canonical (mantissa : Nat) (exponent : Int) : Prop :=
  mantissa < Nat.pow 2 53 ∧ -1074 ≤ exponent ∧ exponent ≤ 971 ∧
    (Nat.pow 2 52 ≤ mantissa ∨ exponent = -1074)

instance (mantissa : Nat) (exponent : Int) : Decidable (Binary64.Canonical mantissa exponent) := by
  unfold Binary64.Canonical; infer_instance

/-- A number of the binary64 format. There is one value that is not a number, two infinities, and
the finite numbers `± mantissa * 2 ^ exponent`, among them a zero of either sign. -/
inductive Binary64 where
  | nan
  | infinity (negative : Bool)
  | finite (negative : Bool) (mantissa : Nat) (exponent : Int)
      (canonical : Binary64.Canonical mantissa exponent)
deriving DecidableEq

/-- The nearest whole number to `num / den`, a half going to the even neighbour. -/
def roundHalfEven (num den : Nat) : Nat :=
  let quotient := num / den
  let twice := 2 * (num % den)
  if twice < den then quotient
  else if den < twice then quotient + 1
  else if quotient % 2 = 0 then quotient else quotient + 1

/-- The numerator and denominator of `num / den * 2 ^ shift`. -/
def scaleRatio (num den : Nat) (shift : Int) : Nat × Nat :=
  (num * Nat.pow 2 shift.toNat, den * Nat.pow 2 (-shift).toNat)

/-- The greatest `k` with `2 ^ k ≤ num / den`, for a positive quotient. -/
def floorLog2 (num den : Nat) : Int :=
  let k : Int := (Nat.log2 num : Int) - Nat.log2 den
  let (n, d) := scaleRatio num den (-k)
  if d ≤ n then k else k - 1

namespace Binary64

instance : Inhabited Binary64 := ⟨.nan⟩

/-- The zero of a given sign. -/
def zero (negative : Bool) : Binary64 :=
  .finite negative 0 (-1074) (by decide)

/-- One half. -/
def half : Binary64 :=
  .finite false (Nat.pow 2 52) (-53) (by decide)

/-- The number `± mantissa * 2 ^ exponent` for a mantissa of at most 53 bits or `2 ^ 53`; it is
infinite when the exponent has left the format. -/
def ofRounded (negative : Bool) (mantissa : Nat) (exponent : Int) : Binary64 :=
  let m := if mantissa = Nat.pow 2 53 then Nat.pow 2 52 else mantissa
  let e := if mantissa = Nat.pow 2 53 then exponent + 1 else exponent
  if h : Canonical m e then .finite negative m e h else .infinity negative

/-- The number nearest to `± num / den`; beyond the greatest finite number it is infinite. -/
def ofRatio (negative : Bool) (num den : Nat) : Binary64 :=
  if num = 0 then zero negative
  else
    let exponent := max (floorLog2 num den - 52) (-1074)
    let (n, d) := scaleRatio num den (-exponent)
    ofRounded negative (roundHalfEven n d) exponent

/-- The number nearest to `± mantissa * 2 ^ exponent`, of any size. -/
def ofDyadic (negative : Bool) (mantissa : Nat) (exponent : Int) : Binary64 :=
  let (n, d) := scaleRatio mantissa 1 exponent
  ofRatio negative n d

/-- The number nearest to a whole number, which is infinite when that is out of range. -/
def ofInt (n : Int) : Binary64 :=
  ofRatio (n < 0) n.natAbs 1

/-- Whether a number is finite. -/
def isFinite : Binary64 → Bool
  | .finite .. => true
  | _ => false

/-- Whether a number is a zero of either sign. -/
def isZero : Binary64 → Bool
  | .finite _ m _ _ => m = 0
  | _ => false

/-- The number with the other sign. -/
def neg : Binary64 → Binary64
  | .nan => .nan
  | .infinity s => .infinity (!s)
  | .finite s m e h => .finite (!s) m e h

/-- A mantissa with its sign, at a power of two that is at most its own. -/
def signedAt (negative : Bool) (mantissa : Nat) (exponent base : Int) : Int :=
  let scaled : Int := mantissa * Nat.pow 2 (exponent - base).toNat
  if negative then -scaled else scaled

/-- The sum. An exact zero is negative only if both terms are. -/
def add : Binary64 → Binary64 → Binary64
  | .nan, _ => .nan
  | _, .nan => .nan
  | .infinity s, .infinity t => if s = t then .infinity s else .nan
  | .infinity s, _ => .infinity s
  | _, .infinity t => .infinity t
  | .finite s m e _, .finite t n f _ =>
    let base := min e f
    let sum := signedAt s m e base + signedAt t n f base
    if sum = 0 then zero (s && t) else ofDyadic (sum < 0) sum.natAbs base

/-- The difference. -/
def sub (x y : Binary64) : Binary64 := add x y.neg

/-- The product. -/
def mul : Binary64 → Binary64 → Binary64
  | .nan, _ => .nan
  | _, .nan => .nan
  | .infinity s, .infinity t => .infinity (s != t)
  | .infinity s, .finite t n _ _ => if n = 0 then .nan else .infinity (s != t)
  | .finite s m _ _, .infinity t => if m = 0 then .nan else .infinity (s != t)
  | .finite s m e _, .finite t n f _ => ofDyadic (s != t) (m * n) (e + f)

/-- The quotient by a positive whole number. -/
def divNat (x : Binary64) (d : Nat) : Binary64 :=
  match x with
  | .nan => .nan
  | .infinity s => .infinity s
  | .finite s m e _ =>
    let (n, k) := scaleRatio m d e
    ofRatio s n k

/-- The greatest whole number that is not above a finite number. -/
def floor? : Binary64 → Option Int
  | .finite s m e _ =>
    let (n, d) := scaleRatio m 1 e
    let signed : Int := if s then -(n : Int) else n
    some (Int.fdiv signed d)
  | _ => none

/-- Whether a finite number equals a whole number. -/
def equalsInt (x : Binary64) (n : Int) : Bool :=
  match x with
  | .finite s m e _ =>
    let (a, d) := scaleRatio m 1 e
    let signed : Int := if s then -(a : Int) else a
    signed == n * d
  | _ => false

/-- Equality as numbers: both zeros are equal, and what is not a number equals nothing. -/
def sameNumber (x y : Binary64) : Bool :=
  match x, y with
  | .nan, _ => false
  | _, .nan => false
  | .infinity s, .infinity t => s == t
  | .finite s m e _, .finite t n f _ => (m == 0 && n == 0) || (s == t && m == n && e == f)
  | _, _ => false

end Binary64

end StockFlow
