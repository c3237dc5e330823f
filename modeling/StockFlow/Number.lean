import StockFlow.Datum.Part
import StockFlow.Failure
/-!
# Numbers

Whole numbers of any size and binary64 numbers, which are never turned into each other silently:
sums, differences and products of whole numbers are whole, and an operation on both kinds is done
in binary64. A whole number beyond the range of binary64 cannot take part in the latter.
-/

namespace StockFlow

/-- A number. -/
inductive Number where
  | int (n : Int)
  | float (x : Binary64)
deriving DecidableEq

/-- A number as a decoded value. -/
def Number.toDatum : Number → Datum
  | .int n => .int n
  | .float x => .float x

/-- The number that a decoded value is. Truth values are no numbers. -/
def Datum.number? : Datum → Option Number
  | .int n => some (.int n)
  | .float x => some (.float x)
  | _ => none

/-- The number that a decoded value counts as in arithmetic, where truth values count as one and
zero. -/
def Datum.operand : Datum → Except Failure Number
  | .bool b => .ok (.int (if b then 1 else 0))
  | .int n => .ok (.int n)
  | .float x => .ok (.float x)
  | _ => .error .wrongType

namespace Number

/-- The binary64 number nearest to a number. -/
def toBinary64 : Number → Except Failure Binary64
  | .float x => .ok x
  | .int n =>
    let x := Binary64.ofInt n
    if x.isFinite then .ok x else .error .overflow

/-- An operation that whole numbers are closed under, and its binary64 companion. -/
def combine (onInt : Int → Int → Int) (onFloat : Binary64 → Binary64 → Binary64)
    (a b : Number) : Except Failure Number :=
  match a, b with
  | .int m, .int n => .ok (.int (onInt m n))
  | a, b => do
    let x ← a.toBinary64
    let y ← b.toBinary64
    return .float (onFloat x y)

/-- The sum. -/
def add : Number → Number → Except Failure Number := combine (· + ·) Binary64.add

/-- The difference. -/
def sub : Number → Number → Except Failure Number := combine (· - ·) Binary64.sub

/-- The product. -/
def mul : Number → Number → Except Failure Number := combine (· * ·) Binary64.mul

/-- A hundredth, in binary64. -/
def hundredth : Number → Except Failure Binary64
  | .float x => .ok (x.divNat 100)
  | .int n =>
    let x := Binary64.ofRatio (n < 0) n.natAbs 100
    if x.isFinite then .ok x else .error .overflow

/-- The nearest whole number, a half going up: the floor of the sum with one half. -/
def roundHalfUp (a : Number) : Except Failure Int := do
  let x ← a.toBinary64
  let sum := x.add .half
  match sum.floor? with
  | some n => return n
  | none => if sum = .nan then throw .badValue else throw .overflow

/-- Whether a number is zero. -/
def isZero : Number → Bool
  | .int n => n == 0
  | .float x => x.isZero

/-- The least number that does not fit into a signed word of 64 bits. -/
def wordBound : Nat := Nat.pow 2 63

/-- The number of copies that a repetition asks for: none for a negative number. Counts that do not
fit into a signed word of 64 bits are refused. -/
def copies (n : Int) : Except Failure Nat :=
  if n < -wordBound ∨ wordBound ≤ n then .error .overflow else .ok n.toNat

/-- The greatest number of items that there is room for. -/
def maxItems : Nat := Nat.pow 2 32

/-- A sequence repeated a number of times. A length that does not fit into a signed word of 64 bits
fails in the given way, and a length that there is no room for runs out of memory. -/
def repeated {α : Type} (tooLong : Failure) (n : Nat) (items : List α) :
    Except Failure (List α) :=
  let length := n * items.length
  if length = 0 then .ok []
  else if wordBound ≤ length then .error tooLong
  else if maxItems < length then .error .outOfMemory
  else .ok (List.replicate n items).flatten

/-- A number times a decoded value: the product of numbers, or the repetition of a text, of bytes
or of a list. -/
def times (a : Number) (d : Datum) : Except Failure Datum :=
  match a, d.opened with
  | .int n, .text s => do
    return .text (← repeated .overflow (← copies n) s)
  | .int n, .bytes bs => do
    return .bytes (← repeated .overflow (← copies n) bs)
  | .int n, .list items => do
    return .list (← repeated .outOfMemory (← copies n) items)
  | a, d => do
    let b ← d.operand
    return (← a.mul b).toDatum

/-- The sum of values from the left, starting at the whole number zero. -/
def sum (values : List Datum) : Except Failure Number :=
  values.foldlM (fun total value => do total.add (← value.operand)) (.int 0)

end Number

end StockFlow
