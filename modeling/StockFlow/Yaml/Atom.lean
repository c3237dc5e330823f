import StockFlow.Yaml.Schema
import StockFlow.Yaml.Timestamp
/-!
# Values of YAML scalars

The value that the text of a scalar stands for, given its kind. A number may be written in ways that
the schema has no pattern for when its kind is given by a tag. Numbers of that sort may have blanks
around them: the plain ones and all those beyond ASCII.
-/

namespace StockFlow.Yaml

/-- Whether a character may stand around a numeral. -/
def isNumeralBlank (c : Char) : Bool := isPlainBlank c || (isBlank c && !isPlain c)

/-- The characters of a numeral without the blanks around them. -/
def trimNumeral (cs : List Char) : List Char := trimBy isNumeralBlank cs

/-- The value of a digit to a base. -/
def baseDigit? (base : Nat) (c : Char) : Option Nat :=
  let value? :=
    match digitValue? c with
    | some d => some d
    | none => Json.hexValue? c
  value?.bind fun d => if d < base then some d else none

/-- The digits behind the mark of a base, if that is there. -/
def dropBaseMark (base : Nat) (cs : List Char) : List Char :=
  let mark? : Option Char :=
    if base = 2 then some 'b' else if base = 8 then some 'o' else if base = 16 then some 'x' else none
  match cs, mark? with
  | '0' :: c :: rest, some mark => if c.toLower = mark then rest else cs
  | cs, _ => cs

/-- The whole number that characters without underscores stand for to a base. -/
def integerOf (base : Nat) (cs : List Char) : Except Failure Int :=
  let (negative, body) := splitSign (trimNumeral cs)
  match (dropBaseMark base body).mapM (baseDigit? base) with
  | none => .error .badValue
  | some digits =>
    if digits.isEmpty ∨ (base = 10 ∧ maxDigits < digits.length) then .error .badValue
    else
      let value : Int := positional base digits
      .ok (if negative then -value else value)

/-- The parts of a text between colons. -/
def splitColons : List Char → List (List Char)
  | [] => [[]]
  | c :: cs =>
    if c = ':' then [] :: splitColons cs
    else
      match splitColons cs with
      | [] => [[c]]
      | part :: parts => (c :: part) :: parts

/-- The value of a whole number. -/
def intValue (cs : List Char) : Except Failure Int := do
  let cs := cs.filter (· != '_')
  if cs.isEmpty then throw .outOfBounds
  let (negative, body) := splitSign cs
  let value ←
    match body with
    | [] => throw .outOfBounds
    | ['0'] => pure 0
    | '0' :: 'b' :: rest => integerOf 2 rest
    | '0' :: 'x' :: rest => integerOf 16 rest
    | '0' :: _ => integerOf 8 body
    | _ =>
      if body.contains ':' then do
        let parts ← (splitColons body).mapM (integerOf 10)
        pure (parts.foldl (fun total part => 60 * total + part) 0)
      else integerOf 10 body
  return if negative then -value else value

/-- The binary64 number that characters stand for. -/
def floatOf (cs : List Char) : Except Failure Binary64 :=
  match decimalNumeral? (trimNumeral cs) with
  | some x => .ok x
  | none => .error .badValue

/-- The sum of the parts of a number to the base sixty, the last part first. -/
def sumSixties (parts : List Binary64) : Except Failure Number := do
  let (total, _) ← parts.reverse.foldlM (fun ((total, base) : Number × Int) part => do
    let term ← (Number.float part).mul (.int base)
    return (← total.add term, 60 * base)) (Number.float (.zero false), (1 : Int))
  return total

/-- The sign of a number with a point and its characters behind the sign, in lower case. -/
def floatParts (cs : List Char) : Bool × List Char :=
  splitSign ((cs.filter (· != '_')).map Char.toLower)

/-- The word for what is not a number. -/
def nanWord : List Char := ['.', 'n', 'a', 'n']

/-- The value of a number with a point. -/
def floatValue (cs : List Char) : Except Failure Binary64 := do
  if (cs.filter (· != '_')).isEmpty then throw .outOfBounds
  let (negative, body) := floatParts cs
  let signed := fun (x : Binary64) => if negative then x.neg else x
  if body = ['.', 'i', 'n', 'f'] then return signed (.infinity false)
  else if body = nanWord then return .nan
  else if body.contains ':' then do
    let parts ← (splitColons body).mapM floatOf
    let total ← sumSixties parts
    return signed (← total.toBinary64)
  else return signed (← floatOf body)

/-- The truth value of a word. -/
def boolValue (cs : List Char) : Except Failure Bool :=
  let word := String.ofList (cs.map Char.toLower)
  if ["yes", "true", "on"].contains word then .ok true
  else if ["no", "false", "off"].contains word then .ok false
  else .error .missingKey

/-- The six bits of a character of encoded bytes. -/
def sixBits? (c : Char) : Option Nat :=
  let n := c.toNat
  if 65 ≤ n ∧ n ≤ 90 then some (n - 65)
  else if 97 ≤ n ∧ n ≤ 122 then some (n - 71)
  else if 48 ≤ n ∧ n ≤ 57 then some (n + 4)
  else if c = '+' then some 62
  else if c = '/' then some 63
  else none

/-- Decodes bytes of which each group of four characters holds three. Characters without a meaning
are passed over, and padding that completes a group ends the bytes. -/
def decodeGroups : List Char → (place padding carry : Nat) → Option (List UInt8)
  | [], place, _, _ => if place = 0 then some [] else none
  | '=' :: rest, place, padding, carry =>
    if 2 ≤ place ∧ 4 ≤ place + padding + 1 then some []
    else if 2 ≤ place then decodeGroups rest place (padding + 1) carry
    else decodeGroups rest place padding carry
  | c :: rest, place, padding, carry =>
    match sixBits? c with
    | none => decodeGroups rest place padding carry
    | some bits =>
      match place with
      | 0 => decodeGroups rest 1 0 bits
      | 1 => (decodeGroups rest 2 0 (bits % 16)).map (UInt8.ofNat (carry * 4 + bits / 16) :: ·)
      | 2 => (decodeGroups rest 3 0 (bits % 4)).map (UInt8.ofNat (carry * 16 + bits / 4) :: ·)
      | _ => (decodeGroups rest 0 0 0).map (UInt8.ofNat (carry * 64 + bits) :: ·)

/-- The bytes that characters encode. -/
def bytesValue (cs : List Char) : Except Failure (List UInt8) :=
  if !cs.all isPlain then .error invalid
  else
    match decodeGroups cs 0 0 0 with
    | some bytes => .ok bytes
    | none => .error invalid

/-- The value of the characters of a kind. -/
def charsValue (tag : Tag) (cs : List Char) : Except Failure Atom :=
  match tag with
  | .null => .ok .null
  | .bool => do return .bool (← boolValue cs)
  | .int => do return .int (← intValue cs)
  | .float => do return .float (← floatValue cs)
  | .timestamp => timestampValue cs
  | .binary => do return .bytes (← bytesValue cs)
  | .str => .ok (.text (.ofChars cs))
  | _ => .error invalid

/-- What becomes of a text with surrogates of a kind: it is a text, or absent, and stands for
nothing else. -/
def brokenValue (tag : Tag) (s : Text) : Except Failure Atom :=
  match tag with
  | .null => .ok .null
  | .str => .ok (.text s)
  | .bool => .error .missingKey
  | .int | .float => .error .badValue
  | .timestamp => .error .wrongType
  | _ => .error invalid

/-- The value of a scalar of a kind. Collections, the marks for merging and for a default value, and
unknown kinds have none. -/
def atomValue (tag : Tag) (s : Text) : Except Failure Atom :=
  match s.chars? with
  | some cs => charsValue tag cs
  | none => brokenValue tag s

/-- Whether a scalar is the word for what is not a number. -/
def isNanWord (s : Text) : Bool :=
  s.chars?.any fun cs => (floatParts cs).2 = nanWord

end StockFlow.Yaml
