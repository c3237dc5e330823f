import StockFlow.Binary64.Decimal
import StockFlow.Datum.Display
import StockFlow.Failure
import StockFlow.Numeral
/-!
# Reading JSON

The reader of JSON texts. It works on the code points that remain, and an error carries what remains
at its place, from which `parse` computes the line and the column. Besides the standard it accepts
the names of the numbers that are not finite. A number without point and exponent is a whole number
of any size up to 4300 digits. Escapes for both halves of a pair of surrogates stand for one
character, and an escape for one half alone stands for that surrogate.
-/

namespace StockFlow.Json

/-- Why reading stopped: a problem and what remains at its place, or a number with too many
digits. -/
inductive Fault where
  | problem (problem : JsonProblem) (remaining : Text)
  | tooManyDigits

/-- The outcome of reading something at the beginning of a text: it and the rest. -/
abbrev Parsed (α : Type) := Except Fault (α × Text)

/-- Whether a character may stand between tokens. -/
def isSpace (c : Char) : Bool :=
  c == ' ' || c == '\t' || c == '\n' || c == '\r'

/-- The text after the spaces at the beginning. -/
def skipSpaces (cs : Text) : Text := cs.dropWhile (CodePoint.isCharWith isSpace)

/-! ## Texts -/

/-- The value of a hexadecimal digit. -/
def hexValue? (c : Char) : Option Nat :=
  let n := c.toNat
  if 0x30 ≤ n ∧ n ≤ 0x39 then some (n - 0x30)
  else if 0x41 ≤ n ∧ n ≤ 0x46 then some (n - 0x37)
  else if 0x61 ≤ n ∧ n ≤ 0x66 then some (n - 0x57)
  else none

/-- The value of four hexadecimal digits. -/
def hexQuad? (a b c d : CodePoint) : Option Nat := do
  let w ← a.char?.bind hexValue?
  let x ← b.char?.bind hexValue?
  let y ← c.char?.bind hexValue?
  let z ← d.char?.bind hexValue?
  return ((w * 16 + x) * 16 + y) * 16 + z

/-- The character that a letter stands for after a backslash. -/
def shortEscape? (c : Char) : Option Char :=
  if c = '"' then some '"'
  else if c = '\\' then some '\\'
  else if c = '/' then some '/'
  else if c = 'b' then some '\x08'
  else if c = 'f' then some '\x0c'
  else if c = 'n' then some '\n'
  else if c = 'r' then some '\r'
  else if c = 't' then some '\t'
  else none

/-- Whether a number is that of the first half of a pair of surrogates. -/
def isHighSurrogate (n : Nat) : Bool := 0xD800 ≤ n && n ≤ 0xDBFF

/-- Whether a number is that of the second half of a pair of surrogates. -/
def isLowSurrogate (n : Nat) : Bool := 0xDC00 ≤ n && n ≤ 0xDFFF

/-- The character of a pair of surrogates. -/
def joinSurrogates (high low : Nat) : CodePoint :=
  .char (Char.ofNat (0x10000 + (high - 0xD800) * 0x400 + (low - 0xDC00)))

/-- Puts a code point in front of the text that has been read. -/
def consPoint (c : CodePoint) : Parsed Text → Parsed Text
  | .ok (cs, rest) => .ok (c :: cs, rest)
  | .error fault => .error fault

/-- The rest of a text after its opening quote, which is the first of the code points `start`. An
escape by number needs something behind its digits, and one that is the first half of a pair of
surrogates takes the escape behind it along if that is the second half. -/
def readText (start : Text) : Text → Parsed Text
  | [] => .error (.problem .unterminatedText start)
  | [.char '\\'] => .error (.problem .unterminatedText start)
  | .char '\\' :: .char 'u' :: a :: b :: c :: d :: e :: rest =>
    match hexQuad? a b c d with
    | none => .error (.problem .unicodeEscape (.char 'u' :: a :: b :: c :: d :: e :: rest))
    | some high =>
      let first := CodePoint.ofNumber high
      match e, rest with
      | .char '\\', .char 'u' :: f :: g :: h :: i :: j :: rest =>
        let second : Text := .char '\\' :: .char 'u' :: f :: g :: h :: i :: j :: rest
        if isHighSurrogate high then
          match hexQuad? f g h i with
          | none => .error (.problem .unicodeEscape (.char 'u' :: f :: g :: h :: i :: j :: rest))
          | some low =>
            if isLowSurrogate low then
              consPoint (joinSurrogates high low) (readText start (j :: rest))
            else consPoint first (readText start second)
        else consPoint first (readText start second)
      | e, rest => consPoint first (readText start (e :: rest))
  | .char '\\' :: .char 'u' :: rest =>
    .error (.problem .unicodeEscape (.char 'u' :: rest))
  | .char '\\' :: c :: rest =>
    match c.char?.bind shortEscape? with
    | some d => consPoint d (readText start rest)
    | none => .error (.problem .escape (.char '\\' :: c :: rest))
  | c :: rest =>
    if c = .char '"' then .ok ([], rest)
    else if c.number < 0x20 then .error (.problem .controlCharacter (c :: rest))
    else consPoint c (readText start rest)

/-! ## Numbers -/

/-- The decimal digits at the beginning of a text, and the rest. -/
def takeDigits : Text → List Char × Text
  | .char c :: rest =>
    if c.isDigit then
      let (digits, rest) := takeDigits rest
      (c :: digits, rest)
    else ([], .char c :: rest)
  | cs => ([], cs)

/-- The fraction at the beginning of a text: a point and at least one digit. -/
def takeFraction (cs : Text) : List Char × Text :=
  match cs with
  | .char '.' :: rest =>
    let (digits, rest) := takeDigits rest
    if digits.isEmpty then ([], cs) else (digits, rest)
  | cs => ([], cs)

/-- The sign at the beginning of an exponent, if there is one. -/
def takeSign : Text → Bool × Text
  | .char '-' :: rest => (true, rest)
  | .char '+' :: rest => (false, rest)
  | cs => (false, cs)

/-- The exponent at the beginning of a text: its letter, a sign or none, and at least one digit. -/
def takeExponent (cs : Text) : Option Int × Text :=
  match cs with
  | c :: rest =>
    if c = .char 'e' ∨ c = .char 'E' then
      let (negative, body) := takeSign rest
      let (digits, rest) := takeDigits body
      if digits.isEmpty then (none, cs)
      else
        let value : Int := digitsValue digits
        (some (if negative then -value else value), rest)
    else (none, cs)
  | [] => (none, [])

/-- The digits before the point: a single zero, or digits that begin with another one. -/
def takeWhole : Text → List Char × Text
  | .char '0' :: rest => (['0'], rest)
  | cs => takeDigits cs

/-- The number at the beginning of a text. -/
def readNumber (cs : Text) : Parsed Datum :=
  let (negative, body) :=
    match cs with
    | .char '-' :: rest => (true, rest)
    | cs => (false, cs)
  let (whole, afterWhole) := takeWhole body
  if whole.isEmpty then .error (.problem .value cs)
  else
    let (fraction, afterFraction) := takeFraction afterWhole
    let (exponent?, rest) := takeExponent afterFraction
    if fraction.isEmpty ∧ exponent?.isNone then
      if maxDigits < whole.length then .error .tooManyDigits
      else
        let value : Int := digitsValue whole
        .ok (.int (if negative then -value else value), rest)
    else
      let exponent := exponent?.getD 0 - fraction.length
      .ok (.float (Binary64.ofDecimal negative (digitsValue (whole ++ fraction)) exponent), rest)

/-! ## Values -/

/-- The names that stand for values. -/
def names : List (Text × Datum) :=
  [("null", .null), ("true", .bool true), ("false", .bool false),
   ("NaN", .float .nan), ("Infinity", .float (.infinity false)),
   ("-Infinity", .float (.infinity true))]

/-- The value whose name stands at the beginning of a text. -/
def readName? (cs : Text) : Option (Datum × Text) :=
  names.findSome? fun (name, value) =>
    if name.isPrefixOf cs then some (value, cs.drop name.length) else none

mutual

/-- The value at the beginning of a text. -/
def readValue : (fuel : Nat) → Text → Except Fault (Datum × Text)
  | 0, cs => .error (.problem .value cs)
  | fuel + 1, cs =>
    match cs with
    | .char '"' :: rest => do
      let (s, rest) ← readText cs rest
      return (.text s, rest)
    | .char '[' :: rest =>
      match skipSpaces rest with
      | .char ']' :: rest => .ok (.list [], rest)
      | rest => do
        let (items, rest) ← readItems fuel rest
        return (.list items, rest)
    | .char '\x7b' :: rest =>
      match skipSpaces rest with
      | .char '\x7d' :: rest => .ok (.map [], rest)
      | rest => do
        let (pairs, rest) ← readPairs fuel rest
        return (.map (Entries.ofPairs pairs), rest)
    | cs =>
      match readName? cs with
      | some result => .ok result
      | none => readNumber cs

/-- The items of a list up to its closing bracket. -/
def readItems : (fuel : Nat) → Text → Except Fault (List Datum × Text)
  | 0, cs => .error (.problem .value cs)
  | fuel + 1, cs => do
    let (item, rest) ← readValue fuel cs
    match skipSpaces rest with
    | .char ']' :: rest => return ([item], rest)
    | .char ',' :: rest => do
      let (items, rest) ← readItems fuel (skipSpaces rest)
      return (item :: items, rest)
    | rest => throw (.problem .comma rest)

/-- The entries of a mapping up to its closing brace. -/
def readPairs : (fuel : Nat) → Text → Except Fault (List (Atom × Datum) × Text)
  | 0, cs => .error (.problem .value cs)
  | fuel + 1, cs =>
    match cs with
    | .char '"' :: afterQuote => do
      let (key, rest) ← readText cs afterQuote
      match skipSpaces rest with
      | .char ':' :: rest => do
        let (value, rest) ← readValue fuel (skipSpaces rest)
        let pair := (Atom.text key, value)
        match skipSpaces rest with
        | .char '\x7d' :: rest => return ([pair], rest)
        | .char ',' :: rest => do
          let (pairs, rest) ← readPairs fuel (skipSpaces rest)
          return (pair :: pairs, rest)
        | rest => throw (.problem .comma rest)
      | rest => throw (.problem .colon rest)
    | cs => .error (.problem .propertyName cs)

end

/-- The value that a whole text stands for. -/
def readAll (cs : Text) : Except Fault Datum :=
  match cs with
  | .char '\uFEFF' :: _ => .error (.problem .byteOrderMark cs)
  | cs => do
    let (value, rest) ← readValue (2 * cs.length + 2) (skipSpaces cs)
    match skipSpaces rest with
    | [] => return value
    | rest => throw (.problem .extraData rest)

/-- The line and the column behind a text. -/
def lineAndColumn (before : Text) : Nat × Nat :=
  let lineFeed : CodePoint := .char '\n'
  (before.count lineFeed + 1, (before.reverse.takeWhile (· != lineFeed)).length + 1)

/-- The value of a JSON text. -/
def parse (text : Text) : Except Failure Datum :=
  match readAll text with
  | .ok value => .ok value
  | .error .tooManyDigits => .error .badValue
  | .error (.problem problem remaining) =>
    let (line, column) := lineAndColumn (text.take (text.length - remaining.length))
    .error (.load (.invalidJson line column problem))

end StockFlow.Json
