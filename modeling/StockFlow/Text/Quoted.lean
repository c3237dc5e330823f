import StockFlow.Text.Basic
import StockFlow.Text.Printable
/-!
# Quoted texts and bytes

The form in which a text stands inside a message or a list: between quotes, with every code point
that could be misread written as an escape, surrogates among them. Single quotes are used unless the
text has a single quote and no double quote. Bytes have the same form behind the letter `b`, and
only the printable ASCII characters stand for themselves.
-/

namespace StockFlow

/-- A number in lower-case hexadecimal digits, filled up with zeros. -/
def hexadecimal (width n : Nat) : List Char :=
  let digits := Nat.toDigits 16 n
  List.replicate (width - digits.length) '0' ++ digits

/-- The quote that stands around the characters. -/
def quoteFor (hasSingle hasDouble : Bool) : Char :=
  if hasSingle && !hasDouble then '"' else '\''

/-- The escape of a code point by its number, in two, four or eight digits. -/
def numericEscape (n : Nat) : List Char :=
  if n ≤ 0xFF then '\\' :: 'x' :: hexadecimal 2 n
  else if n ≤ 0xFFFF then '\\' :: 'u' :: hexadecimal 4 n
  else '\\' :: 'U' :: hexadecimal 8 n

/-- A character between quotes of the given kind. -/
def quotedChar (quote c : Char) : List Char :=
  if c = quote ∨ c = '\\' then ['\\', c]
  else if c = '\n' then ['\\', 'n']
  else if c = '\r' then ['\\', 'r']
  else if c = '\t' then ['\\', 't']
  else if isPrintable c then [c]
  else numericEscape c.toNat

/-- A code point between quotes of the given kind. -/
def quotedPoint (quote : Char) : CodePoint → List Char
  | .char c => quotedChar quote c
  | c => numericEscape c.number

/-- The quoted form of a text. -/
def quoted (t : Text) : Text :=
  let quote := quoteFor (t.contains (.char '\'')) (t.contains (.char '"'))
  .ofChars (quote :: (t.flatMap (quotedPoint quote) ++ [quote]))

/-- A byte between quotes of the given kind. -/
def quotedByte (quote : Char) (b : UInt8) : List Char :=
  if b < 0x20 ∨ 0x7F ≤ b then
    if b = 0x0A then ['\\', 'n']
    else if b = 0x0D then ['\\', 'r']
    else if b = 0x09 then ['\\', 't']
    else numericEscape b.toNat
  else quotedChar quote (Char.ofNat b.toNat)

/-- The quoted form of bytes. -/
def quotedBytes (bytes : List UInt8) : Text :=
  let quote := quoteFor (bytes.contains 0x27) (bytes.contains 0x22)
  .ofChars ('b' :: quote :: (bytes.flatMap (quotedByte quote) ++ [quote]))

end StockFlow
