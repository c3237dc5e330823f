import StockFlow.Json.Reader
/-!
# Syntax trees of JSON texts

A JSON text is the text of a syntax tree with white space around it. The tree keeps what the value
does not tell: how every code point of a text is written, which digits a number has, and the white
space between the tokens. The parts of a tree carry what makes them well formed, so every tree has a
text (`Tree.text`) and a value (`Tree.value`).
-/

namespace StockFlow.Json

/-- White space between tokens. -/
structure Space where
  text : Text
  blank : ∀ c ∈ text, c.isCharWith isSpace = true

/-- No white space. -/
def Space.none : Space := ⟨[], by simp⟩

/-- A name that stands for a value. -/
structure Word where
  text : Text
  value : Datum
  named : (text, value) ∈ names

/-! ## Texts -/

/-- Four hexadecimal digits with their value. -/
structure Quad where
  first : CodePoint
  second : CodePoint
  third : CodePoint
  fourth : CodePoint
  number : Nat
  hex : hexQuad? first second third fourth = some number

/-- The digits. -/
def Quad.text (q : Quad) : Text := [q.first, q.second, q.third, q.fourth]

/-- A piece of a text between quotes: a code point that stands for itself, an escape by a letter, or
an escape by number. -/
inductive Piece where
  | raw (c : CodePoint) (plain : c ≠ .char '"' ∧ c ≠ .char '\\' ∧ 0x20 ≤ c.number)
  | short (letter c : Char) (escapes : shortEscape? letter = some c)
  | code (digits : Quad)

namespace Piece

/-- How a piece is written. -/
def text : Piece → Text
  | .raw c _ => [c]
  | .short letter _ _ => [.char '\\', .char letter]
  | .code q => .char '\\' :: .char 'u' :: q.text

/-- The code point that a piece stands for by itself. -/
def point : Piece → CodePoint
  | .raw c _ => c
  | .short _ c _ => .char c
  | .code q => .ofNumber q.number

/-- Whether two neighbouring pieces are escapes for the two halves of one character. -/
def isPair : Piece → Piece → Bool
  | .code high, .code low => isHighSurrogate high.number && isLowSurrogate low.number
  | _, _ => false

/-- The code point that two pieces stand for together. -/
def joined : Piece → Piece → CodePoint
  | .code high, .code low => joinSurrogates high.number low.number
  | p, _ => p.point

end Piece

/-- What the pieces of a text stand for. -/
def points : List Piece → Text
  | [] => []
  | [p] => [p.point]
  | p :: q :: rest =>
    if p.isPair q then p.joined q :: points rest else p.point :: points (q :: rest)

/-- How the pieces of a text are written, with the quote behind them. -/
def closedText (pieces : List Piece) : Text := pieces.flatMap Piece.text ++ [.char '"']

/-- How a text is written. -/
def quotedText (pieces : List Piece) : Text := .char '"' :: closedText pieces

/-! ## Numbers -/

/-- The characters of a sign, if there is one. -/
def signChars : Option Bool → List Char
  | none => []
  | some true => ['-']
  | some false => ['+']

/-- The exponent of a number: its letter, its sign if it has one, and its digits. -/
structure Exponent where
  letter : Char
  sign? : Option Bool
  digits : List Char
  lettered : letter = 'e' ∨ letter = 'E'
  nonempty : digits ≠ []
  decimal : ∀ c ∈ digits, c.isDigit = true

namespace Exponent

/-- The characters of an exponent. -/
def chars (e : Exponent) : List Char := e.letter :: (signChars e.sign? ++ e.digits)

/-- The value of an exponent. -/
def value (e : Exponent) : Int :=
  let value : Int := digitsValue e.digits
  if e.sign? = some true then -value else value

end Exponent

/-- The characters of an exponent, if there is one. -/
def exponentChars (exponent? : Option Exponent) : List Char :=
  (exponent?.map Exponent.chars).getD []

/-- The characters of a point and the digits behind it, if there are any. -/
def fractionChars (fraction : List Char) : List Char :=
  if fraction.isEmpty then [] else '.' :: fraction

/-- A number: its sign, the digits in front of the point, those behind it, and its exponent. Without
point and exponent it is a whole number, which has no more digits than are read. -/
structure Numeral where
  negative : Bool
  whole : List Char
  fraction : List Char
  exponent? : Option Exponent
  nonempty : whole ≠ []
  whole_decimal : ∀ c ∈ whole, c.isDigit = true
  leading : whole.head? = some '0' → whole = ['0']
  fraction_decimal : ∀ c ∈ fraction, c.isDigit = true
  short : fraction = [] → exponent? = none → whole.length ≤ maxDigits

namespace Numeral

/-- The characters of a number. -/
def chars (n : Numeral) : List Char :=
  (if n.negative then ['-'] else []) ++
    (n.whole ++ (fractionChars n.fraction ++ exponentChars n.exponent?))

/-- How a number is written. -/
def text (n : Numeral) : Text := .ofChars n.chars

/-- The power of ten that the digits count. -/
def place (n : Numeral) : Int := (n.exponent?.map Exponent.value).getD 0 - n.fraction.length

/-- The value of a number. -/
def value (n : Numeral) : Datum :=
  if n.fraction.isEmpty ∧ n.exponent?.isNone then
    let value : Int := digitsValue n.whole
    .int (if n.negative then -value else value)
  else .float (Binary64.ofDecimal n.negative (digitsValue (n.whole ++ n.fraction)) n.place)

end Numeral

/-! ## Values -/

/-- The key of an entry with the colon behind it. -/
structure Label where
  key : List Piece
  before : Space
  after : Space

/-- How the key of an entry is written up to the value. -/
def Label.text (l : Label) : Text :=
  quotedText l.key ++ (l.before.text ++ .char ':' :: l.after.text)

mutual

/-- A value as it is written. -/
inductive Tree where
  | word (w : Word)
  | number (n : Numeral)
  | string (pieces : List Piece)
  | emptyList (space : Space)
  | list (before : Space) (items : Items)
  | emptyMap (space : Space)
  | map (before : Space) (pairs : Pairs)

/-- The items of a list as they are written. -/
inductive Items where
  | last (item : Tree) (after : Space)
  | more (item : Tree) (after before : Space) (rest : Items)

/-- The entries of a mapping as they are written. -/
inductive Pairs where
  | last (label : Label) (value : Tree) (after : Space)
  | more (label : Label) (value : Tree) (after before : Space) (rest : Pairs)

end

mutual

/-- How a value is written. -/
def Tree.text : Tree → Text
  | .word w => w.text
  | .number n => n.text
  | .string pieces => quotedText pieces
  | .emptyList space => .char '[' :: (space.text ++ [.char ']'])
  | .list before items => .char '[' :: (before.text ++ items.text)
  | .emptyMap space => .char '\x7b' :: (space.text ++ [.char '\x7d'])
  | .map before pairs => .char '\x7b' :: (before.text ++ pairs.text)

/-- How items are written, with the bracket behind them. -/
def Items.text : Items → Text
  | .last item after => item.text ++ (after.text ++ [.char ']'])
  | .more item after before rest =>
    item.text ++ (after.text ++ .char ',' :: (before.text ++ rest.text))

/-- How entries are written, with the brace behind them. -/
def Pairs.text : Pairs → Text
  | .last label value after => label.text ++ (value.text ++ (after.text ++ [.char '\x7d']))
  | .more label value after before rest =>
    label.text ++ (value.text ++ (after.text ++ .char ',' :: (before.text ++ rest.text)))

end

mutual

/-- What a value stands for. -/
def Tree.value : Tree → Datum
  | .word w => w.value
  | .number n => n.value
  | .string pieces => .text (points pieces)
  | .emptyList _ => .list []
  | .list _ items => .list items.values
  | .emptyMap _ => .map []
  | .map _ pairs => .map (Entries.ofPairs pairs.values)

/-- What items stand for. -/
def Items.values : Items → List Datum
  | .last item _ => [item.value]
  | .more item _ _ rest => item.value :: rest.values

/-- What entries stand for. -/
def Pairs.values : Pairs → List (Atom × Datum)
  | .last label value _ => [(.text (points label.key), value.value)]
  | .more label value _ _ rest => (.text (points label.key), value.value) :: rest.values

end

end StockFlow.Json
