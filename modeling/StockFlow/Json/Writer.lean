import StockFlow.Datum.Display
import StockFlow.Failure
/-!
# Writing JSON

The JSON text of a value. Texts are written with the short escapes and with `\u00` escapes for the
other control characters, everything else stands for itself. With an indent, every item and every
entry has a line of its own, indented by its depth; without one, all is on one line. Keys that are
not texts are written as texts, and a pair is written as a list. A date, bytes, a set or a value
that contains itself cannot be written.
-/

namespace StockFlow.Json

/-- A character of a text. -/
def writeChar (c : Char) : List Char :=
  if c = '"' then ['\\', '"']
  else if c = '\\' then ['\\', '\\']
  else if c = '\n' then ['\\', 'n']
  else if c = '\r' then ['\\', 'r']
  else if c = '\t' then ['\\', 't']
  else if c = '\x08' then ['\\', 'b']
  else if c = '\x0c' then ['\\', 'f']
  else if c.toNat < 0x20 then '\\' :: 'u' :: hexadecimal 4 c.toNat
  else [c]

/-- A code point of a text. -/
def writePoint : CodePoint → Text
  | .char c => .ofChars (writeChar c)
  | c => [c]

/-- A text between quotes. -/
def writeText (s : Text) : Text :=
  .char '"' :: (s.flatMap writePoint ++ [.char '"'])

/-- A whole number. -/
def writeInt (n : Int) : Except Failure Text :=
  match intText? n with
  | some s => .ok s
  | none => .error .badValue

/-- A binary64 number, the numbers that are not finite by their names. -/
def writeFloat : Binary64 → Text
  | .nan => "NaN"
  | .infinity negative => if negative then "-Infinity" else "Infinity"
  | x => x.text

/-- A truth value. -/
def writeBool (b : Bool) : Text := if b then "true" else "false"

/-- An atom. -/
def writeAtom : Atom → Except Failure Text
  | .null => .ok "null"
  | .bool b => .ok (writeBool b)
  | .int n => writeInt n
  | .float x => .ok (writeFloat x)
  | .text s => .ok (writeText s)
  | .bytes _ | .date _ | .moment _ => .error .wrongType

/-- A key. -/
def writeKey : Atom → Except Failure Text
  | .text s => .ok (writeText s)
  | a => do return "\"" ++ (← writeAtom a) ++ "\""

/-- The beginning of a line of a given depth, which is empty without an indent. -/
def newLine (indent : Option Nat) (depth : Nat) : Text :=
  match indent with
  | none => []
  | some width => .char '\n' :: List.replicate (width * depth) (.char ' ')

/-- What separates two items. -/
def separator (indent : Option Nat) : Text :=
  if indent.isSome then "," else ", "

/-- Items of a list or a mapping between brackets. -/
def bracketed (indent : Option Nat) (depth : Nat) (opening closing : Char)
    (items : List Text) : Text :=
  if items.isEmpty then [.char opening, .char closing]
  else
    let between := separator indent ++ newLine indent (depth + 1)
    .char opening ::
      (newLine indent (depth + 1) ++ Text.join between items ++ newLine indent depth ++
        [.char closing])

mutual

/-- A value at a given depth. -/
def write (indent : Option Nat) (depth : Nat) : Datum → Except Failure Text
  | .atom a => writeAtom a
  | .list items => do
    return bracketed indent depth '[' ']' (← writeItems indent (depth + 1) items)
  | .map entries => do
    return bracketed indent depth '\x7b' '\x7d' (← writeEntries indent (depth + 1) entries)
  | .pair first second => do
    let firstText ← write indent (depth + 1) first
    let secondText ← write indent (depth + 1) second
    return bracketed indent depth '[' ']' [firstText, secondText]
  | .set _ => .error .wrongType
  | .knot _ _ | .strand _ => .error .badValue

/-- The items of a list. -/
def writeItems (indent : Option Nat) (depth : Nat) :
    List Datum → Except Failure (List Text)
  | [] => .ok []
  | item :: rest => do
    let head ← write indent depth item
    let tail ← writeItems indent depth rest
    return head :: tail

/-- The entries of a mapping. -/
def writeEntries (indent : Option Nat) (depth : Nat) :
    List (Atom × Datum) → Except Failure (List Text)
  | [] => .ok []
  | (key, value) :: rest => do
    let keyText ← writeKey key
    let valueText ← write indent depth value
    let tail ← writeEntries indent depth rest
    return (keyText ++ ": " ++ valueText) :: tail

end

/-- The JSON text of a value. -/
def render (indent : Option Nat) (d : Datum) : Except Failure Text := write indent 0 d

end StockFlow.Json
