import StockFlow.Binary64.Decimal
import StockFlow.Datum.Basic
import StockFlow.Text.Quoted
/-!
# Texts of decoded data

Two texts of a value. Its display is what a name, a title or a language made of it reads: a text
displays as itself. Its literal is the form inside lists, mappings and messages, where texts are
quoted. A value that contains itself is cut short where it would begin anew. A whole number of more
than 4300 digits has neither.
-/

namespace StockFlow

/-- The greatest number of decimal digits that are read or written. -/
def maxDigits : Nat := 4300

/-- The text of a whole number, if it is short enough to be written. -/
def intText? (n : Int) : Option Text :=
  if n.natAbs < Nat.pow 10 maxDigits then some (toString n) else none

/-- The literal of an atom. -/
def Atom.literal? : Atom → Option Text
  | .null => some "None"
  | .bool b => some (if b then "True" else "False")
  | .int n => intText? n
  | .float x => some x.text
  | .text s => some (quoted s)
  | .bytes bs => some (quotedBytes bs)
  | .date d => some d.literal
  | .moment m => some m.literal

/-- The display of an atom. -/
def Atom.display? : Atom → Option Text
  | .text s => some s
  | .date d => some d.text
  | .moment m => some m.text
  | a => a.literal?

/-- The literals of atoms. -/
def atomLiterals? (atoms : List Atom) : Option (List Text) := atoms.mapM Atom.literal?

/-- What stands for a value inside itself. -/
def Datum.ellipsis : Datum → Text
  | .map _ => "\x7b...\x7d"
  | .pair _ _ => "(...)"
  | _ => "[...]"

/-- How a strand of a knot is written, given how the strands that it mentions are written, and what
stands for the strand inside itself. -/
structure StrandWriter where
  ellipsis : Text
  write : (Nat → Option Text) → Option Text

/-- The literal of a strand inside strands that are being written already. No path is longer than
there are strands, which bounds the depth. -/
def writeStrand (writers : List StrandWriter) : (depth : Nat) → (path : List Nat) → Nat → Option Text
  | 0, _, _ => none
  | depth + 1, path, place =>
    match writers[place]? with
    | none => none
    | some w =>
      if path.contains place then some w.ellipsis
      else w.write (writeStrand writers depth (place :: path))

mutual

/-- The literal of a value, given how the strands that it mentions are written. -/
def Datum.writeLiteral : Datum → (Nat → Option Text) → Option Text
  | .atom a, _ => a.literal?
  | .list items, strand => do
    let parts ← writeLiterals items strand
    return "[" ++ Text.join ", " parts ++ "]"
  | .map entries, strand => do
    let parts ← writeEntryLiterals entries strand
    return "\x7b" ++ Text.join ", " parts ++ "\x7d"
  | .set elements, _ => do
    let parts ← atomLiterals? elements
    return if parts.isEmpty then "set()" else "\x7b" ++ Text.join ", " parts ++ "\x7d"
  | .pair first second, strand => do
    let firstText ← first.writeLiteral strand
    let secondText ← second.writeLiteral strand
    return "(" ++ firstText ++ ", " ++ secondText ++ ")"
  | .knot strands place, _ =>
    let writers := strandWriters strands
    writeStrand writers (writers.length + 2) [] place
  | .strand place, strand => strand place

/-- The literals of the items of a list. -/
def writeLiterals : List Datum → (Nat → Option Text) → Option (List Text)
  | [], _ => some []
  | item :: rest, strand => do
    let head ← item.writeLiteral strand
    let tail ← writeLiterals rest strand
    return head :: tail

/-- The literals of the entries of a mapping. -/
def writeEntryLiterals : List (Atom × Datum) → (Nat → Option Text) → Option (List Text)
  | [], _ => some []
  | (key, value) :: rest, strand => do
    let keyText ← key.literal?
    let valueText ← value.writeLiteral strand
    let tail ← writeEntryLiterals rest strand
    return (keyText ++ ": " ++ valueText) :: tail

/-- How the strands of a knot are written. -/
def strandWriters : List Datum → List StrandWriter
  | [] => []
  | d :: rest => ⟨d.ellipsis, d.writeLiteral⟩ :: strandWriters rest

end

/-- The literal of a value. -/
def Datum.literal? (d : Datum) : Option Text := d.writeLiteral fun _ => none

/-- The display of a value. -/
def Datum.display? : Datum → Option Text
  | .atom a => a.display?
  | d => d.literal?

end StockFlow
