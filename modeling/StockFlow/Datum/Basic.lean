import StockFlow.Binary64.Basic
import StockFlow.Calendar
import StockFlow.Text.Basic
/-!
# Decoded data

A document decodes to a `Datum`: an atom, a list, a mapping whose keys are atoms, a set of atoms, or
a pair. A mapping keeps its entries in the order in which their keys first occurred. Whole numbers
and binary64 numbers are different atoms, yet they are the same key of a mapping when they are the
same number, and so are the truth values and the numbers zero and one.

A document may also describe a value that contains itself. Such a value is a knot: a finite list of
strands, which are lists, mappings and pairs whose parts may be strands of the same knot, and the
place of the strand that the value is.
-/

namespace StockFlow

/-- A value without parts. -/
inductive Atom where
  | null
  | bool (b : Bool)
  | int (n : Int)
  | float (x : Binary64)
  | text (s : Text)
  | bytes (bs : List UInt8)
  | date (d : Date)
  | moment (m : Moment)
deriving DecidableEq

/-- A decoded value. -/
inductive Datum where
  | atom (a : Atom)
  | list (items : List Datum)
  | map (entries : List (Atom × Datum))
  | set (elements : List Atom)
  | pair (first second : Datum)
  /-- The value that a strand of a knot is. -/
  | knot (strands : List Datum) (place : Nat)
  /-- Inside the strands of a knot, one of them. -/
  | strand (place : Nat)

/-- The entries of a mapping. -/
abbrev Entries := List (Atom × Datum)

instance : Inhabited Datum := ⟨.atom .null⟩

namespace Datum

/-- The absent value. -/
@[match_pattern] abbrev null : Datum := .atom .null

/-- A truth value. -/
@[match_pattern] abbrev bool (b : Bool) : Datum := .atom (.bool b)

/-- A whole number. -/
@[match_pattern] abbrev int (n : Int) : Datum := .atom (.int n)

/-- A binary64 number. -/
@[match_pattern] abbrev float (x : Binary64) : Datum := .atom (.float x)

/-- A text. -/
@[match_pattern] abbrev text (s : Text) : Datum := .atom (.text s)

/-- Bytes. -/
@[match_pattern] abbrev bytes (bs : List UInt8) : Datum := .atom (.bytes bs)

/-- A date. -/
@[match_pattern] abbrev date (d : Date) : Datum := .atom (.date d)

/-- A moment. -/
@[match_pattern] abbrev moment (m : Moment) : Datum := .atom (.moment m)

end Datum

/-! ## Keys -/

/-- The number that an atom is as a key: whole numbers and truth values. -/
def Atom.keyInt? : Atom → Option Int
  | .bool b => some (if b then 1 else 0)
  | .int n => some n
  | _ => none

/-- Whether two atoms are the same key. -/
def Atom.sameKey (a b : Atom) : Bool :=
  match a, b with
  | .null, .null => true
  | .text s, .text t => s == t
  | .bytes s, .bytes t => s == t
  | .date d, .date e => d = e
  | .moment m, .moment n => m.sameMoment n
  | .float x, .float y => x.sameNumber y
  | .float x, b => b.keyInt?.any x.equalsInt
  | a, .float y => a.keyInt?.any y.equalsInt
  | a, b =>
    match a.keyInt?, b.keyInt? with
    | some m, some n => m == n
    | _, _ => false

/-- A text is the same key as itself only. -/
theorem Atom.sameKey_text_iff {a : Atom} {s : Text} :
    a.sameKey (.text s) = true ↔ a = .text s := by
  cases a <;> simp [Atom.sameKey, Atom.keyInt?]

namespace Entries

/-- The value under a key. -/
def find? (entries : Entries) (key : Atom) : Option Datum :=
  (List.find? (fun entry => entry.1.sameKey key) entries).map Prod.snd

/-- The value under a text, and the absent value where there is none. -/
def get (entries : Entries) (key : Text) : Datum :=
  (find? entries (.text key)).getD .null

/-- Sets the value under a key. A key that is present keeps its place and its spelling. -/
def insert : Entries → Atom → Datum → Entries
  | [], key, value => [(key, value)]
  | (k, v) :: rest, key, value =>
    if k.sameKey key then (k, value) :: rest else (k, v) :: insert rest key value

/-- What is set under a text is found there. -/
theorem find?_insert_text (entries : Entries) (key : Text) (value : Datum) :
    find? (insert entries (.text key) value) (.text key) = some value := by
  induction entries with
  | nil => simp [insert, find?, Atom.sameKey]
  | cons entry entries ih =>
    obtain ⟨k, v⟩ := entry
    unfold insert
    split
    · next hk => simp [find?, hk]
    · next hk =>
      unfold find? at ih ⊢
      rw [List.find?_cons]
      simpa [hk] using ih

/-- Setting a value under a text changes nothing under another text. -/
theorem find?_insert_text_of_ne (entries : Entries) {key other : Text}
    (hne : key ≠ other) (value : Datum) :
    find? (insert entries (.text key) value) (.text other) =
      find? entries (.text other) := by
  induction entries with
  | nil => simp [insert, find?, Atom.sameKey, hne]
  | cons entry entries ih =>
    obtain ⟨k, v⟩ := entry
    unfold insert
    split
    · next hk =>
      have hkey : k = .text key := Atom.sameKey_text_iff.mp hk
      simp [find?, Atom.sameKey, hkey, hne]
    · unfold find? at ih ⊢
      rw [List.find?_cons, List.find?_cons]
      split
      · rfl
      · exact ih

/-- The entries with the later of two values under one key. -/
def ofPairs (pairs : List (Atom × Datum)) : Entries :=
  pairs.foldl (fun entries pair => insert entries pair.1 pair.2) []

end Entries

end StockFlow
