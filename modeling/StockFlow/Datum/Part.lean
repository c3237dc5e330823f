import StockFlow.Datum.Basic
/-!
# Parts of decoded data

What a value consists of. The parts of a knot are values by themselves: wherever a part mentions a
strand of the knot, it is the value of that strand, so the parts of a value that contains itself can
be looked at as often as one likes. `Datum.fields?` and `Datum.elements?` are the two views of a
value that the rest of the library looks through.
-/

namespace StockFlow

namespace Datum

/-! ## Knots -/

mutual

/-- A part of a strand as a value by itself. -/
def close (strands : List Datum) : Datum → Datum
  | .atom a => .atom a
  | .list items => .list (closeItems strands items)
  | .map entries => .map (closeEntries strands entries)
  | .set elements => .set elements
  | .pair first second => .pair (first.close strands) (second.close strands)
  | .knot inner place => .knot inner place
  | .strand place => .knot strands place

/-- The items of a strand as values by themselves. -/
def closeItems (strands : List Datum) : List Datum → List Datum
  | [] => []
  | item :: rest => item.close strands :: closeItems strands rest

/-- The entries of a strand as values by themselves. -/
def closeEntries (strands : List Datum) : List (Atom × Datum) → List (Atom × Datum)
  | [] => []
  | (key, value) :: rest => (key, value.close strands) :: closeEntries strands rest

end

/-- The strands that the parts of a value may mention, and the value with its parts as they are
there. -/
def layer : Datum → List Datum × Datum
  | .knot strands place => (strands, strands[place]?.getD .null)
  | d => ([], d)

/-- A part of a layer, where the strand that it mentions takes its place. -/
def inLayer (strands : List Datum) : Datum → Datum
  | .strand place => strands[place]?.getD .null
  | d => d

/-- The value with its outermost layer free of knots. -/
def opened : Datum → Datum
  | .knot strands place => (strands[place]?.getD .null).close strands
  | d => d

/-! ## Views -/

/-- The entries of a mapping. -/
def fields? (d : Datum) : Option Entries :=
  match d.opened with
  | .map entries => some entries
  | _ => none

/-- The items of a list. -/
def items? (d : Datum) : Option (List Datum) :=
  match d.opened with
  | .list items => some items
  | _ => none

/-- Whether a value counts as given: not absent, false, zero or empty. -/
def isTruthy (d : Datum) : Bool :=
  match d.opened with
  | .null => false
  | .bool b => b
  | .int n => n != 0
  | .float x => !x.isZero
  | .text t => !t.isEmpty
  | .bytes bs => !bs.isEmpty
  | .list items => !items.isEmpty
  | .map entries => !entries.isEmpty
  | .set elements => !elements.isEmpty
  | _ => true

/-- The value itself if it is given, else another one. -/
def orElse (d other : Datum) : Datum :=
  if d.isTruthy then d else other

/-- The parts of a value without knots at its outermost layer: the items of a list, the keys of a
mapping, the elements of a set, both values of a pair, the code points of a text and the numbers of
bytes. -/
def parts? : Datum → Option (List Datum)
  | .list items => some items
  | .map entries => some (entries.map fun entry => .atom entry.1)
  | .set elements => some (elements.map .atom)
  | .pair first second => some [first, second]
  | .text t => some (t.map fun c => .text [c])
  | .bytes bs => some (bs.map fun b => .int b.toNat)
  | _ => none

/-- The parts of a value that has parts. -/
def elements? (d : Datum) : Option (List Datum) := d.opened.parts?

/-- The value with other entries, if it is a mapping. Where the value contains itself, it contains
itself with the other entries, and the entries are seen as they are inside the knot. -/
def editFields (d : Datum) (edit : Entries → Entries) : Datum :=
  match d with
  | .map entries => .map (edit entries)
  | .knot strands place =>
    match strands[place]? with
    | some (.map entries) => .knot (strands.set place (.map (edit entries))) place
    | _ => d
  | d => d

end Datum

end StockFlow
