import StockFlow.Digest
import StockFlow.Failure
import StockFlow.Graph.Basic
/-!
# Colours

Every node gets a colour, and the first rule that applies decides: a declared colour other than the
random one is kept; a node without a declared colour takes the colour of the first link entering it
that declares one, and else the colour of its parent, which is coloured first. A node that is left
with the random colour or with none takes the colour of the palette that its name picks. The pass
marks a node before it colours it, and colours in place, so a pass that fails leaves the colours it
has set.
-/

namespace StockFlow

/-- The ten colours of the standard palette. -/
def category10 : List Text :=
  ["#1f77b4", "#ff7f0e", "#2ca02c", "#d62728", "#9467bd",
   "#8c564b", "#e377c2", "#7f7f7f", "#bcbd22", "#17becf"]

/-- The number that a name picks colours by: the first four bytes of the digest of its encoding, the
first of them counting most. A name that has no encoding has no number. -/
def nameHash? (name : Text) : Option Nat :=
  name.utf8?.map fun bytes =>
    ((Digest.md5 bytes).take 4).foldl (fun value b => 256 * value + b.toNat) 0

/-- The colour of a palette that a name picks. -/
def paletteColor (name : Text) (palette : List Text) : Except Failure Text :=
  match nameHash? name with
  | none => .error .notEncodable
  | some hash =>
    match palette[hash % palette.length]? with
    | some color => .ok color
    | none => .error .emptyPalette

/-- A graph that is being coloured, and the nodes that have had their turn. -/
structure Coloring where
  graph : Graph
  done : List Text

namespace Coloring

/-- Sets the colour of a node. -/
def setColor (s : Coloring) (name : Text) (color : Datum) : Coloring :=
  { s with graph := s.graph.editNode name fun n => { n with color } }

/-- Gives a node the palette colour of its name if its colour is random or missing. -/
def finish (palette : List Text) (name : Text) (s : Coloring) : Coloring × Option Failure :=
  if (s.graph.nodeColor name).isFixedColor then (s, none)
  else
    match paletteColor name palette with
    | .ok color => (s.setColor name (.text color), none)
    | .error failure => (s, some failure)

/-- The colour of the first link entering a node that declares one. -/
def firstLinkColor? (s : Coloring) (n : Node) : Option Datum :=
  n.incoming.findSome? fun id =>
    match s.graph.link? id with
    | some link => if link.color.isTruthy then some link.color else none
    | none => none

/-- Colours a node, its parent first where that decides. Every turn marks a node, so the depth is
bounded by the number of nodes. -/
def colorNode (palette : List Text) : (depth : Nat) → Text → Coloring →
    Coloring × Option Failure
  | 0, _, s => (s, none)
  | depth + 1, name, s =>
    if s.done.contains name then (s, none)
    else
      match s.graph.node? name with
      | none => (s, none)
      | some n =>
        let s := { s with done := name :: s.done }
        if n.color.isFixedColor then (s, none)
        else if n.color.isRandom then finish palette name s
        else
          match s.firstLinkColor? n with
          | some color => finish palette name (s.setColor name color)
          | none =>
            match n.parent? with
            | none => finish palette name (s.setColor name .null)
            | some parent =>
              match colorNode palette depth parent s with
              | (s, some failure) => (s, some failure)
              | (s, none) => finish palette name (s.setColor name (s.graph.nodeColor parent))

/-- Colours nodes in turn until one fails. -/
def colorAll (palette : List Text) (depth : Nat) : List Text → Coloring →
    Coloring × Option Failure
  | [], s => (s, none)
  | name :: rest, s =>
    match colorNode palette depth name s with
    | (s, none) => colorAll palette depth rest s
    | (s, some failure) => (s, some failure)

end Coloring

/-- The graph with every node coloured from a palette; with a failure come the colours set before
it. -/
def Graph.colorNodes (g : Graph) (palette : List Text) : Graph × Option Failure :=
  let (s, failure?) :=
    Coloring.colorAll palette (g.nodes.length + 1) (g.nodes.map Node.name) ⟨g, []⟩
  (s.graph, failure?)

end StockFlow
