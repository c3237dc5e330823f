import StockFlow.Datum.Display
import StockFlow.Expression
/-!
# Flow graphs

A graph is a list of named nodes. Every node lists the links that leave it, in order, and the
identities of the links that enter it, in order; a link is identified by its source and its place
there. Nodes refer to each other by name, so a graph is a plain value: a copy of a graph is the
graph, and changing one never shows in another.
-/

namespace StockFlow

/-- A flow that leaves a node: the node it enters, and what is declared about it. -/
structure Link where
  target : Text
  value : Datum
  color : Datum
  description : Datum

/-- The identity of a link: the node it leaves and its place among the links that leave it. -/
structure LinkId where
  source : Text
  position : Nat
deriving DecidableEq

/-- A stock. The name identifies it, the display name is what is shown, and only the latter differs
between languages. -/
structure Node where
  name : Text
  displayName : Text
  description : Datum
  color : Datum
  value : Datum
  attributes : Entries
  outgoing : List Link
  incoming : List LinkId

/-- How the nodes of a graph get their values: whether a declared zero counts as no value. -/
structure Resolver where
  zeroIsUnset : Bool
deriving DecidableEq

/-- Nodes in their final order, the suffix that tells variants and languages apart, and the
resolver, without which no value can be read. -/
structure Graph where
  nodes : List Node
  suffix : Text
  resolver : Option Resolver

namespace Node

/-- The identities of the links that leave a node. -/
def linkIds (n : Node) : List LinkId :=
  (List.range n.outgoing.length).map fun position => ⟨n.name, position⟩

/-- The source of the first link that enters a node. -/
def parent? (n : Node) : Option Text :=
  n.incoming.head?.map LinkId.source

/-- The short description of a node. -/
def describe (n : Node) : Text :=
  "Node(" ++ n.name ++ ")"

end Node

/-- The short description of a link. -/
def LinkId.describe (id : LinkId) (target : Text) : Text :=
  "Link(" ++ id.source ++ " -> " ++ target ++ ")"

/-- Whether a colour asks for one of the palette. -/
def Datum.isRandom : Datum → Bool
  | .text s => s == randomColor
  | _ => false

/-- Whether a colour is to be used as it is. -/
def Datum.isFixedColor (d : Datum) : Bool :=
  d.isTruthy && !d.isRandom

namespace Graph

/-- The node of a name. -/
def node? (g : Graph) (name : Text) : Option Node :=
  g.nodes.find? fun n => n.name == name

/-- The link of an identity. -/
def link? (g : Graph) (id : LinkId) : Option Link :=
  (g.node? id.source).bind fun n => n.outgoing[id.position]?

/-- The links of a graph, node by node. -/
def links (g : Graph) : List (LinkId × Link) :=
  g.nodes.flatMap fun n => n.linkIds.zip n.outgoing

/-- The number of links of a graph. -/
def linkCount (g : Graph) : Nat :=
  g.nodes.foldr (fun n count => n.outgoing.length + count) 0

/-- There are as many links as the nodes have leaving them. -/
theorem length_links (g : Graph) : g.links.length = g.linkCount := by
  unfold links linkCount
  induction g.nodes with
  | nil => rfl
  | cons n nodes ih =>
    rw [List.flatMap_cons, List.length_append, ih, List.foldr_cons]
    simp [Node.linkIds]

/-- The colour of a node, which is absent where there is no such node. -/
def nodeColor (g : Graph) (name : Text) : Datum :=
  ((g.node? name).map Node.color).getD .null

/-- The colour of a link: its own unless that is missing or random, else the colour of its target,
else that of its source. -/
def linkColor (g : Graph) (id : LinkId) (l : Link) : Datum :=
  if l.color.isFixedColor then l.color
  else (g.nodeColor l.target).orElse (g.nodeColor id.source)

/-- The display name of a node, and the name itself where there is no such node. -/
def displayName (g : Graph) (name : Text) : Text :=
  ((g.node? name).map Node.displayName).getD name

/-- Changes the node of a name. -/
def editNode (g : Graph) (name : Text) (edit : Node → Node) : Graph :=
  { g with nodes := g.nodes.map fun n => if n.name == name then edit n else n }

/-- Changes the link of an identity. -/
def editLink (g : Graph) (id : LinkId) (edit : Link → Link) : Graph :=
  g.editNode id.source fun n => { n with outgoing := n.outgoing.modify id.position edit }

/-- The short description of a graph. -/
def describe (g : Graph) : Text :=
  "Graph(suffix=" ++ quoted g.suffix ++ ", nodes=" ++ toString g.nodes.length ++ ", links=" ++
    toString g.linkCount ++ ")"

end Graph

end StockFlow
