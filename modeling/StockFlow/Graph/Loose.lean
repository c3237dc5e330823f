import StockFlow.Sheet.Collection
import StockFlow.Value.Reading
/-!
# Loose nodes

Nodes and links that are made one by one and belong to no built graph. Here two nodes may have the
same name and links may form cycles, so nodes are told apart by their place. Putting all nodes into
a graph gives every one of them the resolver of that graph; a node that is made later has none, and
its value cannot be read before the next time.
-/

namespace StockFlow

/-- A node with the links that were declared for it, which are not attached to anything. -/
structure LooseNode where
  node : Node
  declaredLinks : List Datum
  resolver? : Option Resolver := none

/-- A link between two places. -/
structure LooseLink where
  source : Nat
  target : Nat
  value : Datum
  color : Datum
  description : Datum

/-- Nodes and links as they were made. -/
structure LooseNet where
  nodes : List LooseNode := []
  links : List LooseLink := []

namespace LooseNode

/-- The node with the given properties, of which the name is needed. -/
def ofFields (fields : Entries) : Except Failure LooseNode := do
  let isText := fun (a : Atom) => match a with | .text _ => true | _ => false
  if fields.any fun entry => !isText entry.1 then throw .wrongType
  match Entries.find? fields (.text "name") with
  | none => throw .wrongType
  | some name =>
    let nameText ← name.displayed
    let sketch ← sketchNode nameText fields
    return { node := sketch.node, declaredLinks := sketch.links }

/-- The node with further declared links. -/
def addLinks (n : LooseNode) (links : Datum) : Except Failure LooseNode :=
  match links.elements? with
  | some items => .ok { n with declaredLinks := n.declaredLinks ++ items }
  | none => .error .wrongType

/-- The node with another display name. -/
def rename (n : LooseNode) (displayName : Text) : LooseNode :=
  { n with node := { n.node with displayName } }

/-- A copy of the node, which no graph knows yet. -/
def copy (n : LooseNode) : LooseNode := { n with resolver? := none }

end LooseNode

namespace LooseNet

/-- The key that stands for a place inside a network. -/
def key (place : Nat) : Text := toString place

/-- The place that a key stands for. -/
def placeOf? (key : Text) : Option Nat :=
  key.chars?.bind fun cs => (String.ofList cs).toNat?

/-- The name of the node at a place. -/
def nameAt (net : LooseNet) (place : Nat) : Text :=
  (net.nodes[place]?.map fun n => n.node.name).getD ""

/-- The colour of the node at a place. -/
def colorAt (net : LooseNet) (place : Nat) : Datum :=
  (net.nodes[place]?.map fun n => n.node.color).getD .null

/-- The places of the links that leave a node. -/
def outgoingAt (net : LooseNet) (place : Nat) : List Nat :=
  (List.range net.links.length).filter fun i =>
    (net.links[i]?.map LooseLink.source) == some place

/-- The places of the links that enter a node. -/
def incomingAt (net : LooseNet) (place : Nat) : List Nat :=
  (List.range net.links.length).filter fun i =>
    (net.links[i]?.map LooseLink.target) == some place

/-- The identity of a link inside a network. -/
def linkIdAt (net : LooseNet) (place : Nat) : LinkId :=
  let source := (net.links[place]?.map LooseLink.source).getD 0
  ⟨key source, (net.outgoingAt source).idxOf place⟩

/-- The node at a place with its links attached, under its key. -/
def keyedNode (net : LooseNet) (place : Nat) : Option Node :=
  net.nodes[place]?.map fun n =>
    { n.node with
      name := key place
      outgoing := (net.outgoingAt place).filterMap fun i =>
        net.links[i]?.map fun l =>
          { target := key l.target, value := l.value, color := l.color
            description := l.description }
      incoming := (net.incomingAt place).map net.linkIdAt }

/-- The network of all nodes. -/
def network (net : LooseNet) : Network where
  node? := fun k => (placeOf? k).bind net.keyedNode
  resolver? := fun k => ((placeOf? k).bind fun place => net.nodes[place]?).bind LooseNode.resolver?
  room := net.nodes.length + net.links.length + 1

/-- The name of the node under a key. -/
def nameOfKey (net : LooseNet) (k : Text) : Text := net.nameAt ((placeOf? k).getD 0)

/-- A failure with the names of nodes in place of their keys. -/
def nameFailure (net : LooseNet) : Failure → Failure
  | .detachedNode k => .detachedNode (net.nameOfKey k)
  | .detachedLink s t => .detachedLink (net.nameOfKey s) (net.nameOfKey t)
  | failure => failure

/-- Reads values with failures that name the nodes. -/
def named {α : Type} (net : LooseNet) (x : Read α) : Read α := do
  match ← Read.attempt x with
  | .ok a => return a
  | .error failure => throw (net.nameFailure failure)

/-- Reads the value of the node at a place. -/
def nodeValue (net : LooseNet) (place : Nat) : Read Datum :=
  net.named (net.network.nodeValue (key place))

/-- Reads the sum of the links that leave the node at a place. -/
def outgoingValue (net : LooseNet) (place : Nat) : Read Datum :=
  net.named (net.network.outgoingValue (key place))

/-- Reads the value of the link at a place. -/
def linkValue (net : LooseNet) (place : Nat) : Read Datum :=
  net.named (net.network.linkValue (net.linkIdAt place))

/-- The colour of a link: its own unless that is missing or random, else that of its target, else
that of its source. -/
def linkColor (net : LooseNet) (l : LooseLink) : Datum :=
  if l.color.isFixedColor then l.color else (net.colorAt l.target).orElse (net.colorAt l.source)

/-- The short description of a link. -/
def describeLink (net : LooseNet) (l : LooseLink) : Text :=
  (LinkId.mk (net.nameAt l.source) 0).describe (net.nameAt l.target)

/-- Gives every node the resolver of a graph. -/
def attach (net : LooseNet) (resolver? : Option Resolver) : LooseNet :=
  { net with nodes := net.nodes.map fun n => { n with resolver? } }

/-- Attaches a new link. -/
def addLink (net : LooseNet) (source target : Nat) (fields : Entries) : LooseNet :=
  let link : LooseLink :=
    { source
      target
      value := Entries.get fields "value"
      color := Entries.get fields "color"
      description := Entries.get fields "description" }
  { net with links := net.links ++ [link] }

/-- The places of all links, node by node. -/
def linksInOrder (net : LooseNet) : List Nat :=
  (List.range net.nodes.length).flatMap net.outgoingAt

/-- The short description of the graph of all nodes. -/
def describeGraph (net : LooseNet) (suffix : Text) : Text :=
  "Graph(suffix=" ++ quoted suffix ++ ", nodes=" ++ toString net.nodes.length ++ ", links=" ++
    toString net.linksInOrder.length ++ ")"

/-- What a node shows of itself: its display name, description, colour and value. -/
def nodeSummary (net : LooseNet) (place : Nat) : Read Datum := do
  match net.nodes[place]? with
  | none => throw .wrongType
  | some n =>
    let value ← net.nodeValue place
    return .map
      [(.text "name", .text n.node.displayName), (.text "description", n.node.description),
       (.text "color", n.node.color), (.text "value", value)]

/-- What a link shows of itself: the display names of its ends, its colour and its value. -/
def linkSummary (net : LooseNet) (place : Nat) : Read Datum := do
  match net.links[place]? with
  | none => throw .wrongType
  | some l =>
    let shown := fun (place : Nat) =>
      Datum.text ((net.nodes[place]?.map fun n => n.node.displayName).getD "")
    let value ← net.linkValue place
    return .map
      [(.text "source", shown l.source), (.text "target", shown l.target),
       (.text "color", net.linkColor l), (.text "value", value)]

end LooseNet

end StockFlow
