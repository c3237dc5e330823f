import StockFlow.Graph.Basic
import StockFlow.Plugin.Basic
/-!
# Networks

What the computation of values needs to know of a graph: its nodes by name, whether and how the
values of a node are resolved, and the room on the stack. An `Item` is a value that can be read
and remembered: that of a node or that of a link.

The values that are being computed stand on a stack, each of them waiting for the next one, and the
stack ends somewhere. Its *room* is the number of values that can stand on it; how many frames of an
interpreter a value takes is not told apart. A graph can be read on a stack with any room
(`Graph.networkOn`). Where nothing is said about the room, there is enough for all values of the graph
(`Graph.network`), so that no chain of values exhausts the stack unless it is endless.
-/

namespace StockFlow

/-- A value of a graph. -/
inductive Item where
  | node (name : Text)
  | link (id : LinkId)
deriving DecidableEq

/-- A graph as the computation of values sees it, on a stack with room for some values at a time. -/
structure Network where
  node? : Text → Option Node
  resolver? : Text → Option Resolver
  room : Nat

namespace Graph

/-- The number of values of a graph. -/
def valueCount (g : Graph) : Nat := g.nodes.length + g.linkCount

/-- The network of a graph, read on a stack with a given room. -/
def networkOn (g : Graph) (room : Nat) : Network where
  node? := g.node?
  resolver? := fun _ => g.resolver
  room := room

/-- The network of a graph, read on a stack with room for all its values and one more. -/
def network (g : Graph) : Network := g.networkOn (g.valueCount + 1)

end Graph

namespace Network

/-- The link of an identity. -/
def link? (net : Network) (id : LinkId) : Option Link :=
  (net.node? id.source).bind fun n => n.outgoing[id.position]?

/-- The resolver of an item, which for a link is that of its source. -/
def itemResolver? (net : Network) : Item → Option Resolver
  | .node name => net.resolver? name
  | .link id => net.resolver? id.source

/-- Why an item without a resolver cannot be read. -/
def detached (net : Network) : Item → Failure
  | .node name => .detachedNode name
  | .link id => .detachedLink id.source (((net.link? id).map Link.target).getD "")

/-- The node at a place, as seen from a link. -/
def nodeAt? (net : Network) (id : LinkId) : Place → Option Node
  | .source => net.node? id.source
  | .target => (net.link? id).bind fun link => net.node? link.target
  | .sourceOf place position => do
    let n ← net.nodeAt? id place
    let entering ← n.incoming[position]?
    net.node? entering.source
  | .targetOf place position => do
    let n ← net.nodeAt? id place
    let leaving ← n.outgoing[position]?
    net.node? leaving.target

end Network

/-- The number that is declared for a node, if it counts. -/
def Resolver.declaredNumber? (r : Resolver) (value : Datum) : Option Number :=
  match toNumber value with
  | some number => if number.isZero && r.zeroIsUnset then none else some number
  | none => none

end StockFlow
