import StockFlow.Failure
import StockFlow.Graph.Basic
/-!
# Copies of graphs

A copy of a graph is made of new nodes and new links. The nodes are copied first, without their links.
Then every link is copied, node by node and in order, and leaves the copy of its source after the links
copied before. Which link is the copy of which is noted, so that in the end every copy of a node learns
in which order links enter it.
-/

namespace StockFlow

/-- A node with the same declared data and no links attached. -/
def Node.unlinked (n : Node) : Node := { n with outgoing := [], incoming := [] }

/-- A resolver with the same policy and nothing remembered. -/
def Resolver.fork (r : Resolver) : Resolver := { zeroIsUnset := r.zeroIsUnset }

/-- A graph that is being copied: the copies of its nodes, and every link copied so far with its
copy. -/
structure Copying where
  nodes : List Node
  links : List (LinkId × LinkId)

namespace Copying

/-- The copies of the nodes of a graph before any link is copied. -/
def start (g : Graph) : Copying where
  nodes := g.nodes.map Node.unlinked
  links := []

/-- The copy of the node of a name. -/
def node? (c : Copying) (name : Text) : Option Node :=
  c.nodes.find? fun n => n.name == name

/-- Copies a link between the copies of its ends. -/
def addLink (c : Copying) (entry : LinkId × Link) : Except Failure Copying :=
  match c.node? entry.1.source, c.node? entry.2.target with
  | some source, some target =>
    let link := { entry.2 with target := target.name }
    .ok {
      nodes := c.nodes.map fun n =>
        if n.name == source.name then { n with outgoing := n.outgoing ++ [link] } else n
      links := c.links ++ [(entry.1, ⟨source.name, source.outgoing.length⟩)] }
  | _, _ => .error .missingKey

/-- The copy of a link. -/
def linkCopy (c : Copying) (id : LinkId) : Except Failure LinkId :=
  match c.links.lookup id with
  | some copy => .ok copy
  | none => .error .missingKey

/-- The copy of a node, entered by the copies of the links that enter the node. -/
def finish (c : Copying) (n : Node) : Except Failure Node :=
  match c.node? n.name with
  | some copy => do return { copy with incoming := ← n.incoming.mapM c.linkCopy }
  | none => .error .missingKey

end Copying

/-- A copy of a graph. -/
def Graph.clone (g : Graph) : Except Failure Graph := do
  let copying ← g.links.foldlM Copying.addLink (Copying.start g)
  let nodes ← g.nodes.mapM copying.finish
  return { nodes, suffix := g.suffix, resolver := g.resolver.map Resolver.fork }

end StockFlow
