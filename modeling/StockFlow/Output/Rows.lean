import StockFlow.Document.Basic
import StockFlow.Json.Writer
import StockFlow.Sheet.Settings
import StockFlow.Value.Reading
/-!
# Output rows

A resolved sheet as plain data: its title with the suffix, its unit and size, a row for every node
and a row for every link, with the chosen fields in their fixed order. Nodes are shown by their
display names. All values of one output are read in one pass. The output can also be had as a JSON text.
-/

namespace StockFlow

section Rows

variable {m : Type → Type} [Monad m] [MonadExceptOf Failure m]

/-- A field of the row of a node, with a way to read values. -/
def nodeField (read : Item → m Datum) (n : Node) (field : String) : m Datum :=
  match field with
  | "name" => return .text n.displayName
  | "description" => return n.description
  | "color" => return n.color
  | "value" => read (.node n.name)
  | "real_value" => read (.node n.name)
  | _ => throw .missingKey

/-- A field of the row of a link, with a way to read values. -/
def linkField (g : Graph) (read : Item → m Datum) (id : LinkId) (link : Link) (field : String) :
    m Datum :=
  match field with
  | "source" => return .text (g.displayName id.source)
  | "target" => return .text (g.displayName link.target)
  | "color" => return g.linkColor id link
  | "value" => read (.link id)
  | "description" => return link.description
  | _ => throw .missingKey

/-- A row of fields. -/
def row (fields : List String) (get : String → m Datum) : m Datum := do
  let entries ← fields.mapM fun field => do
    let value ← get field
    return (Atom.text field, value)
  return .map entries

/-- The rows of a graph under the data of its document, with a way to read values. -/
def Graph.rows (g : Graph) (read : Item → m Datum) (o : OutputSettings) (d : Document) :
    m Datum := do
  let nodeFields ← MonadExcept.ofExcept o.nodeFields
  let linkFields ← MonadExcept.ofExcept o.linkFields
  let title ← MonadExcept.ofExcept (composeTitle d.title g.suffix)
  let nodes ← g.nodes.mapM fun n => row nodeFields (nodeField read n)
  let links ← g.links.mapM fun (id, link) => row linkFields (linkField g read id link)
  return .map
    [(.text "title", title), (.text "unit", d.unit), (.text "width", d.width),
     (.text "height", d.height), (.text "nodes", .list nodes), (.text "links", .list links)]

end Rows

namespace Graph

/-- The output of a graph, read in one pass. -/
def output (g : Graph) (o : OutputSettings) (d : Document) : Read Datum :=
  Read.inPass (g.rows g.network.read o d)

/-- The output of a graph as a JSON text. -/
def json (g : Graph) (o : OutputSettings) (d : Document) : Read Text := do
  Read.ofExcept (Json.render o.indent (← g.output o d))

/-- The suffix, nodes and links of a graph with their standard fields. -/
def summary (g : Graph) : Read Datum := do
  let read := g.network.read
  let nodes ← g.nodes.mapM fun n => row StockFlow.nodeFields (nodeField read n)
  let links ← g.links.mapM fun (id, link) => row StockFlow.linkFields (linkField g read id link)
  return .map
    [(.text "suffix", .text g.suffix), (.text "nodes", .list nodes), (.text "links", .list links)]

end Graph

end StockFlow
