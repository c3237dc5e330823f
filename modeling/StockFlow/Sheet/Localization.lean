import StockFlow.Document.Basic
import StockFlow.Graph.Copy
/-!
# Languages

A graph in another language shows other names and is otherwise the same graph: names are looked up
by the name of a node, never by what is shown for it, and a name that the language lacks is shown as
before. The suffix grows by a separator and the language. `localizeAll` lists every graph followed by
its languages in order, and `localizeAllBy` does so by copies of the graphs, which fails where a graph
cannot be copied or a value has no text.
-/

namespace StockFlow

namespace Graph

/-- The graph in a language, given what the language shows for names. -/
def localize (g : Graph) (language separator : Text) (shown? : Text → Option Text) :
    Graph :=
  { g with
    suffix := g.suffix ++ separator ++ language
    nodes := g.nodes.map fun n => { n with displayName := (shown? n.name).getD n.displayName } }

/-- A language changes no name. -/
theorem names_localize (g : Graph) (language separator : Text)
    (shown? : Text → Option Text) :
    (g.localize language separator shown?).nodes.map Node.name = g.nodes.map Node.name := by
  simp [localize, Function.comp_def]

/-- A language changes no link. -/
theorem links_localize (g : Graph) (language separator : Text)
    (shown? : Text → Option Text) :
    (g.localize language separator shown?).links = g.links := by
  simp [localize, links, List.flatMap_map, Node.linkIds]

/-- The graph in a language that shows values of any kind, of which the absent one leaves a name as
it is. -/
def localizeBy (g : Graph) (language separator : Text) (value : Text → Datum) :
    Except Failure Graph := do
  let shown ← g.nodes.mapM fun n =>
    match value n.name with
    | .null => return (n.name, none)
    | d => do return (n.name, some (← d.displayed))
  return g.localize language separator fun name => (shown.lookup name).join

/-- A copy of the graph in a language. -/
def translate (g : Graph) (language separator : Text) (value : Text → Datum) :
    Except Failure Graph := do
  let copy ← g.clone
  copy.localizeBy language separator value

end Graph

/-- The values that a language shows if it shows texts: the absent one where it lacks a name. -/
def shownTexts (shown? : Text → Option Text) (name : Text) : Datum :=
  ((shown? name).map Datum.text).getD .null

/-- What a table shows for a name. -/
def Table.shown? (t : Table) (name : Text) : Option Text := t.entries.lookup name

/-- Every graph followed by its languages. -/
def localizeAll (graphs : List Graph) (tables : List Table) (separator : Text) : List Graph :=
  graphs.flatMap fun g =>
    g :: tables.map fun t => g.localize t.language separator t.shown?

/-- Every graph is listed once by itself and once for each language. -/
theorem length_localizeAll (graphs : List Graph) (tables : List Table) (separator : Text) :
    (localizeAll graphs tables separator).length = graphs.length * (tables.length + 1) := by
  induction graphs with
  | nil => simp [localizeAll]
  | cons g graphs ih =>
    unfold localizeAll at ih ⊢
    rw [List.flatMap_cons, List.length_append, ih, List.length_cons, List.length_map,
      List.length_cons, Nat.succ_mul, Nat.add_comm]

/-- Every graph followed by copies of it in its languages, which show values of any kind. -/
def localizeAllBy (graphs : List Graph) (languages : List (Text × (Text → Datum)))
    (separator : Text) : Except Failure (List Graph) := do
  let groups ← graphs.mapM fun g => do
    let localized ← languages.mapM fun (language, value) => g.translate language separator value
    return g :: localized
  return groups.flatten

end StockFlow
