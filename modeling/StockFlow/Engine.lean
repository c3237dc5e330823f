import StockFlow.Document.Load
import StockFlow.Output.Rows
import StockFlow.Plugin.Discovery
import StockFlow.Sheet.Builder
import StockFlow.Sheet.Localization
import StockFlow.Value.Live
/-!
# The engine

An engine turns the text of a sheet into resolved graphs: it loads the document, builds a graph of
every variant, lists every graph in all its languages, and writes the rows of each. It holds the
formats to read with and the registry of value plugins; the installed ones come first, and those
given by hand replace them.
-/

namespace StockFlow

/-- What sheets are processed with. -/
structure Engine where
  settings : Settings
  formats : List Format
  registry : Registry

/-- The source that a sheet without an identifier has. -/
def rootSource : Text := "<sheet>"

namespace Engine

/-- An engine with the installed plugins, unless the settings leave them out, and the given ones. -/
def create (settings : Settings) (table : EntryTable) (plugins : List (Text × Offer)) :
    Except Failure Engine := do
  let table := if settings.discoverPlugins then table else []
  let formats := Format.standard ++ installedFormats table
  let (registry, failure?) := ({} : Registry).registerAll (installedPlugins table)
  match failure? with
  | some failure => throw failure
  | none =>
    let registry ← plugins.foldlM (fun (r : Registry) (name, offer) => r.register name offer) registry
    return { settings, formats, registry }

/-- The loader of an engine. -/
def loader (e : Engine) (files? : Option Files) (mode : Mode) : Loader :=
  { formats := e.formats, files?, mode, settings := e.settings }

/-- The graphs of a document in all their languages. -/
def graphs (e : Engine) (d : Document) : Except Failure (List Graph) := do
  let built ← buildGraphs e.settings d.nodes
  let languages := d.tables.map fun t => (t.language, shownTexts t.shown?)
  localizeAllBy built languages e.settings.languageSeparator

/-- The output of graphs in turn. -/
def outputs (e : Engine) (d : Document) (graphs : List Graph) : Read (List Datum) :=
  graphs.mapM fun g => g.output e.settings.output d

/-- Loads a sheet and builds its graphs, and tells what was fetched. -/
def resolve (e : Engine) (text : Text) (files? : Option Files) (mode : Mode) :
    Except Failure (Document × List Graph) × List Text :=
  match (e.loader files? mode).run text rootSource with
  | (.error failure, fetched) => (.error failure, fetched)
  | (.ok d, fetched) =>
    match e.graphs d with
    | .ok graphs => (.ok (d, graphs), fetched)
    | .error failure => (.error failure, fetched)

/-- The outputs of a sheet, one for every variant and language, and what was fetched. -/
def parseSheet (e : Engine) (text : Text) (files? : Option Files) (mode : Mode) :
    Except Failure (List Datum) × List Text :=
  match e.resolve text files? mode with
  | (.error failure, fetched) => (.error failure, fetched)
  | (.ok (d, graphs), fetched) => ((Read.runFresh (e.outputs d graphs) e.registry).1, fetched)

/-- The short description of what resolves the values of the graphs of an engine. -/
def describeResolver (e : Engine) : Text :=
  "ValueResolver(plugins=" ++ Registry.describeNames e.registry.names ++ ")"

/-- The short description of an engine. -/
def describe (e : Engine) : Text :=
  "SheetEngine(parsers=" ++ Registry.describeNames (e.formats.map Format.name) ++ ", plugins=" ++
    Registry.describeNames e.registry.names ++ ")"

end Engine

end StockFlow
