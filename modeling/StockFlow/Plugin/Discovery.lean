import StockFlow.Document.Format
import StockFlow.Plugin.Catalogue
import StockFlow.Plugin.Registry
/-!
# Discovery of plugins

Formats and value plugins can be installed under entry points: named places in named groups. A
search looks through one group for the plugins of one kind and passes over whatever cannot be loaded
or is of another kind. It looks only once; of several entry points of one name the last one counts,
in the place of the first.
-/

namespace StockFlow

/-- What stands under an entry point. -/
inductive EntryTarget where
  /-- A format that is always there. -/
  | standardFormat (format : Format)
  /-- Another format. -/
  | format (format : Format)
  /-- A value plugin with the name it brings. -/
  | valuePlugin (name : Text) (plugin : Plugin)
  /-- Something that is no plugin. -/
  | foreign
  /-- Something that cannot be loaded. -/
  | broken

/-- The entry points by group. -/
abbrev EntryTable := List (Text × List (Text × EntryTarget))

/-- The kinds of plugins. -/
inductive PluginBase where
  | sheetParser
  | valuePlugin
deriving DecidableEq

/-- The name of a kind. -/
def PluginBase.name : PluginBase → String
  | .sheetParser => "SheetParserPlugin"
  | .valuePlugin => "ValuePlugin"

/-- The group of the entry points of formats. -/
def sheetParserGroup : Text := "flowsheet.sheet_parser"

/-- The group of the entry points of value plugins. -/
def valuePluginGroup : Text := "flowsheet.value_plugin"

/-- Whether a target is a plugin of a kind. -/
def EntryTarget.hasBase (t : EntryTarget) (base : PluginBase) : Bool :=
  match t, base with
  | .standardFormat _, .sheetParser => true
  | .format _, .sheetParser => true
  | .valuePlugin _ _, .valuePlugin => true
  | _, _ => false

/-- The name that a plugin brings. -/
def EntryTarget.pluginName : EntryTarget → Text
  | .standardFormat f => f.name
  | .format f => f.name
  | .valuePlugin name _ => name
  | _ => ""

/-- What the catalogue offers as targets of entry points. -/
def targetNamed (name : String) : EntryTarget :=
  match name with
  | "FortyTwo" => .valuePlugin "forty_two" Catalogue.fortyTwo
  | "Constant" => .valuePlugin "constant" Catalogue.amount
  | "LinesParser" => .format .lines
  | "YamlParser" => .standardFormat .yaml
  | "JsonParser" => .standardFormat .json
  | "broken" => .broken
  | _ => .foreign

/-- A search through one group. -/
structure Search where
  base : PluginBase
  group : Text
  found? : Option (List (Text × EntryTarget)) := none

namespace Search

/-- A search for formats. -/
def sheetParsers : Search := { base := .sheetParser, group := sheetParserGroup }

/-- A search for value plugins. -/
def valuePlugins : Search := { base := .valuePlugin, group := valuePluginGroup }

/-- Adds a plugin, in the place of one found under the same entry name. -/
def addFound (found : List (Text × EntryTarget)) (entry : Text × EntryTarget) :
    List (Text × EntryTarget) :=
  if found.any fun e => e.1 == entry.1 then
    found.map fun e => if e.1 == entry.1 then entry else e
  else found ++ [entry]

/-- The plugins of a kind in a group. -/
def scan (table : EntryTable) (base : PluginBase) (group : Text) :
    List (Text × EntryTarget) :=
  let entries := (table.lookup group).getD []
  (entries.filter fun e => e.2.hasBase base).foldl addFound []

/-- Looks through the group unless that has been done. -/
def load (s : Search) (table : EntryTable) : Search × List (Text × EntryTarget) :=
  match s.found? with
  | some found => (s, found)
  | none =>
    let found := scan table s.base s.group
    ({ s with found? := some found }, found)

/-- The short description of a search. -/
def describe (s : Search) : Text :=
  "PluginLoader(base=" ++ s.base.name ++ ", group='" ++ s.group ++ "', loaded=" ++
    toString ((s.found?.map List.length).getD 0) ++ ")"

end Search

/-- The further formats that are installed. -/
def installedFormats (table : EntryTable) : List Format :=
  (Search.scan table .sheetParser sheetParserGroup).filterMap fun e =>
    match e.2 with
    | .format f => some f
    | _ => none

/-- The value plugins that are installed. -/
def installedPlugins (table : EntryTable) : List Offer :=
  (Search.scan table .valuePlugin valuePluginGroup).filterMap fun e =>
    match e.2 with
    | .valuePlugin name plugin => some (.named name plugin)
    | _ => none

end StockFlow
