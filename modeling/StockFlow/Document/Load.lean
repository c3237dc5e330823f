import StockFlow.Document.Basic
import StockFlow.Document.Files
import StockFlow.Document.Format
import StockFlow.Sheet.Settings
/-!
# Loading documents

A sheet is read together with everything it refers to. The node declarations of an embedded sheet
follow those of the sheet that embeds it, and those of the sheets that it embeds in turn come next;
a sheet that is reached again inside itself is refused. After all sheets come the tables
of names, in the order in which the sheets declare them. Of several tables for a language, the first
one that has a name decides about it, and inside a table the last entry. Every loading also tells
which identifiers were called for, in order.

There are two loadings, one after the other written out in full: one of them takes what is returned for
an identifier as it is (`Loader.loadNow`), and the other one waits for it where there is something to wait
for (`Loader.loadAwaiting`).
-/

namespace StockFlow

/-- What documents are loaded with. -/
structure Loader where
  formats : List Format
  files? : Option Files
  mode : Mode
  settings : Settings

/-- Computations that fetch documents, with the identifiers fetched so far. What was fetched is known
also when one fails. -/
abbrev Load := ExceptT Failure (StateM (List Text))

/-- The outcome of a computation that fetches nothing. -/
def Load.ofExcept {α : Type} : Except Failure α → Load α
  | .ok a => pure a
  | .error failure => throw failure

/-- A sheet or a table that a sheet refers to for a language. -/
structure Reference where
  language : Text
  table : Datum

/-- The identifiers of the sheets that a sheet embeds. -/
def embedsOf (sheet : Entries) (source : Text) : Except Failure (List Text) := do
  let embeds := Entries.get sheet "embed"
  if !embeds.isTruthy then return []
  match embeds.items? with
  | some items =>
    items.mapM fun item =>
      match item with
      | .text identifier => .ok identifier
      | d => do throw (.load (.embedNotText source (← d.literalText)))
  | none => throw (.load (.embedsNotList source (← embeds.literalText)))

/-- The tables of names that a sheet refers to. -/
def referencesOf (sheet : Entries) (source : Text) : Except Failure (List Reference) := do
  let tables := Entries.get sheet "translations"
  if !tables.isTruthy then return []
  match tables.fields? with
  | some entries =>
    entries.mapM fun (language, table) => do
      return { language := ← (Datum.atom language).displayed, table }
  | none => throw (.load (.languagesNotMapping source))

/-- The node declarations of a sheet itself. -/
def nodesOf (sheet : Entries) : Except Failure (List Datum) :=
  (Entries.get sheet "nodes").givenElements

/-- Adds an entry to a table unless the table has its name. -/
def addEntry (entries : List (Text × Text)) (entry : Text × Text) :
    List (Text × Text) :=
  if (entries.lookup entry.1).isSome then entries else entries ++ [entry]

/-- Sets an entry of a table. -/
def setEntry (entries : List (Text × Text)) (entry : Text × Text) :
    List (Text × Text) :=
  if (entries.lookup entry.1).isSome then
    entries.map fun e => if e.1 == entry.1 then entry else e
  else entries ++ [entry]

/-- The entries of a table as texts. -/
def tableEntries (entries : Entries) : Except Failure (List (Text × Text)) :=
  entries.foldlM (fun table (name, shown) => do
    let nameText ← (Datum.atom name).displayed
    let shownText ← shown.displayed
    return setEntry table (nameText, shownText)) []

/-- Merges the entries for a language into the tables. -/
def mergeTable (tables : List Table) (language : Text) (entries : List (Text × Text)) :
    List Table :=
  if tables.any fun t => t.language == language then
    tables.map fun t =>
      if t.language == language then { t with entries := entries.foldl addEntry t.entries } else t
  else tables ++ [⟨language, entries⟩]

namespace Loader

/-- Calls for an identifier. -/
def call (l : Loader) (identifier : Text) : Load Returned := do
  match l.files? with
  | none => throw (.load (.noFiles identifier))
  | some files =>
    modify fun fetched => fetched ++ [identifier]
    Load.ofExcept (files.call identifier)

/-- Reads a text in the format for its identifier. -/
def parse (l : Loader) (identifier text : Text) : Except Failure Datum := do
  (← formatFor l.formats identifier).parse text

/-- Reads a sheet. An empty document is an empty sheet. -/
def decodeSheet (l : Loader) (identifier text : Text) : Except Failure Entries := do
  match ← l.parse identifier text with
  | .null => return []
  | d =>
    match d.fields? with
    | some entries => return entries
    | none => throw (.load (.sheetNotMapping identifier))

/-- The document of a sheet, given its tables and the declarations of all sheets. -/
def assemble (l : Loader) (sheet : Entries) (tables : List Table) (nodes : List Datum) : Document where
  title := Entries.get sheet "title"
  unit := Entries.get sheet "unit"
  width := (Entries.get sheet "width").orElse (.int l.settings.defaultWidth)
  height := (Entries.get sheet "height").orElse (.int l.settings.defaultHeight)
  tables := tables
  nodes := nodes

/-! ### Without waiting -/

/-- Fetches the document of an identifier, which has to be there. -/
def fetchNow (l : Loader) (identifier : Text) : Load Text := do
  let returned ← l.call identifier
  Load.ofExcept (returned.now identifier)

/-- The declarations and references of the sheets that a sheet embeds, which is the last of the
trail. The depth bounds the length of the trail; a trail longer than the table of files has come
back to one of its own. -/
def embeddedNow (l : Loader) :
    (depth : Nat) → (trail : List Text) → Entries → Load (List Datum × List Reference)
  | 0, trail, _ => throw (.load (.cyclicEmbed trail))
  | depth + 1, trail, sheet => do
    let identifiers ← Load.ofExcept (embedsOf sheet (trail.getLast?.getD []))
    let parts ← identifiers.mapM fun identifier => do
      if trail.contains identifier then throw (.load (.cyclicEmbed (trail ++ [identifier])))
      let text ← l.fetchNow identifier
      let sheet ← Load.ofExcept (l.decodeSheet identifier text)
      let nodes ← Load.ofExcept (nodesOf sheet)
      let references ← Load.ofExcept (referencesOf sheet identifier)
      let (innerNodes, innerReferences) ← l.embeddedNow depth (trail ++ [identifier]) sheet
      return (nodes ++ innerNodes, references ++ innerReferences)
    return (parts.flatMap Prod.fst, parts.flatMap Prod.snd)

/-- The entries of the table that a reference stands for. -/
def tableNow (l : Loader) (r : Reference) : Load (List (Text × Text)) := do
  match r.table with
  | .text identifier =>
    let text ← l.fetchNow identifier
    let table ← Load.ofExcept (l.parse identifier text)
    match table.fields? with
    | some entries => Load.ofExcept (tableEntries entries)
    | none => throw (.load (.tableNotMapping identifier))
  | table =>
    match table.fields? with
    | some entries => Load.ofExcept (tableEntries entries)
    | none => throw (.load (.referenceNotTable (← Load.ofExcept table.literalText)))

/-- Loads the document of a text. -/
def loadNow (l : Loader) (text source : Text) : Load Document := do
  let sheet ← Load.ofExcept (l.decodeSheet source text)
  let ownNodes ← Load.ofExcept (nodesOf sheet)
  let ownReferences ← Load.ofExcept (referencesOf sheet source)
  let depth := ((l.files?.map fun files => files.entries.length).getD 0) + 1
  let (nodes, references) ← l.embeddedNow depth [source] sheet
  let tables ← (ownReferences ++ references).foldlM (fun tables r => do
    return mergeTable tables r.language (← l.tableNow r)) []
  return l.assemble sheet tables (ownNodes ++ nodes)

/-! ### Waiting -/

/-- Fetches the document of an identifier, waiting for it if need be. -/
def fetchAwaiting (l : Loader) (identifier : Text) : Load Text := do
  let returned ← l.call identifier
  Load.ofExcept (returned.awaited identifier)

/-- The declarations and references of the sheets that a sheet embeds, waiting for each of them. -/
def embeddedAwaiting (l : Loader) :
    (depth : Nat) → (trail : List Text) → Entries → Load (List Datum × List Reference)
  | 0, trail, _ => throw (.load (.cyclicEmbed trail))
  | depth + 1, trail, sheet => do
    let identifiers ← Load.ofExcept (embedsOf sheet (trail.getLast?.getD []))
    let parts ← identifiers.mapM fun identifier => do
      if trail.contains identifier then throw (.load (.cyclicEmbed (trail ++ [identifier])))
      let text ← l.fetchAwaiting identifier
      let sheet ← Load.ofExcept (l.decodeSheet identifier text)
      let nodes ← Load.ofExcept (nodesOf sheet)
      let references ← Load.ofExcept (referencesOf sheet identifier)
      let (innerNodes, innerReferences) ← l.embeddedAwaiting depth (trail ++ [identifier]) sheet
      return (nodes ++ innerNodes, references ++ innerReferences)
    return (parts.flatMap Prod.fst, parts.flatMap Prod.snd)

/-- The entries of the table that a reference stands for, waiting for it. -/
def tableAwaiting (l : Loader) (r : Reference) : Load (List (Text × Text)) := do
  match r.table with
  | .text identifier =>
    let text ← l.fetchAwaiting identifier
    let table ← Load.ofExcept (l.parse identifier text)
    match table.fields? with
    | some entries => Load.ofExcept (tableEntries entries)
    | none => throw (.load (.tableNotMapping identifier))
  | table =>
    match table.fields? with
    | some entries => Load.ofExcept (tableEntries entries)
    | none => throw (.load (.referenceNotTable (← Load.ofExcept table.literalText)))

/-- Loads the document of a text, waiting for everything that it refers to. -/
def loadAwaiting (l : Loader) (text source : Text) : Load Document := do
  let sheet ← Load.ofExcept (l.decodeSheet source text)
  let ownNodes ← Load.ofExcept (nodesOf sheet)
  let ownReferences ← Load.ofExcept (referencesOf sheet source)
  let depth := ((l.files?.map fun files => files.entries.length).getD 0) + 1
  let (nodes, references) ← l.embeddedAwaiting depth [source] sheet
  let tables ← (ownReferences ++ references).foldlM (fun tables r => do
    return mergeTable tables r.language (← l.tableAwaiting r)) []
  return l.assemble sheet tables (ownNodes ++ nodes)

/-- Loads the document of a text with at least one format, waiting or not, and tells what was called
for. -/
def run (l : Loader) (text source : Text) : Except Failure Document × List Text :=
  if l.formats.isEmpty then (.error .noFormat, [])
  else
    match l.mode with
    | .blocking => (l.loadNow text source).run.run []
    | .awaiting => (l.loadAwaiting text source).run.run []

end Loader

end StockFlow
