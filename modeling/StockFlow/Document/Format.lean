import StockFlow.Json.Reader
import StockFlow.Yaml.Value
/-!
# Formats of documents

A format reads the text of a document, and is chosen by the extension of the identifier of the
document; a document whose extension no format claims is read in the first one.
-/

namespace StockFlow

/-- A way to read documents, the extensions of the documents it reads, in lower case with the point,
and its name. -/
structure Format where
  name : Text
  extensions : List Text
  parse : Text → Except Failure Datum

namespace Format

/-- The format of YAML documents. -/
def yaml : Format := ⟨"YAML Parser", [".yaml", ".yml"], Yaml.parse⟩

/-- The format of JSON documents. -/
def json : Format := ⟨"JSON Parser", [".json"], Json.parse⟩

/-- The pieces of a text between line feeds. -/
def splitLines : Text → List Text
  | [] => [[]]
  | c :: cs =>
    if c = .char '\n' then [] :: splitLines cs
    else
      match splitLines cs with
      | [] => [[c]]
      | line :: lines => (c :: line) :: lines

/-- A sheet with a node for every line that is not empty. -/
def parseLines (text : Text) : Datum :=
  let names := (splitLines text).filter fun line => !line.isEmpty
  let nodes := names.map fun line => Datum.map [(.text "name", .text line)]
  .map [(.text "nodes", .list nodes)]

/-- The format of plain lists of names. -/
def lines : Format := ⟨"Lines Parser", [".lines", ".json"], fun text => .ok (parseLines text)⟩

/-- The formats that are always there. -/
def standard : List Format := [yaml, json]

end Format

/-- The extension of an identifier: what follows the last point of its last part, with the point.
Points at the beginning of that part do not count. -/
def extensionOf (identifier : Text) : Text :=
  let point : CodePoint := .char '.'
  let part := (identifier.reverse.takeWhile (· != .char '/')).reverse
  let stem := part.dropWhile (· == point)
  if stem.contains point then point :: (stem.reverse.takeWhile (· != point)).reverse else []

/-- A code point in lower case; only ASCII letters have two cases. -/
def CodePoint.toLower : CodePoint → CodePoint
  | .char c => .char c.toLower
  | c => c

/-- The format for an identifier, if there is any. Extensions are compared in lower case. -/
def formatFor? (formats : List Format) (identifier : Text) : Option Format :=
  let extension := (extensionOf identifier).map CodePoint.toLower
  match formats.find? fun f => !extension.isEmpty && f.extensions.contains extension with
  | some f => some f
  | none => formats.head?

/-- The format for an identifier. -/
def formatFor (formats : List Format) (identifier : Text) : Except Failure Format :=
  match formatFor? formats identifier with
  | some f => .ok f
  | none => .error .noFormat

/-- The format for an identifier of any kind, which has to be a text. -/
def formatForDatum (formats : List Format) (identifier : Datum) : Except Failure Format :=
  match identifier with
  | .text s => formatFor formats s
  | d =>
    match d.literal? with
    | some literal => .error (.load (.identifierNotText literal))
    | none => .error .badValue

end StockFlow
