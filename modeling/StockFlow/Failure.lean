import StockFlow.Text.Basic
/-!
# Failures

Everything that can go wrong with a sheet, as causes. `Failure.message` words a cause where the
wording is part of the answer, and `Failure.kind` names the family it belongs to, which is all that
an answer shows of the other causes.
-/

namespace StockFlow

/-- What is wrong with a JSON text, at the place where it shows. -/
inductive JsonProblem where
  | value
  | propertyName
  | colon
  | comma
  | extraData
  | unterminatedText
  | controlCharacter
  | escape
  | unicodeEscape
  | byteOrderMark
deriving DecidableEq

/-- The wording of a problem. -/
def JsonProblem.message : JsonProblem → String
  | .value => "Expecting value"
  | .propertyName => "Expecting property name enclosed in double quotes"
  | .colon => "Expecting ':' delimiter"
  | .comma => "Expecting ',' delimiter"
  | .extraData => "Extra data"
  | .unterminatedText => "Unterminated string starting at"
  | .controlCharacter => "Invalid control character at"
  | .escape => "Invalid \\escape"
  | .unicodeEscape => "Invalid \\uXXXX escape"
  | .byteOrderMark => "Unexpected UTF-8 BOM (decode using utf-8-sig)"

/-- Why a sheet, an embedded sheet or a table of names could not be loaded. -/
inductive LoadFailure where
  | invalidYaml
  | invalidJson (line column : Nat) (problem : JsonProblem)
  | identifierNotText (literal : Text)
  | noFiles (identifier : Text)
  | unreadable (identifier reason : Text)
  | notFound (identifier : Text)
  | deferred (identifier : Text)
  | sheetNotMapping (identifier : Text)
  | tableNotMapping (display : Text)
  | referenceNotTable (literal : Text)
  | embedsNotList (source literal : Text)
  | embedNotText (source literal : Text)
  | languagesNotMapping (source : Text)
  | cyclicEmbed (path : List Text)
  | raised (message : Text)
deriving DecidableEq

/-- The wording of a load failure. -/
def LoadFailure.message : LoadFailure → Text
  | .invalidYaml => "Invalid YAML"
  | .invalidJson line column problem =>
    "Invalid JSON at line " ++ toString line ++ ", column " ++ toString column ++ ": " ++
      problem.message
  | .identifierNotText literal => "Invalid document identifier: " ++ literal
  | .noFiles identifier => "Cannot load '" ++ identifier ++ "': no get_file callback given"
  | .unreadable identifier reason => "Cannot load '" ++ identifier ++ "': " ++ reason
  | .notFound identifier => "Cannot load '" ++ identifier ++ "': not found"
  | .deferred identifier =>
    "Cannot load '" ++ identifier ++ "': get_file returned an awaitable, use the async variant"
  | .sheetNotMapping identifier => "Sheet '" ++ identifier ++ "' is not a mapping"
  | .tableNotMapping display => "Translation table '" ++ display ++ "' is not a mapping"
  | .referenceNotTable literal => "Invalid translation reference: " ++ literal
  | .embedsNotList source literal =>
    "'embed' of '" ++ source ++ "' must be a list, got " ++ literal
  | .embedNotText source literal =>
    "Invalid embed identifier in '" ++ source ++ "': " ++ literal
  | .languagesNotMapping source => "'translations' of '" ++ source ++ "' must be a mapping"
  | .cyclicEmbed path => "Cyclic embed: " ++ Text.join " → " path
  | .raised message => message

/-- Why an operation on a sheet failed. -/
inductive Failure where
  /-- A node declaration has no name. -/
  | unnamedNode (declaration : Text)
  /-- A link of a node has no target. -/
  | untargetedLink (node : Text)
  /-- A value depends on itself. -/
  | tooDeep
  /-- A plugin refused the sheet in its own words. -/
  | refused (message : Text)
  /-- The links form a cycle. -/
  | cycle (path : List Text)
  /-- A plugin value names no plugin. -/
  | pluginUnnamed
  /-- A plugin value names a plugin that is not registered. -/
  | pluginUnknown (name : Text)
  /-- A document could not be loaded. -/
  | load (cause : LoadFailure)
  /-- What was offered as a plugin cannot be called. -/
  | notPlugin
  /-- There is no format to read documents with. -/
  | noFormat
  /-- The value of a node was read that belongs to no resolved graph. -/
  | detachedNode (node : Text)
  /-- The value of a link was read that belongs to no resolved graph. -/
  | detachedLink (source target : Text)
  /-- A value of the wrong type was used. -/
  | wrongType
  /-- A number left the range of the format. -/
  | overflow
  /-- A value of the right type cannot be used. -/
  | badValue
  /-- A key is missing. -/
  | missingKey
  /-- A position lies beyond the end. -/
  | outOfBounds
  /-- Bytes are not UTF-8. -/
  | notUtf8
  /-- A text has no encoding in UTF-8. -/
  | notEncodable
  /-- A value is too large to be kept. -/
  | outOfMemory
  /-- A palette has no colours. -/
  | emptyPalette
  /-- A plugin ran out of depth. -/
  | exhausted
deriving DecidableEq

/-- The family of a failure. -/
inductive FailureKind where
  | sheet
  | structural
  | pluginReference
  | load
  | type
  | value
  | state
  | range
  | key
  | index
  | decoding
  | encoding
  | memory
  | division
  | depth
deriving DecidableEq

namespace Failure

/-- The family that a failure belongs to. -/
def kind : Failure → FailureKind
  | .unnamedNode _ | .untargetedLink _ | .tooDeep | .refused _ => .sheet
  | .cycle _ => .structural
  | .pluginUnnamed | .pluginUnknown _ => .pluginReference
  | .load _ => .load
  | .notPlugin | .wrongType => .type
  | .noFormat | .badValue => .value
  | .detachedNode _ | .detachedLink _ _ => .state
  | .overflow => .range
  | .missingKey => .key
  | .outOfBounds => .index
  | .notUtf8 => .decoding
  | .notEncodable => .encoding
  | .outOfMemory => .memory
  | .emptyPalette => .division
  | .exhausted => .depth

/-- The wording of a failure, where it has one. -/
def message? : Failure → Option Text
  | .unnamedNode declaration => some ("Node declaration without a name: " ++ declaration)
  | .untargetedLink node => some ("Link of node '" ++ node ++ "' has no target")
  | .tooDeep =>
    some ("Value of <item> depends on a chain too deep to resolve in one read; " ++
      "read the graph in node order inside resolver.caching()")
  | .refused message => some message
  | .cycle path => some ("Cyclic node: " ++ Text.join " → " path)
  | .pluginUnnamed => some "Prop \"plugin\" missing in value declaration"
  | .pluginUnknown name => some ("Unknown plugin " ++ name)
  | .load cause => some cause.message
  | .notPlugin => some "plugin_fn should be a function"
  | .noFormat => some "At least one sheet parser is required"
  | .detachedNode node => some ("Node(" ++ node ++ ") is not part of a built graph")
  | .detachedLink source target =>
    some ("Link(" ++ source ++ " -> " ++ target ++ ") is not part of a built graph")
  | _ => none

end Failure

end StockFlow
