import StockFlow.Binary64.Basic
import StockFlow.Binary64.Decimal
import StockFlow.Calendar
import StockFlow.Datum.Basic
import StockFlow.Datum.Display
import StockFlow.Datum.Part
import StockFlow.Digest
import StockFlow.Document.Basic
import StockFlow.Document.Files
import StockFlow.Document.Format
import StockFlow.Document.Load
import StockFlow.Engine
import StockFlow.Expression
import StockFlow.Failure
import StockFlow.Graph.Basic
import StockFlow.Graph.Color
import StockFlow.Graph.Copy
import StockFlow.Graph.Loose
import StockFlow.Graph.Order
import StockFlow.Json.Reader
import StockFlow.Json.Writer
import StockFlow.Number
import StockFlow.Numeral
import StockFlow.Output.Rows
import StockFlow.Plugin.Basic
import StockFlow.Plugin.Catalogue
import StockFlow.Plugin.Discovery
import StockFlow.Plugin.Registry
import StockFlow.Sheet.Builder
import StockFlow.Sheet.Collection
import StockFlow.Sheet.Localization
import StockFlow.Sheet.Settings
import StockFlow.Text.Basic
import StockFlow.Text.Blank
import StockFlow.Text.DecimalDigit
import StockFlow.Text.Printable
import StockFlow.Text.Quoted
import StockFlow.Value.Live
import StockFlow.Value.Network
import StockFlow.Value.Reading
import StockFlow.Yaml.Atom
import StockFlow.Yaml.Cursor
import StockFlow.Yaml.Merge
import StockFlow.Yaml.Node
import StockFlow.Yaml.Pattern
import StockFlow.Yaml.Scalar
import StockFlow.Yaml.Schema
import StockFlow.Yaml.Timestamp
import StockFlow.Yaml.Token
import StockFlow.Yaml.Value
import StockFlow.Proofs.Value.Bounds
import StockFlow.Proofs.Value.Settled
import StockFlow.Proofs.Value.Passes
import StockFlow.Proofs.Graph.Coloring
import StockFlow.Proofs.Datum.Knots
import StockFlow.Proofs.Graph.Walk
import StockFlow.Proofs.Sheet.Outline
import StockFlow.Proofs.Sheet.Variants
import StockFlow.Proofs.Sheet.Construction
import StockFlow.Proofs.Sheet.Cycles
import StockFlow.Proofs.Sheet.Acceptance
import StockFlow.Proofs.Output.Rows
import StockFlow.Proofs.Sheet.Built
import StockFlow.Proofs.Value.Relabel
import StockFlow.Proofs.Output.Languages
import StockFlow.Proofs.Datum.Layers
import StockFlow.Proofs.Datum.Decoded
import StockFlow.Proofs.Datum.Written
import StockFlow.Proofs.Document.Formats
import StockFlow.Proofs.Document.Load
import StockFlow.Proofs.Graph.Links
import StockFlow.Proofs.Value.Demand
import StockFlow.Proofs.Value.Judgement
import StockFlow.Proofs.Value.Sessions
import StockFlow.Proofs.Sheet.Linked
import StockFlow.Proofs.Value.Agreement
import StockFlow.Proofs.Value.Replay
import StockFlow.Proofs.Output.Snapshot
import StockFlow.Proofs.Value.Dependency
import StockFlow.Proofs.Value.Grounded
import StockFlow.Proofs.Value.Flow
import StockFlow.Proofs.Document.Awaiting
import StockFlow.Proofs.Document.Embedding
import StockFlow.Proofs.Document.Failures
import StockFlow.Proofs.Document.Chains
import StockFlow.Proofs.Yaml.Failures
import StockFlow.Proofs.Yaml.Nodes
import StockFlow.Proofs.Yaml.Values
import StockFlow.Proofs.Sheet.Gathering
import StockFlow.Proofs.Sheet.Assembly
import StockFlow.Proofs.Graph.ColorRules
import StockFlow.Proofs.Graph.ColorPass
import StockFlow.Proofs.Graph.Copy
import StockFlow.Proofs.Value.Copies
import StockFlow.Proofs.Document.Leaks
import StockFlow.Proofs.Sheet.Rearranged
import StockFlow.Proofs.Value.Rearranged
import StockFlow.Proofs.Output.Ends
import StockFlow.Proofs.Graph.Parts
import StockFlow.Proofs.Sheet.Apart
import StockFlow.Proofs.Value.Apart
import StockFlow.Proofs.Json.Grammar
import StockFlow.Proofs.Json.Pieces
import StockFlow.Proofs.Json.Numerals
import StockFlow.Proofs.Json.Reading
import StockFlow.Proofs.Json.Writing
import StockFlow.Proofs.Output.Json
import StockFlow.Proofs.Json.Portable
import StockFlow.Proofs.Yaml.Cursors
import StockFlow.Proofs.Yaml.Quoted
import StockFlow.Proofs.Yaml.Plain
import StockFlow.Proofs.Yaml.Kinds
import StockFlow.Proofs.Yaml.Numerals
import StockFlow.Proofs.Yaml.Tokens
import StockFlow.Proofs.Yaml.Trees
import StockFlow.Proofs.Yaml.Tables
import StockFlow.Proofs.Yaml.Data
import StockFlow.Proofs.Yaml.Layout
import StockFlow.Proofs.Yaml.Flow
import StockFlow.Proofs.Document.Portable
import StockFlow.Proofs.Document.Installed
import StockFlow.Proofs.Graph.Visits
import StockFlow.Proofs.Sheet.CycleReport
import StockFlow.Proofs.Sheet.AllOrNothing
import StockFlow.Proofs.Graph.Hidden
import StockFlow.Proofs.Graph.LastingColors
import StockFlow.Proofs.Document.Translations
import StockFlow.Proofs.Binary64.Rounding
import StockFlow.Proofs.Binary64.Arithmetic
import StockFlow.Proofs.Binary64.Hundredths
import StockFlow.Proofs.WholeNumeral
import StockFlow.Proofs.Numeral
import StockFlow.Proofs.Value.Passages
import StockFlow.Proofs.Value.Percentages
import StockFlow.Proofs.Expression
import StockFlow.Proofs.Value.Numerals
import StockFlow.Proofs.Value.Nested
import StockFlow.Proofs.Value.Calls
import StockFlow.Proofs.Sheet.Presentation
