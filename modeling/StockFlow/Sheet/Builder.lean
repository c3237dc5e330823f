import StockFlow.Sheet.Collection
import StockFlow.Sheet.Settings
import StockFlow.Graph.Color
/-!
# Variants

A builder takes declarations one at a time. A value with alternatives multiplies the collections
held so far: for every alternative in turn, every collection is continued with the declaration whose
value is that alternative, and its suffix grows by the separator and the alternative. Building makes
one coloured graph of every collection.
-/

namespace StockFlow

/-- The variants of a sheet so far, and what separates the parts of their suffixes. -/
structure Builder where
  collections : List Collection := [{}]
  separator : Text := "-"
  zeroIsUnset : Bool := false

namespace Builder

/-- A builder without declarations. -/
def ofSettings (s : Settings) : Builder :=
  { separator := s.variantSeparator, zeroIsUnset := s.zeroIsUnset }

/-- The alternatives of a declaration, if it declares any. -/
def alternatives? (fields : Entries) : Option (List Text) :=
  match Entries.get fields "value" with
  | .text s => if classifyText s = .alternatives then some (splitAlternatives s) else none
  | _ => none

/-- A declaration with another value. -/
def withValue (declaration : Datum) (value : Text) : Datum :=
  declaration.editFields fun fields => Entries.insert fields (.text "value") (.text value)

/-- Adds a declaration to collections in turn. Those before one that fails have been changed. -/
def addEach (declaration : Datum) : List Collection → List Collection × Option Failure
  | [] => ([], none)
  | c :: rest =>
    match c.add declaration with
    | .error failure => (c :: rest, some failure)
    | .ok added =>
      let (changed, failure?) := addEach declaration rest
      (added :: changed, failure?)

/-- Continues collections with a declaration whose value is one of its alternatives. -/
def continueWith (b : Builder) (declaration : Datum) (part : Text) :
    Except Failure (List Collection) :=
  b.collections.mapM fun c => do
    let added ← c.add (withValue declaration part)
    return { added with suffix := c.suffix ++ b.separator ++ part }

/-- Adds a declaration to every variant, and multiplies the variants by its alternatives. Without
alternatives the collections are changed in place, one after the other; with alternatives copies of
them are continued, which replace them when all of them have been. -/
def add (b : Builder) (declaration : Datum) : Builder × Option Failure :=
  match declaredFields declaration with
  | .error failure => (b, some failure)
  | .ok fields =>
    match alternatives? fields with
    | none =>
      let (collections, failure?) := addEach declaration b.collections
      ({ b with collections }, failure?)
    | some parts =>
      match parts.mapM (b.continueWith declaration) with
      | .error failure => (b, some failure)
      | .ok expanded => ({ b with collections := expanded.flatten }, none)

/-- Adds declarations until one fails. -/
def addAll (b : Builder) : List Datum → Builder × Option Failure
  | [] => (b, none)
  | declaration :: rest =>
    match b.add declaration with
    | (b, none) => addAll b rest
    | (b, some failure) => (b, some failure)

/-- The number of variants. -/
def variantCount (b : Builder) : Nat := b.collections.length

/-- The coloured graphs of the variants. -/
def build (b : Builder) : Except Failure (List Graph) :=
  b.collections.mapM fun c => do
    let graph ← c.toGraph (some ⟨b.zeroIsUnset⟩)
    let (colored, failure?) := graph.colorNodes category10
    match failure? with
    | none => return colored
    | some failure => throw failure

end Builder

/-- The coloured graphs of a list of declarations. -/
def buildGraphs (s : Settings) (declarations : List Datum) : Except Failure (List Graph) :=
  match (Builder.ofSettings s).addAll declarations with
  | (b, none) => b.build
  | (_, some failure) => .error failure

end StockFlow
