import StockFlow.Failure
import StockFlow.Number
/-!
# Value plugins

A value plugin computes the value of a link from the mapping that was declared as its value. There
are two kinds. A script may read values of the graph, one after the other, and its answer is
determined by the parameters and by what it read; a value that cannot be read ends it. A cell reads
nothing, but its answer may change from call to call.
-/

namespace StockFlow

/-- A node of the graph as seen from the link that is valued. -/
inductive Place where
  | source
  | target
  /-- The source of the link that enters a node at a position. -/
  | sourceOf (place : Place) (position : Nat)
  /-- The target of the link that leaves a node at a position. -/
  | targetOf (place : Place) (position : Nat)
deriving DecidableEq

/-- What a script can read: the value of a node, the sum of the links that leave it, how many links
enter or leave it, or the value of one of them. -/
inductive Probe where
  | value (place : Place)
  | outgoingValue (place : Place)
  | incomingCount (place : Place)
  | outgoingCount (place : Place)
  | incomingLink (place : Place) (position : Nat)
  | outgoingLink (place : Place) (position : Nat)
deriving DecidableEq

/-- A computation that reads values of the graph. -/
inductive Script where
  | answer (value : Datum)
  | fail (failure : Failure)
  | read (probe : Probe) (next : Datum → Script)

/-- Runs a script with a way to read. -/
def Script.run {m : Type → Type} [Monad m] [MonadExceptOf Failure m] (read : Probe → m Datum) :
    Script → m Datum
  | .answer value => pure value
  | .fail failure => throw failure
  | .read probe next => do
    let value ← read probe
    (next value).run read

/-- The outcome of a computation that needs no reading. -/
def Script.ofExcept : Except Failure Datum → Script
  | .ok value => .answer value
  | .error failure => .fail failure

/-- A value plugin. -/
inductive Plugin where
  /-- A function of the parameters and of the values that it reads. -/
  | script (body : Entries → Script)
  /-- A function of the number of earlier calls and of the parameters. -/
  | cell (answer : Nat → Entries → Except Failure Datum)

instance : Inhabited Plugin := ⟨.script fun _ => .answer .null⟩

/-- What may be offered for registration: a plugin, a plugin that brings its own name, or something
that is no plugin. -/
inductive Offer where
  | function (plugin : Plugin)
  | named (name : Text) (plugin : Plugin)
  | other

end StockFlow
