import StockFlow.Datum.Display
import StockFlow.Plugin.Basic
/-!
# A catalogue of plugins

Plugins that a sheet can ask for by name: constants, shares of the source, the outflow of the
target, and some that count their calls, count their parameters or fail. `offerNamed` finds them.
-/

namespace StockFlow.Catalogue

/-- Counts its calls. -/
def count : Plugin := .cell fun calls _ => .ok (.int (calls + 1))

/-- Answers the number of its parameters, a mark of its own among them. -/
def countParameters : Plugin :=
  .script fun params =>
    .answer (.int (Entries.insert params (.text "added_by_plugin") (.int 1)).length)

/-- Answers its amount, zero if it is given none. -/
def amount : Plugin :=
  .script fun params => .answer ((Entries.find? params (.text "amount")).getD (.int 0))

/-- A multiple of the value of the source. -/
def share : Plugin :=
  .script fun params =>
    .read (.value .source) fun value =>
      match value.number?, Entries.find? params (.text "of") with
      | some number, some factor => .ofExcept (number.times factor)
      | some _, none => .fail .missingKey
      | none, _ => .fail .wrongType

/-- What the target passes on. -/
def outflow : Plugin :=
  .script fun _ => .read (.outgoingValue .target) .answer

/-- Fails always, in a given way. -/
def failing (failure : Failure) : Plugin :=
  .script fun _ => .fail failure

/-- Answers forty-two. -/
def fortyTwo : Plugin :=
  .script fun _ => .answer (.int 42)

/-- The plugin that brings the name `constant`. -/
def constantOffer : Offer := .named "constant" amount

/-- The plugin that brings the name `forty_two`. -/
def fortyTwoOffer : Offer := .named "forty_two" fortyTwo

/-- What the catalogue offers under a name. -/
def offerNamed (name : String) : Offer :=
  match name with
  | "count" => .function count
  | "nparams" => .function countParameters
  | "const" => .function amount
  | "constant" => constantOffer
  | "share" => .function share
  | "out" => .function outflow
  | "boom" => .function (failing .badValue)
  | "sheet_error" => .function (failing (.refused "from plugin"))
  | "exhaust" => .function (failing .exhausted)
  | "forty_two" => fortyTwoOffer
  | _ => .other

end StockFlow.Catalogue
