import StockFlow.Sheet.Collection
/-!
# Documents

A sheet with its embedded sheets merged in: what it declares about itself, its tables of names by
language, and the node declarations in order.
-/

namespace StockFlow

/-- The table of a language: names and what is shown instead of them. -/
structure Table where
  language : Text
  entries : List (Text × Text)
deriving DecidableEq

/-- A loaded sheet. -/
structure Document where
  title : Datum := .null
  unit : Datum := .null
  width : Datum := .int 0
  height : Datum := .int 0
  tables : List Table := []
  nodes : List Datum := []

/-- A title with a suffix. It is absent only if the title is absent and there is no suffix; a title
that is not given counts as empty. -/
def composeTitle (title : Datum) (suffix : Text) : Except Failure Datum :=
  match title with
  | .null => .ok (if suffix.isEmpty then .null else .text suffix)
  | title => do return .text ((← (title.orElse (.text "")).displayed) ++ suffix)

end StockFlow
