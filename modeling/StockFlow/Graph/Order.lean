import StockFlow.Failure
/-!
# The order of nodes

Nodes are listed in the order in which a depth-first walk first sees them, the walk starting at
every node in the order of declaration and following the links of a node in order. A walk that
meets a node of its current path has found a cycle, and reports the path up to there.
-/

namespace StockFlow

/-- What a walk has seen so far: the names in the order in which it first saw them, and the names
behind which it has been everywhere. -/
structure Sights where
  ordered : List Text := []
  finished : List Text := []

/-- A name comes into the order when it is first seen. -/
def Sights.see (sights : Sights) (name : Text) : Sights :=
  if sights.ordered.contains name then sights
  else { sights with ordered := sights.ordered ++ [name] }

/-- A name is finished when everything behind it has been walked. -/
def Sights.finish (sights : Sights) (name : Text) : Sights :=
  { sights with finished := name :: sights.finished }

/-- Visits a node and everything behind it. A finished node is passed over. The depth bounds the
length of the path; a path longer than the number of nodes has come back to itself. -/
def visitFrom (next : Text → List Text) :
    (depth : Nat) → (path : List Text) → (sights : Sights) → (name : Text) →
    Except Failure Sights
  | 0, path, _, name => .error (.cycle (path ++ [name]))
  | depth + 1, path, sights, name =>
    if path.contains name then .error (.cycle (path ++ [name]))
    else if sights.finished.contains name then .ok sights
    else do
      let behind ← (next name).foldlM
        (fun sights target => visitFrom next depth (path ++ [name]) sights target)
        (sights.see name)
      return behind.finish name

/-- The nodes in the order of the walk from all of them, or the first cycle that it meets. -/
def visitOrder (names : List Text) (next : Text → List Text) :
    Except Failure (List Text) := do
  let sights ← names.foldlM
    (fun sights name => visitFrom next (names.length + 1) [] sights name) {}
  return sights.ordered

end StockFlow
