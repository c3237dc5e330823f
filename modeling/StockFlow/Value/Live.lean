import StockFlow.Value.Reading
/-!
# Live graphs and passes

A live graph is a graph whose values are being read over time, with the memo that is open on it, if
one is. Opening a pass opens a memo unless one is open already, and tells whether it did; closing a
pass drops the memo only if that pass had opened it. While a memo is open, changes of the graph do
not show in the values that it holds.
-/

namespace StockFlow

/-- A graph and the memo that is open on it. -/
structure LiveGraph where
  graph : Graph
  memo? : Option Memo := none

namespace LiveGraph

/-- Opens a pass, and tells whether the pass owns the memo. -/
def openPass (l : LiveGraph) : LiveGraph × Bool :=
  match l.memo? with
  | some _ => (l, false)
  | none => ({ l with memo? := some [] }, true)

/-- Closes a pass, given whether it owns the memo. -/
def closePass (l : LiveGraph) (owns : Bool) : LiveGraph :=
  if owns then { l with memo? := none } else l

/-- Inside a pass a memo is open. -/
theorem isSome_memo?_openPass (l : LiveGraph) : l.openPass.1.memo?.isSome = true := by
  unfold openPass
  split
  · next memo hmemo => simp [hmemo]
  · rfl

/-- Closing a pass at once undoes its opening. -/
theorem closePass_openPass (l : LiveGraph) : l.openPass.1.closePass l.openPass.2 = l := by
  obtain ⟨graph, memo?⟩ := l
  cases memo? <;> rfl

/-- Runs a reading on a live graph with a registry of plugins. -/
def run {α : Type} (l : LiveGraph) (registry : Registry) (x : Read α) :
    Except Failure α × LiveGraph × Registry :=
  let (outcome, s) := x.run.run ⟨l.memo?, registry, []⟩
  (outcome, { l with memo? := s.memo? }, s.registry)

end LiveGraph

/-- Runs a reading outside any pass. -/
def Read.runFresh {α : Type} (x : Read α) (registry : Registry) : Except Failure α × Registry :=
  let (outcome, s) := x.run.run ⟨none, registry, []⟩
  (outcome, s.registry)

end StockFlow
