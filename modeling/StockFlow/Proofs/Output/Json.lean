import StockFlow.Document.Format
import StockFlow.Proofs.Json.Writing
import StockFlow.Proofs.Output.Rows
import StockFlow.Proofs.Value.Sessions
/-!
# Output as JSON

With pure plugins the output of a graph is the same whenever it is read, and so is its JSON text. If
JSON has the output, then the text can be written and the format of JSON documents reads the output
back from it (`Graph.parse_json`).
-/

namespace StockFlow.Graph

variable {r : Registry}

/-- The output of a graph has exact bounds. -/
lemma between_output (hr : r.IsPure) (g : Graph) (o : OutputSettings) (d : Document) :
    Read.Between r (g.network.settled r) (g.settledRows r o d) (g.settledRows r o d)
      (g.output o d) :=
  (Read.Between.rows (Read.Between.read (hr.isPureFor _) g.hasItems) g o d).inPass

/-- The JSON text of the output of a graph has exact bounds. -/
lemma between_json (hr : r.IsPure) (g : Graph) (o : OutputSettings) (d : Document) :
    Read.Between r (g.network.settled r) (g.settledRows r o d >>= Json.render o.indent)
      (g.settledRows r o d >>= Json.render o.indent) (g.json o d) :=
  (between_output hr g o d).bind fun _ => Read.Between.ofExcept _

/-- **JSON output reads back.**  With pure plugins, an output that JSON has is written as a text from
which the format of JSON documents reads the same output, whatever fields are chosen, whatever the
indent, and whenever the graph is read. -/
theorem parse_json (hr : r.IsPure) (g : Graph) (o : OutputSettings) (d : Document) {output : Datum}
    (houtput : g.Yields r (g.output o d) (.ok output)) (hjson : output.IsJson) :
    ∃ text, (∀ outcome, g.Yields r (g.json o d) outcome ↔ outcome = .ok text) ∧
      Format.json.parse text = .ok output := by
  have hsettled : g.settledRows r o d = .ok output :=
    (houtput.eq (hr.isPureFor _) (between_output hr g o d)).symm
  obtain ⟨t, ht, hvalue⟩ := Json.exists_tree_of_isJson hjson o.indent 0
  have hbounds : Read.Between r (g.network.settled r) (.ok t.text) (.ok t.text) (g.json o d) := by
    have hbetween := between_json hr g o d
    have hwritten : g.settledRows r o d >>= Json.render o.indent = .ok t.text :=
      Outcome.bind_eq_ok_iff.mpr ⟨output, hsettled, ht⟩
    rwa [hwritten] at hbetween
  refine ⟨t.text, fun outcome => ⟨fun h => h.eq (hr.isPureFor _) hbounds, ?_⟩, ?_⟩
  · rintro rfl
    exact Or.inl hbounds.runFresh
  · exact Json.parse_eq_ok_iff.mpr ⟨.none, t, .none, by simp [Json.Space.none], hvalue⟩

/-- A graph with a name in quotes, a colour that is a path, a description with a control character
and a half, and a link against the flow. -/
def inkGraph : Graph where
  nodes :=
    [{ bareNode "Ink" with
        displayName := "\"Bläck\""
        color := .text "c:\\ink"
        description := .map [(.text "bell\x07", .list [.float .half, .list []])]
        value := .int 12
        outgoing := [⟨"Sea", .int (-7), .null, .null⟩] },
      { bareNode "Sea" with incoming := [⟨"Ink", 0⟩] }]
  suffix := []
  resolver := some ⟨false⟩

/-- The output of the graph of ink. -/
def inkOutput : Datum :=
  .map
    [(.text "title", .null), (.text "unit", .text "l"), (.text "width", .int 0),
      (.text "height", .int 0),
      (.text "nodes", .list
        [.map
          [(.text "name", .text "\"Bläck\""),
            (.text "description", .map [(.text "bell\x07", .list [.float .half, .list []])]),
            (.text "color", .text "c:\\ink"), (.text "value", .int 12)],
          .map
          [(.text "name", .text "Sea"), (.text "description", .null), (.text "color", .null),
            (.text "value", .int (-7))]]),
      (.text "links", .list
        [.map
          [(.text "source", .text "\"Bläck\""), (.text "target", .text "Sea"),
            (.text "color", .text "c:\\ink"), (.text "value", .int (-7))]])]

/-- JSON has the output of the graph of ink. -/
lemma isJson_inkOutput : inkOutput.IsJson := by
  have hint : ∀ n : Int, n.natAbs < 100 → Datum.IsJson (.int n) := fun n h =>
    .int n (Nat.lt_of_lt_of_le h (Nat.pow_le_pow_right (by decide) (by decide) : 10 ^ 2 ≤ _))
  have hfloat : Datum.IsJson (.float .half) := .float _ rfl rfl
  unfold inkOutput
  repeat' first
    | exact .null
    | exact .text _
    | exact hfloat
    | exact hint _ (by decide)
    | exact ⟨_, rfl⟩
    | exact List.forall_mem_nil _
    | refine List.forall_mem_cons.mpr ⟨?_, ?_⟩
    | refine .list _ ?_
    | refine .map _ (by decide +kernel) ?_ ?_

/-- The output of the graph of ink reads back from its text. -/
theorem parse_json_inkGraph :
    Registry.IsPure {} ∧
      inkGraph.Yields {} (inkGraph.output {} { unit := .text "l" }) (.ok inkOutput) ∧
      inkOutput.IsJson ∧
      ∃ text, (∀ outcome, inkGraph.Yields {} (inkGraph.json {} { unit := .text "l" }) outcome ↔
        outcome = .ok text) ∧ Format.json.parse text = .ok inkOutput := by
  have hpure : Registry.IsPure {} := fun p hp => by cases hp
  have houtput : inkGraph.Yields {} (inkGraph.output {} { unit := .text "l" }) (.ok inkOutput) :=
    Or.inl rfl
  exact ⟨hpure, houtput, isJson_inkOutput,
    parse_json hpure inkGraph {} { unit := .text "l" } houtput isJson_inkOutput⟩

end StockFlow.Graph
