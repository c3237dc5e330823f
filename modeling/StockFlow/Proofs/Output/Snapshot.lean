import StockFlow.Plugin.Catalogue
import StockFlow.Proofs.Output.Rows
import StockFlow.Proofs.Sheet.Linked
import StockFlow.Proofs.Value.Agreement
import StockFlow.Proofs.Value.Sessions
/-!
# Outputs as snapshots

All values of one output are read in one pass, so they are what the memo of the pass holds, and a
step that reads the memo reproduces them. Therefore they agree with each other, whatever the plugins
answer, be it something else on every call (`isValuedBy_of_yields_output`).
-/

namespace StockFlow

/-! ## What outputs show -/

namespace Datum

/-- What a mapping holds under a text. -/
def field? (d : Datum) (key : String) : Option Datum :=
  d.fields?.bind fun entries => Entries.find? entries (.text key)

/-- The rows of an output under a text. -/
def rows (output : Datum) (key : String) : List Datum :=
  match output.field? key with
  | some (.list rows) => rows
  | _ => []

/-- Whether an output shows values in the rows of the nodes, which have given fields, and in the rows
of the links. -/
structure Shows (output : Datum) (g : Graph) (nodeFields : List String) (value : Item → Datum) :
    Prop where
  nodes : List.Forall₂ (fun n row => ∀ field ∈ nodeFields, field = "value" ∨ field = "real_value" →
    row.field? field = some (value (.node n.name))) g.nodes (output.rows "nodes")
  links : List.Forall₂ (fun entry row => row.field? "value" = some (value (.link entry.1))) g.links
    (output.rows "links")

end Datum

/-- A row holds every one of its fields. -/
lemma field?_of_row {fields : List String} {get : String → Except Failure Datum} {d : Datum}
    (h : row fields get = .ok d) {field : String} (hfield : field ∈ fields) :
    ∃ value, get field = .ok value ∧ d.field? field = some value := by
  have hrow := h
  obtain ⟨entries, rfl, hentries⟩ := row_eq_ok_iff.mp h
  have hheld : ∃ entry ∈ entries, entry.1.sameKey (.text field) = true := by
    obtain ⟨entry, hentry, hget⟩ := Outcome.exists_mem_of_mapM_eq_ok hentries hfield
    obtain ⟨value, -, rfl⟩ := Outcome.map_eq_ok_iff.mp hget
    exact ⟨_, hentry, Atom.sameKey_text_iff.mpr rfl⟩
  obtain ⟨⟨key, value⟩, hfound⟩ := Option.isSome_iff_exists.mp (List.find?_isSome.mpr hheld)
  obtain rfl : key = .text field := by simpa [Atom.sameKey_text_iff] using List.find?_some hfound
  refine ⟨value, get_of_mem_row hrow (List.mem_of_find?_eq_some hfound), ?_⟩
  change (List.find? _ entries).map Prod.snd = _
  rw [hfound]
  rfl

namespace Graph

variable {g : Graph} {r : Registry} {memo : Memo}

/-- What a steady memo holds for all nodes and links of a graph agrees with each other. -/
lemma isValuedBy_of_isSteady (hlinked : g.IsLinked) (hresolver : g.resolver.isSome)
    (hsteady : memo.IsSteady g.network r)
    {value : Item → Datum}
    (hnodes : ∀ n ∈ g.nodes, memo.held (.node n.name) = .ok (value (.node n.name)))
    (hlinks : ∀ id ∈ g.links.map Prod.fst, memo.held (.link id) = .ok (value (.link id))) :
    g.IsValuedBy value := by
  refine isValuedBy_of_step hlinked hresolver r.answer hnodes hlinks ?_ ?_
  · exact fun n hn => hsteady (.node n.name) _ id (hnodes n hn) memo (.refl memo)
  · intro id link hlink hkind
    have hdrawn : ¬g.network.IsDrawn r (.link id) := by
      rintro ⟨link', params, p, answer, hlink', hdemand, -⟩
      have hsame : link' = link :=
        Option.some.inj (hlink'.symm.trans ((link?_eq_some_iff hlinked.nodup_names).mpr hlink))
      rw [hsame] at hdemand
      exact hkind (Link.demand_eq_answer_iff.mp hdemand).1
    have hheld := hlinks id (List.mem_map_of_mem hlink)
    exact hsteady (.link id) _ hdrawn hheld memo (.refl memo)

/-- **Outputs are snapshots.**  The values in the rows of one output agree with each other, whether
or not the plugins that read nothing answer the same on every call. -/
theorem isValuedBy_of_yields_output {s : Settings} {ds : List Datum} {gs : List Graph}
    (hgs : buildGraphs s ds = .ok gs) (hg : g ∈ gs) {o : OutputSettings} {d : Document}
    {nodeFields linkFields : List String} (hnodeFields : o.nodeFields = .ok nodeFields)
    (hlinkFields : o.linkFields = .ok linkFields) (hnode : "value" ∈ nodeFields)
    (hlink : "value" ∈ linkFields) {output : Datum} (h : g.Yields r (g.output o d) (.ok output)) :
    ∃ value : Item → Datum, g.IsValuedBy value ∧ output.Shows g nodeFields value := by
  have hreplays := Read.Judgement.rows (J := Read.Replays.judgement g.network r)
    (v := fun memo => memo.held) Read.Replays.read g o d
  obtain ⟨memo, hsteady, hrows⟩ := Yields.exists_memo hreplays h
  obtain ⟨nodeFields', linkFields', title, nodes, links, hnodeFields', hlinkFields', -, hnodes,
    hlinks, rfl⟩ := rows_eq_ok_iff.mp hrows
  obtain rfl : nodeFields = nodeFields' := Except.ok.inj (hnodeFields.symm.trans hnodeFields')
  obtain rfl : linkFields = linkFields' := Except.ok.inj (hlinkFields.symm.trans hlinkFields')
  have hheld : ∀ {item found}, memo.held item = .ok found →
      found = (memo.lookup item).getD .null := by
    intro item found hfound
    rw [Memo.held_eq_ok_iff.mp hfound, Option.getD_some]
  have hnodeRows := Outcome.mapM_eq_ok_iff.mp hnodes
  have hlinkRows := Outcome.mapM_eq_ok_iff.mp hlinks
  have hlinked := isLinked_of_buildGraphs hgs hg
  have hresolver := isSome_resolver_of_buildGraphs hgs hg
  refine ⟨fun item => (memo.lookup item).getD .null,
    isValuedBy_of_isSteady hlinked hresolver hsteady ?_ ?_, ⟨?_, ?_⟩⟩
  · intro n hn
    obtain ⟨row, -, hrow⟩ := Outcome.exists_mem_of_mapM_eq_ok hnodes hn
    obtain ⟨found, hfound, -⟩ := field?_of_row hrow hnode
    exact hheld hfound ▸ hfound
  · intro id hid
    obtain ⟨entry, hentry, rfl⟩ := List.mem_map.mp hid
    obtain ⟨row, -, hrow⟩ := Outcome.exists_mem_of_mapM_eq_ok hlinks hentry
    obtain ⟨found, hfound, -⟩ := field?_of_row hrow hlink
    exact hheld hfound ▸ hfound
  · refine hnodeRows.imp fun n row hrow field hfield hvalue => ?_
    obtain ⟨found, hfound, hshown⟩ := field?_of_row hrow hfield
    have hread : memo.held (.node n.name) = .ok found := by
      rcases hvalue with rfl | rfl
      · exact hfound
      · exact hfound
    rw [hshown, hheld hread]
  · refine hlinkRows.imp fun entry row hrow => ?_
    obtain ⟨found, hfound, hshown⟩ := field?_of_row hrow hlink
    have hread : memo.held (.link entry.1) = .ok found := hfound
    rw [hshown, hheld hread]

/-- A sheet in which two links ask for a plugin that counts its calls, and other links follow from
what it answered. -/
def tickingSheet : List Datum :=
  [.map [(.text "name", .text "Well"), (.text "value", .int 10),
      (.text "links", .list [
        .map [(.text "to", .text "Pump"), (.text "value", .map [(.text "plugin", .text "tick")])],
        .map [(.text "to", .text "Pond"), (.text "value", .text "rest")]])],
    .map [(.text "name", .text "Pump"),
      (.text "links", .list [
        .map [(.text "to", .text "Pond"), (.text "value", .text "auto")],
        .map [(.text "to", .text "Mill"), (.text "value", .text "50%")]])],
    .map [(.text "name", .text "Pond"),
      (.text "links", .list [
        .map [(.text "to", .text "Sea"), (.text "value", .map [(.text "plugin", .text "tick")])]])]]

/-- The registry of the plugin that counts its calls. -/
def tickRegistry : Registry := { plugins := [⟨"tick", Catalogue.count, 0⟩] }

/-- The output of the ticking sheet is a snapshot, with both values of the node rows: the plugin has
answered one and two, and the pump passes on the second answer. -/
theorem isValuedBy_of_yields_output_tickingSheet :
    let o : OutputSettings := { nodes := { include? := some ["value", "real_value"] } }
    ∃ gs g output value, buildGraphs {} tickingSheet = .ok gs ∧ g ∈ gs ∧
      g.Yields tickRegistry (g.output o {}) (.ok output) ∧ g.IsValuedBy value ∧
      output.Shows g ["value", "real_value"] value ∧
      ((output.rows "nodes").map fun row => (row.field? "value").bind Datum.number?) =
        [some (.int 10), some (.int 1), some (.int 11), some (.int 2), some (.int 1)] ∧
      ((output.rows "links").map fun row => (row.field? "value").bind Datum.number?) =
        [some (.int 1), some (.int 9), some (.int 2), some (.int 1), some (.int 2)] := by
  intro o
  have hran : ((buildGraphs {} tickingSheet).toOption.bind fun gs => gs.head?.map fun g =>
      (Read.runFresh (g.output o {}) tickRegistry).1.map fun output =>
        ((output.rows "nodes").map fun row => (row.field? "value").bind Datum.number?,
          (output.rows "links").map fun row => (row.field? "value").bind Datum.number?)) =
      some (.ok
        ([some (.int 10), some (.int 1), some (.int 11), some (.int 2), some (.int 1)],
          [some (.int 1), some (.int 9), some (.int 2), some (.int 1), some (.int 2)])) := by
    decide +kernel
  obtain ⟨gs, g, hbuilt, hmem, hfacts⟩ := exists_graph_of_head? hran
  obtain ⟨output, hfresh, hnumbers⟩ := Outcome.map_eq_ok_iff.mp hfacts
  obtain ⟨hnodeNumbers, hlinkNumbers⟩ := Prod.mk.inj hnumbers
  have hnodeFields : o.nodeFields = .ok ["value", "real_value"] := rfl
  have hlinkFields : o.linkFields = .ok ["source", "target", "color", "value"] := rfl
  have hyields : g.Yields tickRegistry (g.output o {}) (.ok output) := Or.inl hfresh
  obtain ⟨value, hvalued, hshows⟩ := isValuedBy_of_yields_output hbuilt hmem hnodeFields
    hlinkFields (by simp) (by simp) hyields
  exact ⟨gs, g, output, value, hbuilt, hmem, hyields, hvalued, hshows, hnodeNumbers, hlinkNumbers⟩

end Graph

end StockFlow
