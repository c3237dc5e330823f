import StockFlow.Engine
import StockFlow.Proofs.Outcome
import StockFlow.Proofs.Value.Passes
/-!
# Rows of settled values

With pure plugins the output of a graph is made of its settled values (`Graph.settledRows`), whatever
has been written before it. So the outputs of several graphs, written one after the other, are those
of the graphs one by one (`runFresh_outputs`).
-/

namespace StockFlow

/-! ## What rows hold -/

/-- Texts of strings are the same only if the strings are. -/
lemma Text.ofString_inj {s t : String} : Text.ofString s = Text.ofString t ↔ s = t := by
  refine ⟨fun h => ?_, fun h => h ▸ rfl⟩
  have hchars : s.toList = t.toList :=
    List.map_injective_iff.mpr (fun _ _ hc => CodePoint.char.inj hc) h
  exact String.toList_inj.mp hchars

/-- A row whose fields have values has an entry for every field. -/
lemma row_eq_ok_iff {fields : List String} {get : String → Except Failure Datum} {d : Datum} :
    row fields get = .ok d ↔ ∃ entries, d = .map entries ∧
      fields.mapM (fun field : String => (Atom.text field, ·) <$> get field) = .ok entries := by
  unfold row
  constructor
  · intro h
    obtain ⟨entries, hentries, hd⟩ := Outcome.bind_eq_ok_iff.mp h
    cases hd
    refine ⟨entries, rfl, ?_⟩
    simpa only [map_eq_pure_bind] using hentries
  · rintro ⟨entries, rfl, hentries⟩
    refine Outcome.bind_eq_ok_iff.mpr ⟨entries, ?_, rfl⟩
    simpa only [map_eq_pure_bind] using hentries

/-- What a row has under a text is the field of that name. -/
lemma get_of_mem_row {fields : List String} {get : String → Except Failure Datum} {d : Datum}
    (h : row fields get = .ok d) {field : String} {value : Datum}
    (hmem : (Atom.text field, value) ∈ d.fields?.getD []) : get field = .ok value := by
  obtain ⟨entries, rfl, hentries⟩ := row_eq_ok_iff.mp h
  obtain ⟨field', -, hfield'⟩ := Outcome.exists_of_mem_of_mapM_eq_ok hentries hmem
  obtain ⟨value', hvalue', heq⟩ := Outcome.map_eq_ok_iff.mp hfield'
  obtain ⟨hname, rfl⟩ := Prod.mk.inj heq
  rw [← Text.ofString_inj.mp (Atom.text.inj hname)]
  exact hvalue'

/-- What an output is made of. -/
lemma Graph.rows_eq_ok_iff {g : Graph} {value : Item → Except Failure Datum} {o : OutputSettings}
    {d : Document} {output : Datum} :
    g.rows value o d = .ok output ↔ ∃ nodeFields linkFields title nodes links,
      o.nodeFields = .ok nodeFields ∧ o.linkFields = .ok linkFields ∧
      composeTitle d.title g.suffix = .ok title ∧
      g.nodes.mapM (fun n => row nodeFields (nodeField value n)) = .ok nodes ∧
      g.links.mapM (fun entry => row linkFields (linkField g value entry.1 entry.2)) = .ok links ∧
      output = .map
        [(.text "title", title), (.text "unit", d.unit), (.text "width", d.width),
          (.text "height", d.height), (.text "nodes", .list nodes),
          (.text "links", .list links)] := by
  unfold rows
  simp only [Outcome.ofExcept_eq, Outcome.bind_eq_ok_iff]
  constructor
  · rintro ⟨nodeFields, hnodeFields, linkFields, hlinkFields, title, htitle, nodes, hnodes, links,
      hlinks, houtput⟩
    cases houtput
    exact ⟨nodeFields, linkFields, title, nodes, links, hnodeFields, hlinkFields, htitle, hnodes,
      hlinks, rfl⟩
  · rintro ⟨nodeFields, linkFields, title, nodes, links, hnodeFields, hlinkFields, htitle, hnodes,
      hlinks, rfl⟩
    exact ⟨nodeFields, hnodeFields, linkFields, hlinkFields, title, htitle, nodes, hnodes, links,
      hlinks, rfl⟩

/-! ## Judgements on rows -/

namespace Read.Judgement

variable {ι : Type} {J : Judgement ι} {v : ι → Item → Except Failure Datum}
variable {read : Item → Read Datum}

/-- A field of the row of a node, judged by the values. -/
lemma nodeField (h : ∀ item, J.Holds (fun i => v i item) (read item)) (n : Node)
    (field : String) : J.Holds (fun i => nodeField (v i) n field) (nodeField read n field) := by
  unfold StockFlow.nodeField
  split
  · exact J.pure _
  · exact J.pure _
  · exact J.pure _
  · exact h _
  · exact h _
  · exact J.throw _

/-- A field of the row of a link, judged by the values. -/
lemma linkField (h : ∀ item, J.Holds (fun i => v i item) (read item)) (g : Graph) (id : LinkId)
    (link : Link) (field : String) :
    J.Holds (fun i => linkField g (v i) id link field) (linkField g read id link field) := by
  unfold StockFlow.linkField
  split
  · exact J.pure _
  · exact J.pure _
  · exact J.pure _
  · exact h _
  · exact J.pure _
  · exact J.throw _

/-- A row, judged by its fields. -/
lemma row {k : ι → String → Except Failure Datum} {get : String → Read Datum}
    (h : ∀ field, J.Holds (fun i => k i field) (get field)) (fields : List String) :
    J.Holds (fun i => row fields (k i)) (row fields get) := by
  unfold StockFlow.row
  exact J.map _ (J.mapM fields fun field _ => J.map _ (h field))

/-- The rows of a graph, judged by the values. -/
lemma rows (h : ∀ item, J.Holds (fun i => v i item) (read item)) (g : Graph) (o : OutputSettings)
    (d : Document) : J.Holds (fun i => g.rows (v i) o d) (g.rows read o d) := by
  unfold Graph.rows
  refine J.bind (J.lift _) fun nodeFields => J.bind (J.lift _) fun linkFields =>
    J.bind (J.lift _) fun title => ?_
  have hnodes := J.mapM g.nodes fun n _ => row (nodeField h n) nodeFields
  have hlinks := J.mapM g.links fun entry _ => row (linkField h g entry.1 entry.2) linkFields
  exact J.bind hnodes fun nodes => J.map _ hlinks

end Read.Judgement

/-- The rows of a graph have the bounds of the values. -/
lemma Read.Between.rows {r : Registry} {truth : Item → Except Failure Datum}
    {low high : Item → Except Failure Datum} {read : Item → Read Datum}
    (h : ∀ item, Between r truth (low item) (high item) (read item)) (g : Graph)
    (o : OutputSettings) (d : Document) :
    Between r truth (g.rows low o d) (g.rows high o d) (g.rows read o d) :=
  Judgement.rows (J := judgement r truth) (v := fun upper => bif upper then high else low) h g o d

/-! ## Readings outside any pass -/

namespace Read

/-- A reading that has an outcome from every state outside any pass whose registry has the plugins
of a given one, and that ends in such a state again. -/
def Gives {α : Type} (r : Registry) (e : Except Failure α) (x : Read α) : Prop :=
  ∀ s : Reading, s.registry.table = r.table → s.memo? = none →
    (x.run.run s).1 = e ∧ (x.run.run s).2.registry.table = r.table ∧ (x.run.run s).2.memo? = none

variable {α β : Type} {r : Registry}

/-- A pass around a reading with exact bounds has its outcome. -/
lemma Between.gives {truth : Item → Except Failure Datum} {e : Except Failure α} {x : Read α}
    (hx : Between r truth e e x) : Gives r e (Read.inPass x) := by
  intro s htable hmemo
  obtain ⟨hs', hl, hh⟩ := hx.inPass s (Reading.isSound_of_memo?_eq_none htable hmemo)
  refine ⟨(hl.antisymm hh).symm, hs'.table, ?_⟩
  rw [run_inPass, hmemo]

namespace Gives

lemma pure (a : α) : Gives r (.ok a) (Pure.pure a) := fun _ htable hmemo => ⟨rfl, htable, hmemo⟩

/-- The outcome of a reading in two parts. -/
lemma bind {e : Except Failure α} {x : Read α} {fe : α → Except Failure β} {f : α → Read β}
    (hx : Gives r e x) (hf : ∀ a, Gives r (fe a) (f a)) : Gives r (e >>= fe) (x >>= f) := by
  intro s htable hmemo
  obtain ⟨rfl, htable', hmemo'⟩ := hx s htable hmemo
  rw [run_bind]
  rcases hrun : x.run.run s with ⟨failure | a, s'⟩ <;> rw [hrun] at htable' hmemo'
  · exact ⟨rfl, htable', hmemo'⟩
  · exact hf a s' htable' hmemo'

/-- The outcome of a loop that collects values. -/
lemma mapM {e : α → Except Failure β} {f : α → Read β} (hf : ∀ a, Gives r (e a) (f a))
    (as : List α) : Gives r (as.mapM e) (as.mapM f) := by
  induction as with
  | nil => exact pure []
  | cons a as ih =>
    rw [List.mapM_cons, List.mapM_cons]
    exact (hf a).bind fun b => ih.bind fun bs => pure (b :: bs)

/-- The outcome of a reading by itself. -/
lemma runFresh {e : Except Failure α} {x : Read α} (hx : Gives r e x) :
    (Read.runFresh x r).1 = e :=
  (hx ⟨none, r, []⟩ rfl rfl).1

end Gives

end Read

/-! ## Outputs -/

namespace Graph

/-- The output of a graph by settled values. -/
def settledRows (g : Graph) (r : Registry) (o : OutputSettings) (d : Document) :
    Except Failure Datum :=
  g.rows (g.network.settled r) o d

/-- The output of a graph is made of its settled values. -/
lemma gives_output {r : Registry} (hr : r.IsPure) (g : Graph) (o : OutputSettings)
    (d : Document) : Read.Gives r (g.settledRows r o d) (g.output o d) :=
  (Read.Between.rows (Read.Between.read (hr.isPureFor _) g.hasItems) g o d).gives

/-- Read by itself, the output of a graph is made of its settled values. -/
lemma runFresh_output {r : Registry} (hr : r.IsPure) (g : Graph) (o : OutputSettings)
    (d : Document) : (Read.runFresh (g.output o d) r).1 = g.settledRows r o d :=
  (gives_output hr g o d).runFresh

end Graph

/-- Written one after the other, the outputs of graphs are those of the graphs one by one. -/
theorem Engine.runFresh_outputs {e : Engine} (hr : e.registry.IsPure) (d : Document)
    (graphs : List Graph) : (Read.runFresh (e.outputs d graphs) e.registry).1 =
      graphs.mapM fun g => g.settledRows e.registry e.settings.output d :=
  (Read.Gives.mapM (fun g => g.gives_output hr e.settings.output d) graphs).runFresh

end StockFlow
