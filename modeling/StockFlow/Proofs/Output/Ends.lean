import StockFlow.Proofs.Output.Languages
import StockFlow.Proofs.Output.Snapshot
import StockFlow.Proofs.Value.Copies
/-!
# The ends of links in outputs

An output writes the ends of a link by what is shown for them, and what is shown for an end is found
again in the row of the node that the link leaves or enters. It is found in no other row, unless another
node is shown by the same text (`Graph.IsReadableFrom`). Built graphs show their nodes by their names,
which are all different, so that their links can be read back from their outputs. A language may show
two nodes by one text, since no table is refused for that, and then their links cannot be told apart.
-/

namespace StockFlow

namespace Graph

/-! ## What can be read back -/

/-- Whether an output has what is found for the node of a name in the row of that node, and in no other
row unless another node is shown by the same text. -/
structure ShowsEnd (g : Graph) (output : Datum) (name : Text) (found : Option Datum) : Prop where
  row : ∃ (place : Nat) (n : Node) (row : Datum), g.nodes[place]? = some n ∧ n.name = name ∧
    (output.rows "nodes")[place]? = some row ∧ row.field? "name" = found
  unique : (∃! place : Nat, ∃ row : Datum, (output.rows "nodes")[place]? = some row ∧
      row.field? "name" = found) ↔ ∀ n ∈ g.nodes, n.displayName = g.displayName name → n.name = name

/-- Whether an output lists the nodes and the links of a graph in their order, the nodes by what is
shown for them and the links by the rows of their ends. -/
structure IsReadableFrom (g : Graph) (output : Datum) : Prop where
  nodes : List.Forall₂ (fun n row => row.field? "name" = some (.text n.displayName)) g.nodes
    (output.rows "nodes")
  links : List.Forall₂ (fun entry row => g.ShowsEnd output entry.1.source (row.field? "source") ∧
    g.ShowsEnd output entry.2.target (row.field? "target")) g.links (output.rows "links")

variable {g : Graph} {output : Datum}

/-- What is shown for the name of a node is what is shown for the node. -/
lemma IsLinked.displayName_eq (h : g.IsLinked) {n : Node} (hn : n ∈ g.nodes) :
    g.displayName n.name = n.displayName := by
  unfold displayName
  rw [(node?_eq_some_iff h.nodup_names).mpr ⟨hn, rfl⟩]
  rfl

/-- Where nodes are listed by what is shown for them, a row has a text if and only if the node in its
place is shown by that text. -/
lemma exists_row_iff
    (hrows : List.Forall₂ (fun n row => row.field? "name" = some (.text n.displayName)) g.nodes
      (output.rows "nodes")) {place : Nat} {t : Text} :
    (∃ row : Datum, (output.rows "nodes")[place]? = some row ∧ row.field? "name" = some (.text t)) ↔
      ∃ n : Node, g.nodes[place]? = some n ∧ n.displayName = t := by
  obtain ⟨hlength, hplace⟩ := List.forall₂_iff_get.mp hrows
  constructor
  · rintro ⟨row, hrow, hfield⟩
    obtain ⟨hlt, rfl⟩ := List.getElem?_eq_some_iff.mp hrow
    have hlt' : place < g.nodes.length := hlength ▸ hlt
    have hshown := hplace place hlt' hlt
    rw [List.get_eq_getElem, List.get_eq_getElem, hfield] at hshown
    refine ⟨g.nodes[place], List.getElem?_eq_getElem hlt', ?_⟩
    exact (Atom.text.inj (Datum.atom.inj (Option.some.inj hshown))).symm
  · rintro ⟨n, hn, rfl⟩
    obtain ⟨hlt, rfl⟩ := List.getElem?_eq_some_iff.mp hn
    have hlt' : place < (output.rows "nodes").length := hlength ▸ hlt
    exact ⟨_, List.getElem?_eq_getElem hlt', hplace place hlt hlt'⟩

/-- Where nodes are listed by what is shown for them, what is shown for one of them is found in its
row. -/
lemma IsLinked.showsEnd (h : g.IsLinked)
    (hrows : List.Forall₂ (fun n row => row.field? "name" = some (.text n.displayName)) g.nodes
      (output.rows "nodes")) {name : Text} (hname : name ∈ g.nodes.map Node.name) :
    g.ShowsEnd output name (some (.text (g.displayName name))) := by
  obtain ⟨n, hn, rfl⟩ := List.mem_map.mp hname
  obtain ⟨place, hplace⟩ := List.mem_iff_getElem?.mp hn
  rw [h.displayName_eq hn]
  obtain ⟨row, hrow, hfield⟩ := (exists_row_iff hrows).mpr ⟨n, hplace, rfl⟩
  refine ⟨⟨place, n, row, hplace, rfl, hrow, hfield⟩, ?_⟩
  simp only [exists_row_iff hrows, h.displayName_eq hn]
  constructor
  · rintro ⟨only, -, honly⟩ m hm hsame
    obtain ⟨place', hplace'⟩ := List.mem_iff_getElem?.mp hm
    obtain rfl : place' = place :=
      (honly place' ⟨m, hplace', hsame⟩).trans (honly place ⟨n, hplace, rfl⟩).symm
    rw [Option.some.inj (hplace'.symm.trans hplace)]
  · intro htold
    refine ⟨place, ⟨n, hplace, rfl⟩, ?_⟩
    rintro place' ⟨m, hplace', hsame⟩
    have hnames : (g.nodes.map Node.name)[place']? = (g.nodes.map Node.name)[place]? := by
      rw [List.getElem?_map, List.getElem?_map, hplace, hplace']
      exact congrArg some (htold m (List.mem_of_getElem? hplace') hsame)
    have hlt : place' < (g.nodes.map Node.name).length := by
      rw [List.length_map]
      exact (List.getElem?_eq_some_iff.mp hplace').1
    exact (List.getElem?_inj hlt h.nodup_names).mp hnames

/-! ## Rows with the standard fields -/

/-- A row has every one of its fields. -/
lemma field?_eq_of_row {fields : List String} {get : String → Except Failure Datum} {row : Datum}
    (h : StockFlow.row fields get = .ok row) {field : String} (hfield : field ∈ fields)
    {value : Datum} (hvalue : get field = .ok value) : row.field? field = some value := by
  obtain ⟨found, hfound, hshown⟩ := field?_of_row h hfield
  rw [hshown, Except.ok.inj (hvalue.symm.trans hfound)]

/-- From the standard rows of a linked graph its links can be read back, as far as its nodes are shown
by different texts. -/
lemma IsLinked.isReadableFrom (h : g.IsLinked) {value : Item → Except Failure Datum}
    {o : OutputSettings} {d : Document} (hnodes : o.nodes = {}) (hlinks : o.links = {})
    (hrows : g.rows value o d = .ok output) : g.IsReadableFrom output := by
  obtain ⟨nodeFields, linkFields, title, nodes, links, hnodeFields, hlinkFields, -, hnodeRows,
    hlinkRows, rfl⟩ := rows_eq_ok_iff.mp hrows
  unfold OutputSettings.nodeFields at hnodeFields
  unfold OutputSettings.linkFields at hlinkFields
  rw [hnodes] at hnodeFields
  rw [hlinks] at hlinkFields
  cases hnodeFields
  cases hlinkFields
  generalize houtput : Datum.map _ = output
  have hshownNodes : output.rows "nodes" = nodes := by rw [← houtput]; rfl
  have hshownLinks : output.rows "links" = links := by rw [← houtput]; rfl
  have hlisted : List.Forall₂ (fun n row => row.field? "name" = some (.text n.displayName)) g.nodes
      (output.rows "nodes") := by
    rw [hshownNodes]
    exact (Outcome.mapM_eq_ok_iff.mp hnodeRows).imp fun n row hrow =>
      field?_eq_of_row hrow (by decide) rfl
  refine ⟨hlisted, hshownLinks ▸ Outcome.forall₂_of_mapM_eq_ok hlinkRows fun entry hentry row hrow => ?_⟩
  obtain ⟨n, hn, hsource, hlink⟩ := exists_of_mem_links hentry
  have hfrom : row.field? "source" = some (.text (g.displayName entry.1.source)) :=
    field?_eq_of_row hrow (by decide) rfl
  have hto : row.field? "target" = some (.text (g.displayName entry.2.target)) :=
    field?_eq_of_row hrow (by decide) rfl
  rw [hfrom, hto]
  exact ⟨h.showsEnd hlisted (hsource ▸ List.mem_map_of_mem hn),
    h.showsEnd hlisted (h.target_mem n hn entry.2 hlink)⟩

end Graph

/-! ## The results of a sheet -/

/-- **Links can be read back by what is shown.**  When a sheet has results with the standard fields and
the plugins are pure, then every result, in whatever language, lists the nodes and the links of its graph
in their order, and the ends of every link are found in the rows of the nodes that the link leaves and
enters. They are found in no other rows unless another node of the graph is shown by the same text; in
the graphs that are built, no two nodes are. -/
theorem Engine.isReadableFrom_of_parseSheet {e : Engine} (hr : e.registry.IsPure)
    (hnodes : e.settings.output.nodes = {}) (hlinks : e.settings.output.links = {}) {text : Text}
    {files? : Option Files} {mode : Mode} {results : List Datum} {fetched : List Text}
    (h : e.parseSheet text files? mode = (.ok results, fetched)) :
    ∃ d built, (e.loader files? mode).run text rootSource = (.ok d, fetched) ∧
      buildGraphs e.settings d.nodes = .ok built ∧
      List.Forall₂ Graph.IsReadableFrom (localizeAll built d.tables e.settings.languageSeparator)
        results ∧
      ∀ g ∈ built, (g.nodes.map Node.displayName).Nodup := by
  obtain ⟨d, built, hrun, hbuilt, hresults⟩ := parseSheet_eq_ok hr h
  have hlinked : ∀ g ∈ built, g.IsLinked := fun g hg => isLinked_of_buildGraphs hbuilt hg
  refine ⟨d, built, hrun, hbuilt, Outcome.forall₂_of_mapM_eq_ok hresults fun g hg output hrows => ?_,
    fun g hg => ?_⟩
  · refine Graph.IsLinked.isReadableFrom ?_ hnodes hlinks hrows
    obtain ⟨base, hbase, hmem⟩ := List.mem_flatMap.mp hg
    rcases List.mem_cons.mp hmem with rfl | hmem
    · exact hlinked _ hbase
    · obtain ⟨t, -, rfl⟩ := List.mem_map.mp hmem
      exact (hlinked _ hbase).localize _ _ _
  · rw [List.map_congr_left (isPlain_of_buildGraphs hbuilt hg).displayName_eq]
    exact (hlinked g hg).nodup_names

/-- A sheet with a language that shows one stock by the name of another one. -/
def mergedSheet : Text :=
  "nodes:
- name: A
  value: 1|2
  links:
  - to: B
    value: rest
translations:
  fi:
    A: B
"

/-- An engine with the standard settings. -/
def plainEngine : Engine where
  settings := {}
  formats := Format.standard
  registry := {}

/-- No plugins are pure plugins. -/
lemma isPure_plainEngine : plainEngine.registry.IsPure := fun _ hp => absurd hp List.not_mem_nil

/-- The merged sheet has four results, and from all of them its links can be read back as far as its
stocks are shown by different texts. -/
theorem isReadableFrom_of_parseSheet_mergedSheet :
    plainEngine.registry.IsPure ∧ plainEngine.settings.output.nodes = {} ∧
      plainEngine.settings.output.links = {} ∧
      ∃ (results : List Datum) (fetched : List Text) (d : Document) (built : List Graph),
        plainEngine.parseSheet mergedSheet none .blocking = (.ok results, fetched) ∧
          results.length = 4 ∧ buildGraphs {} d.nodes = .ok built ∧
          List.Forall₂ Graph.IsReadableFrom (localizeAll built d.tables "_") results := by
  have hevaluated : (plainEngine.parseSheet mergedSheet none .blocking).1.toOption.map List.length =
      some 4 := by
    decide +kernel
  refine ⟨isPure_plainEngine, rfl, rfl, ?_⟩
  rcases hparse : plainEngine.parseSheet mergedSheet none .blocking with ⟨failure | results, fetched⟩
  · rw [hparse] at hevaluated
    cases hevaluated
  · rw [hparse] at hevaluated
    obtain ⟨d, built, -, hbuilt, hreadable, -⟩ :=
      Engine.isReadableFrom_of_parseSheet isPure_plainEngine rfl rfl hparse
    exact ⟨results, fetched, d, built, rfl, Option.some.inj hevaluated, hbuilt, hreadable⟩

/-- The text that a row has under a key. -/
def Datum.fieldText? (row : Datum) (key : String) : Option Text :=
  match row.field? key with
  | some (.text s) => some s
  | _ => none

/-- A text that a row has under a key is what it has there. -/
lemma Datum.field?_eq_of_fieldText? {row : Datum} {key : String} {s : Text}
    (h : row.fieldText? key = some s) : row.field? key = some (.text s) := by
  unfold fieldText? at h
  split at h
  · next hfield =>
    cases h
    exact hfield
  · cases h

/-- In the language that shows both stocks by one text, the end of a link is found in two rows. -/
theorem not_existsUnique_row_mergedSheet :
    ¬ ∀ (e : Engine) (text : Text) (files? : Option Files) (mode : Mode) (results : List Datum)
        (fetched : List Text), e.registry.IsPure → e.settings.output.nodes = {} →
      e.settings.output.links = {} → e.parseSheet text files? mode = (.ok results, fetched) →
      ∀ output ∈ results, ∀ link ∈ output.rows "links",
        ∃! place : Nat, ∃ row : Datum, (output.rows "nodes")[place]? = some row ∧
          row.field? "name" = link.field? "source" := by
  intro hclaim
  have hevaluated : ((plainEngine.parseSheet mergedSheet none .blocking).1.toOption.bind
      (·[1]?)).map (fun output => ((output.rows "nodes").map (Datum.fieldText? · "name"),
        (output.rows "links").map (Datum.fieldText? · "source"))) =
      some ([some ("B" : Text), some ("B" : Text)], [some ("B" : Text)]) := by
    decide +kernel
  rcases hparse : plainEngine.parseSheet mergedSheet none .blocking with ⟨failure | results, fetched⟩
  · rw [hparse] at hevaluated
    cases hevaluated
  rw [hparse] at hevaluated
  obtain ⟨output, houtput, hshown⟩ := Option.map_eq_some_iff.mp hevaluated
  have hmem : output ∈ results := List.mem_of_getElem? houtput
  obtain ⟨hnodes, hlinks⟩ := Prod.mk.inj hshown
  obtain ⟨link, hlink, hsource⟩ : ∃ link ∈ output.rows "links",
      link.fieldText? "source" = some ("B" : Text) := by
    refine List.mem_map.mp ?_
    rw [hlinks]
    exact List.mem_cons_self
  obtain ⟨only, -, honly⟩ :=
    hclaim _ _ _ _ _ _ isPure_plainEngine rfl rfl hparse output hmem link hlink
  have hfound : ∀ place < 2, ∃ row : Datum, (output.rows "nodes")[place]? = some row ∧
      row.field? "name" = link.field? "source" := by
    intro place hplace
    have hget : ((output.rows "nodes").map (Datum.fieldText? · "name"))[place]? =
        some (some ("B" : Text)) := by
      rw [hnodes]
      match place, hplace with
      | 0, _ => rfl
      | 1, _ => rfl
    rw [List.getElem?_map] at hget
    obtain ⟨row, hrow, hname⟩ := Option.map_eq_some_iff.mp hget
    exact ⟨row, hrow, (Datum.field?_eq_of_fieldText? hname).trans
      (Datum.field?_eq_of_fieldText? hsource).symm⟩
  have htwice := (honly 0 (hfound 0 (by decide))).trans (honly 1 (hfound 1 (by decide))).symm
  cases htwice

end StockFlow
