import StockFlow.Proofs.Output.Rows
import StockFlow.Proofs.Value.Copies
/-!
# Outputs in other languages

A language changes what is shown for nodes and nothing else. The output of a graph in a language is
obtained from the output of the graph: the title grows, and the fields that show nodes show them by
the names of the language (`Datum.inLanguage`). So the results of a sheet are, for every variant in
turn, its output followed by that output in every language (`Engine.parseSheet_eq_languages`).
-/

namespace StockFlow

/-! ## Changes of data -/

namespace Datum

/-- A mapping whose value under a text is changed. -/
def onField (key : String) (f : Datum → Datum) : Datum → Datum
  | .map entries =>
    .map (entries.map fun entry => if entry.1 = .text key then (entry.1, f entry.2) else entry)
  | d => d

/-- A list whose members are changed. -/
def onItems (f : Datum → Datum) : Datum → Datum
  | .list items => .list (items.map f)
  | d => d

/-- A text that is changed. -/
def onText (f : Text → Text) : Datum → Datum
  | .text s => .text (f s)
  | d => d

/-- A title that grows. The absent title counts as empty, and stays absent if nothing is added. -/
def growTitle (added : Text) : Datum → Datum
  | .null => if added.isEmpty then .null else .text added
  | .text s => .text (s ++ added)
  | d => d

end Datum

/-- What a table shows for a name, which is the name itself where it has no other. -/
def Table.show (t : Table) (name : Text) : Text := (t.shown? name).getD name

/-- An output in the language of a table. -/
def Datum.inLanguage (separator : Text) (t : Table) (output : Datum) : Datum :=
  ((output.onField "title" (growTitle (separator ++ t.language))).onField "nodes"
      (onItems fun row => row.onField "name" (onText t.show))).onField "links"
    (onItems fun row =>
      (row.onField "source" (onText t.show)).onField "target" (onText t.show))

/-! ## Rows -/

/-- A row in which one field differs. -/
lemma row_onField {fields : List String} {get get' : String → Except Failure Datum} {d : Datum}
    (h : row fields get = .ok d) {key : String} {f : Datum → Datum}
    (hkey : ∀ value, get key = .ok value → get' key = .ok (f value))
    (hother : ∀ field, field ≠ key → get' field = get field) :
    row fields get' = .ok (d.onField key f) := by
  obtain ⟨entries, rfl, hentries⟩ := row_eq_ok_iff.mp h
  refine row_eq_ok_iff.mpr ⟨_, rfl, ?_⟩
  rw [← List.map_id fields]
  refine Outcome.mapM_map_eq_ok hentries fun field _ entry hentry => ?_
  obtain ⟨value, hvalue, rfl⟩ := Outcome.map_eq_ok_iff.mp hentry
  by_cases hfield : field = key
  · subst hfield
    rw [if_pos rfl]
    exact Outcome.map_eq_ok_iff.mpr ⟨_, hkey value hvalue, rfl⟩
  · have hne : Atom.text field ≠ Atom.text key := fun heq =>
      hfield (Text.ofString_inj.mp (Atom.text.inj heq))
    rw [if_neg hne]
    refine Outcome.map_eq_ok_iff.mpr ⟨value, ?_, rfl⟩
    rw [id_eq, hother field hfield]
    exact hvalue

/-! ## Graphs in languages -/

namespace Graph

/-- A plain graph shows every name by itself. -/
lemma IsPlain.displayName_eq_self {g : Graph} (h : g.IsPlain) (name : Text) :
    g.displayName name = name := by
  unfold displayName
  cases hnode : g.node? name with
  | none => rfl
  | some n =>
    have hmem : n ∈ g.nodes := List.mem_of_find?_eq_some hnode
    have hname : n.name = name := by simpa using List.find?_some hnode
    rw [Option.map_some, Option.getD_some, h.displayName_eq n hmem, hname]

variable {g : Graph} (separator : Text) (t : Table)

/-- In a language, a plain graph shows the names of its nodes by those of the language. -/
lemma IsPlain.displayName_localize (h : g.IsPlain) {name : Text}
    (hname : name ∈ g.nodes.map Node.name) :
    (g.localize t.language separator t.shown?).displayName name = t.show name := by
  obtain ⟨n, hn, rfl⟩ := List.mem_map.mp hname
  unfold displayName
  rw [node?_localize]
  cases hnode : g.node? n.name with
  | none =>
    have hne := List.find?_eq_none.mp hnode n hn
    exact absurd (beq_self_eq_true _) hne
  | some m =>
    have hm : m ∈ g.nodes := List.mem_of_find?_eq_some hnode
    have heq : m.name = n.name := by simpa using List.find?_some hnode
    change (t.shown? m.name).getD m.displayName = _
    rw [h.displayName_eq m hm, heq]
    rfl

/-- In a language the nodes of a graph have the same colours. -/
lemma nodeColor_localize (language : Text) (shown? : Text → Option Text) (name : Text) :
    (g.localize language separator shown?).nodeColor name = g.nodeColor name := by
  unfold nodeColor
  rw [node?_localize, Option.map_map]
  rfl

/-- In a language the links of a graph have the same colours. -/
lemma linkColor_localize (language : Text) (shown? : Text → Option Text) (id : LinkId)
    (link : Link) :
    (g.localize language separator shown?).linkColor id link = g.linkColor id link := by
  unfold linkColor
  rw [nodeColor_localize, nodeColor_localize]

variable {value : Item → Except Failure Datum}

/-- In a language the row of a node differs in what is shown for the node. -/
lemma IsPlain.nodeRow_localize (h : g.IsPlain) {n : Node} (hn : n ∈ g.nodes) {fields : List String}
    {d : Datum} (hrow : row fields (nodeField value n) = .ok d) :
    row fields (nodeField value (n.relabel fun n => (t.shown? n.name).getD n.displayName)) =
      .ok (d.onField "name" (Datum.onText t.show)) := by
  refine row_onField hrow (fun shown hshown => ?_) fun field hfield => ?_
  · cases hshown
    change Except.ok (Datum.text ((t.shown? n.name).getD n.displayName)) =
      .ok (.text (t.show n.displayName))
    rw [h.displayName_eq n hn]
    rfl
  · unfold nodeField
    split
    · exact absurd rfl hfield
    · rfl
    · rfl
    · rfl
    · rfl
    · rfl

/-- In a language the row of a link differs in what is shown for its ends. -/
lemma IsPlain.linkRow_localize (h : g.IsPlain) {id : LinkId} {link : Link}
    (hsource : id.source ∈ g.nodes.map Node.name) (htarget : link.target ∈ g.nodes.map Node.name)
    {fields : List String} {d : Datum} (hrow : row fields (linkField g value id link) = .ok d) :
    row fields (linkField (g.localize t.language separator t.shown?) value id link) =
      .ok ((d.onField "source" (Datum.onText t.show)).onField "target" (Datum.onText t.show)) := by
  have hshow : ∀ {name}, name ∈ g.nodes.map Node.name →
      (g.localize t.language separator t.shown?).displayName name = t.show (g.displayName name) := by
    intro name hname
    rw [h.displayName_localize separator t hname, h.displayName_eq_self]
  -- the row in which only the source is shown in the language
  have hfirst : row fields (fun field => if field = "source" then
      linkField (g.localize t.language separator t.shown?) value id link field
      else linkField g value id link field) = .ok (d.onField "source" (Datum.onText t.show)) := by
    refine row_onField hrow (fun shown hshown => ?_) fun field hfield => ?_
    · cases hshown
      rw [if_pos rfl]
      change Except.ok (Datum.text ((g.localize t.language separator t.shown?).displayName
        id.source)) = .ok (.text (t.show (g.displayName id.source)))
      rw [hshow hsource]
    · rw [if_neg hfield]
  refine row_onField hfirst (fun shown hshown => ?_) fun field hfield => ?_
  · cases hshown
    change Except.ok (Datum.text ((g.localize t.language separator t.shown?).displayName
      link.target)) = .ok (.text (t.show (g.displayName link.target)))
    rw [hshow htarget]
  · split
    · rfl
    · next hsource =>
      unfold linkField
      split
      · exact absurd rfl hsource
      · exact absurd rfl hfield
      · rw [linkColor_localize]
      · rfl
      · rfl
      · rfl

/-- The source of a listed link is a node, and the link is one of those that leave it. -/
lemma exists_of_mem_links {id : LinkId} {link : Link} (h : (id, link) ∈ g.links) :
    ∃ n ∈ g.nodes, n.name = id.source ∧ link ∈ n.outgoing := by
  obtain ⟨n, hn, hzip⟩ := List.mem_flatMap.mp h
  obtain ⟨hid, hlink⟩ := List.of_mem_zip hzip
  obtain ⟨position, -, rfl⟩ := List.mem_map.mp hid
  exact ⟨n, hn, rfl, hlink⟩

end Graph

/-! ## Outputs in languages -/

/-- A title with a longer suffix is the title with the suffix, grown. -/
lemma composeTitle_append {title : Datum} {suffix : Text} {d : Datum}
    (h : composeTitle title suffix = .ok d) (added : Text) :
    composeTitle title (suffix ++ added) = .ok (d.growTitle added) := by
  unfold composeTitle at h ⊢
  split at h
  · cases h
    cases suffix with
    | nil => rfl
    | cons c suffix => rfl
  · obtain ⟨shown, hshown, hd⟩ := Outcome.bind_eq_ok_iff.mp h
    cases hd
    rw [hshown]
    change Except.ok (Datum.text (shown ++ (suffix ++ added))) = _
    rw [← List.append_assoc]
    rfl

/-- In a language the rows of a plain graph are its rows in that language. -/
lemma Graph.IsPlain.rows_localize {g : Graph} (h : g.IsPlain)
    {value : Item → Except Failure Datum} {o : OutputSettings} {d : Document} {output : Datum}
    (hrows : g.rows value o d = .ok output) (separator : Text) (t : Table) :
    (g.localize t.language separator t.shown?).rows value o d =
      .ok (output.inLanguage separator t) := by
  obtain ⟨nodeFields, linkFields, title, nodes, links, hnodeFields, hlinkFields, htitle, hnodes,
    hlinks, rfl⟩ := rows_eq_ok_iff.mp hrows
  refine rows_eq_ok_iff.mpr ⟨nodeFields, linkFields, _, _, _, hnodeFields, hlinkFields, ?_, ?_, ?_,
    rfl⟩
  · change composeTitle d.title (g.suffix ++ separator ++ t.language) = _
    rw [List.append_assoc]
    exact composeTitle_append htitle (separator ++ t.language)
  · exact Outcome.mapM_map_eq_ok hnodes fun n hn _ hrow => h.nodeRow_localize t hn hrow
  · rw [links_localize, ← List.map_id g.links]
    refine Outcome.mapM_map_eq_ok hlinks fun (id, link) hlink _ hrow => ?_
    obtain ⟨n, hn, hname, houtgoing⟩ := exists_of_mem_links hlink
    exact h.linkRow_localize separator t (hname ▸ List.mem_map_of_mem hn)
      (h.target_mem n hn link houtgoing) hrow

/-! ## The names in an output -/

/-- Whether a row that has a field has a name there. -/
def Datum.HasName (row : Datum) (field : String) (name : Text) : Prop :=
  ∀ shown, (Atom.text field, shown) ∈ row.fields?.getD [] → shown = .text name

/-- An output that lists the nodes and the links of a graph in their order, and in which every one
of them is shown by its name. -/
structure Graph.IsListedBy (g : Graph) (output : Datum) : Prop where
  nodes : ∃ rows, Entries.get (output.fields?.getD []) "nodes" = .list rows ∧
    List.Forall₂ (fun (n : Node) row => row.HasName "name" n.name) g.nodes rows
  links : ∃ rows, Entries.get (output.fields?.getD []) "links" = .list rows ∧
    List.Forall₂ (fun (entry : LinkId × Link) row =>
      row.HasName "source" entry.1.source ∧ row.HasName "target" entry.2.target) g.links rows

/-- The output of a plain graph lists it. -/
lemma Graph.IsPlain.isListedBy {g : Graph} (h : g.IsPlain) {value : Item → Except Failure Datum}
    {o : OutputSettings} {d : Document} {output : Datum}
    (hrows : g.rows value o d = .ok output) : g.IsListedBy output := by
  obtain ⟨nodeFields, linkFields, title, nodes, links, -, -, -, hnodes, hlinks, rfl⟩ :=
    rows_eq_ok_iff.mp hrows
  constructor
  · refine ⟨nodes, rfl, Outcome.forall₂_of_mapM_eq_ok hnodes fun n hn row hrow shown hshown => ?_⟩
    cases get_of_mem_row hrow hshown
    rw [h.displayName_eq n hn]
  · refine ⟨links, rfl, Outcome.forall₂_of_mapM_eq_ok hlinks fun entry _ row hrow => ⟨?_, ?_⟩⟩
    · intro shown hshown
      cases get_of_mem_row hrow hshown
      rw [h.displayName_eq_self]
    · intro shown hshown
      cases get_of_mem_row hrow hshown
      rw [h.displayName_eq_self]

/-! ## The results of a sheet -/

/-- When a sheet has results, it has a document, graphs, and an output for every one of them in all
languages. -/
lemma Engine.parseSheet_eq_ok {e : Engine} (hr : e.registry.IsPure) {text : Text}
    {files? : Option Files} {mode : Mode} {results : List Datum} {fetched : List Text}
    (h : e.parseSheet text files? mode = (.ok results, fetched)) :
    ∃ d built, (e.loader files? mode).run text rootSource = (.ok d, fetched) ∧
      buildGraphs e.settings d.nodes = .ok built ∧
      (localizeAll built d.tables e.settings.languageSeparator).mapM
        (fun g => g.settledRows e.registry e.settings.output d) = .ok results := by
  unfold parseSheet resolve at h
  rcases hrun : (e.loader files? mode).run text rootSource with ⟨failure | d, fetched'⟩
  · rw [hrun] at h
    cases h
  · rw [hrun] at h
    dsimp only at h
    cases hgraphs : e.graphs d with
    | error failure =>
      rw [hgraphs] at h
      cases h
    | ok graphs =>
      rw [hgraphs] at h
      obtain ⟨houtputs, rfl⟩ := Prod.mk.inj h
      obtain ⟨built, hbuilt, hlocalized⟩ := Outcome.bind_eq_ok_iff.mp hgraphs
      rw [Graph.localizeAllBy_shownTexts fun g hg => isLinked_of_buildGraphs hbuilt hg] at hlocalized
      cases hlocalized
      rw [runFresh_outputs hr] at houtputs
      exact ⟨d, built, rfl, hbuilt, houtputs⟩

/-- **Languages change names and nothing else.**  When a sheet has results and the plugins are pure,
then the results are, for every variant in the order of building, its output followed by that output
in every language of the document; and the output of a variant lists its nodes and links by their
names. -/
theorem Engine.parseSheet_eq_languages {e : Engine} (hr : e.registry.IsPure) {text : Text}
    {files? : Option Files} {mode : Mode} {results : List Datum} {fetched : List Text}
    (h : e.parseSheet text files? mode = (.ok results, fetched)) :
    ∃ d built bases, (e.loader files? mode).run text rootSource = (.ok d, fetched) ∧
      buildGraphs e.settings d.nodes = .ok built ∧
      List.Forall₂ (fun g base =>
        (Read.runFresh (g.output e.settings.output d) e.registry).1 = .ok base ∧
          g.IsListedBy base) built bases ∧
      results = bases.flatMap (fun base =>
        base :: d.tables.map (base.inLanguage e.settings.languageSeparator)) ∧
      results.length = built.length * (1 + d.tables.length) := by
  obtain ⟨d, built, hrun, hbuilt, hresults⟩ := parseSheet_eq_ok hr h
  have hplain : ∀ g ∈ built, g.IsPlain := fun g hg => isPlain_of_buildGraphs hbuilt hg
  obtain ⟨bases, hbases⟩ : ∃ bases,
      built.mapM (fun g => g.settledRows e.registry e.settings.output d) = .ok bases := by
    rw [Outcome.exists_mapM_eq_ok_iff]
    intro g hg
    exact Outcome.exists_mapM_eq_ok_iff.mp ⟨results, hresults⟩ g
      (List.mem_flatMap.mpr ⟨g, hg, List.mem_cons_self⟩)
  have hgroups : (localizeAll built d.tables e.settings.languageSeparator).mapM
      (fun g => g.settledRows e.registry e.settings.output d) =
        .ok (bases.flatMap fun base =>
          base :: d.tables.map (base.inLanguage e.settings.languageSeparator)) := by
    refine Outcome.mapM_flatMap_eq_ok hbases fun g hg base hbase => ?_
    rw [Outcome.mapM_eq_ok_iff]
    refine .cons hbase ?_
    rw [List.forall₂_map_left_iff, List.forall₂_map_right_iff, List.forall₂_same]
    intro t _
    unfold Graph.settledRows
    rw [Graph.settled_localize]
    exact (hplain g hg).rows_localize hbase _ t
  refine ⟨d, built, bases, hrun, hbuilt, ?_, ?_, ?_⟩
  · refine Outcome.forall₂_of_mapM_eq_ok hbases fun g hg base hbase => ⟨?_, ?_⟩
    · rw [Graph.runFresh_output hr]
      exact hbase
    · exact (hplain g hg).isListedBy hbase
  · exact Except.ok.inj (hresults.symm.trans hgroups)
  · rw [← (Outcome.mapM_eq_ok_iff.mp hresults).length_eq, length_localizeAll, Nat.add_comm 1]

/-- A sheet with two variants and a language that has no name for the second stock. -/
def bilingualSheet : Text :=
  "nodes:
- name: A
  value: 1|2
  links:
  - to: B
    value: rest
translations:
  fi:
    A: Alku
"

/-- An engine that writes all fields of nodes and the ends and descriptions of links. -/
def thoroughEngine : Engine where
  settings :=
    { output :=
        { nodes := { include? := some ["real_value", "name", "description", "color", "value"] }
          links := { include? := some ["description", "source", "target"] } } }
  formats := Format.standard
  registry := shareRegistry

/-- The two variants of the sheet are each followed by their language, which makes four results. -/
theorem parseSheet_eq_languages_bilingualSheet :
    thoroughEngine.registry.IsPure ∧ ∃ (results bases : List Datum) (fetched : List Text),
      thoroughEngine.parseSheet bilingualSheet none .blocking = (.ok results, fetched) ∧
      results.length = 4 ∧ results = bases.flatMap fun base =>
        [base, base.inLanguage "_" ⟨"fi", [("A", "Alku")]⟩] := by
  have hpure : thoroughEngine.registry.IsPure := by
    intro p hp
    rw [List.mem_singleton.mp hp]
    trivial
  have hevaluated : ((thoroughEngine.parseSheet bilingualSheet none .blocking).1.toOption.map
      List.length, ((thoroughEngine.loader none .blocking).run bilingualSheet
        rootSource).1.toOption.map Document.tables) =
          (some 4, some [⟨"fi", [("A", "Alku")]⟩]) := by
    decide +kernel
  obtain ⟨hlength, htables⟩ := Prod.mk.inj hevaluated
  refine ⟨hpure, ?_⟩
  rcases hparse : thoroughEngine.parseSheet bilingualSheet none .blocking with
    ⟨failure | results, fetched⟩
  · rw [hparse] at hlength
    cases hlength
  · rw [hparse] at hlength
    obtain ⟨d, built, bases, hrun, -, -, hresults, -⟩ :=
      Engine.parseSheet_eq_languages hpure hparse
    rw [hrun] at htables
    refine ⟨results, bases, fetched, rfl, Option.some.inj hlength, ?_⟩
    rw [hresults, Option.some.inj htables]
    rfl

/-- A title that grows by a text. The absent title counts as empty. -/
def Datum.appendTitle (added : Text) : Datum → Datum
  | .text s => .text (s ++ added)
  | _ => .text added

/-- Whether the absent title comes first in an output. -/
def Datum.isUntitled : Datum → Bool
  | .map ((key, .null) :: _) => key == .text "title"
  | _ => false

/-- An output that is given a text for a title has one. -/
lemma Datum.isUntitled_onField {output : Datum} (h : output.isUntitled = true) (separator : Text)
    (t : Table) (title : Datum) (added : Text) :
    ((output.inLanguage separator t).onField "title" fun _ =>
      title.appendTitle added).isUntitled = false := by
  unfold isUntitled at h
  split at h
  · next key entries =>
    obtain rfl : key = .text "title" := by simpa using h
    cases title with
    | atom a => cases a <;> rfl
    | _ => rfl
  · cases h

/-- A sheet without a title that has a language without a name. -/
def untitledSheet : Text :=
  "nodes: []
translations:
  \"\":
    A: B
"

/-- An engine that separates languages by nothing. -/
def terseEngine : Engine where
  settings := { languageSeparator := "" }
  formats := Format.standard
  registry := {}

/-- Where neither the title nor the separator nor the language says anything, the result of the
language has no title either, rather than an empty one. -/
theorem not_parseSheet_untitledSheet :
    ¬ ∀ (e : Engine) (text : Text) (files? : Option Files) (mode : Mode) (results : List Datum)
        (fetched : List Text), e.registry.IsPure →
      e.parseSheet text files? mode = (.ok results, fetched) →
      ∃ (d : Document) (bases : List Datum),
        (e.loader files? mode).run text rootSource = (.ok d, fetched) ∧ results = bases.flatMap fun base =>
          base :: d.tables.map fun t =>
            (base.inLanguage e.settings.languageSeparator t).onField "title" fun _ =>
              (Entries.get (base.fields?.getD []) "title").appendTitle
                (e.settings.languageSeparator ++ t.language) := by
  intro hclaim
  have huntitled : (terseEngine.parseSheet untitledSheet none .blocking).1.toOption.map
      (List.map Datum.isUntitled) = some [true, true] := by
    decide +kernel
  have htables : ((terseEngine.loader none .blocking).run untitledSheet
      rootSource).1.toOption.map Document.tables = some [⟨"", [("A", "B")]⟩] := by
    decide +kernel
  rcases hparse : terseEngine.parseSheet untitledSheet none .blocking with ⟨failure | results, fetched⟩
  · rw [hparse] at huntitled
    cases huntitled
  · have hpure : terseEngine.registry.IsPure := fun p hp => absurd hp List.not_mem_nil
    obtain ⟨d, bases, hrun, hresults⟩ := hclaim _ _ _ _ _ _ hpure hparse
    rw [hrun] at htables
    rw [hparse, hresults, Option.some.inj htables] at huntitled
    have hflags := Option.some.inj huntitled
    cases bases with
    | nil => cases hflags
    | cons base bases =>
      obtain ⟨hfirst, hrest⟩ := List.cons.inj hflags
      obtain ⟨hsecond, -⟩ := List.cons.inj hrest
      rw [Datum.isUntitled_onField hfirst] at hsecond
      cases hsecond

end StockFlow
