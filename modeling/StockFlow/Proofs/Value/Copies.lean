import StockFlow.Proofs.Graph.Copy
import StockFlow.Proofs.Sheet.Built
import StockFlow.Proofs.Sheet.Linked
import StockFlow.Proofs.Value.Relabel
import StockFlow.Proofs.Value.Sessions
/-!
# Runs of copies

A built graph may be copied any number of times, as it is or in a language. The last copy has the same
nodes and links as the graph and its values are the same at any time; only the names for show and the
suffix tell of the run (`Graph.copyAll_preserves`). In fact a whole run comes to one language, whose
table has for every name the entry of the last table that has the name (`Graph.IsLinked.copyAll_eq`).
So the copies of built graphs in the languages of a document are these graphs in the languages
(`Graph.localizeAllBy_shownTexts`).
-/

namespace StockFlow

/-! ## Steps -/

/-- A step of a run of copies: a copy of the graph as it is, or a copy in a language. -/
inductive CopyStep where
  | clone
  | translate (language separator : Text) (table : Text → Option Text)

namespace CopyStep

/-- The graph after a step. -/
def run (g : Graph) : CopyStep → Except Failure Graph
  | .clone => g.clone
  | .translate language separator table => g.translate language separator (shownTexts table)

/-- What a step adds to the suffix. -/
def mark : CopyStep → Text
  | .clone => []
  | .translate language separator _ => separator ++ language

/-- What the table of a step has for a name. -/
def shown? (name : Text) : CopyStep → Option Text
  | .clone => none
  | .translate _ _ table => table name

end CopyStep

/-- What the last table of a run that has a name has for it. -/
def lastShown? (steps : List CopyStep) (name : Text) : Option Text :=
  steps.reverse.findSome? (CopyStep.shown? name)

namespace Graph

variable {g : Graph}

/-- The graph after a run of steps. -/
def copyAll (g : Graph) (steps : List CopyStep) : Except Failure Graph :=
  steps.foldlM CopyStep.run g

/-- A graph in a language stays linked. -/
lemma IsLinked.localize (h : g.IsLinked) (language separator : Text) (shown? : Text → Option Text) :
    (g.localize language separator shown?).IsLinked :=
  h.map (f := Node.relabel fun n => (shown? n.name).getD n.displayName) (fun _ => rfl)
    (fun _ => rfl) (fun _ => rfl) rfl

/-- A table of texts shows its entries. -/
lemma localizeBy_shownTexts (g : Graph) (language separator : Text) (table : Text → Option Text) :
    g.localizeBy language separator (shownTexts table) =
      .ok (g.localize language separator table) := by
  have hmapM : ∀ {f : Node → Except Failure (Text × Option Text)},
      (∀ n, f n = .ok (n.name, table n.name)) →
        g.nodes.mapM f = .ok (g.nodes.map fun n => (n.name, table n.name)) :=
    fun hf => (Outcome.mapM_congr fun n _ => hf n).trans List.mapM_pure
  have hpairs : (g.nodes.map fun n => (n.name, table n.name)) =
      (g.nodes.map Node.name).map fun name => (name, table name) := by
    rw [List.map_map]
    rfl
  unfold localizeBy
  rw [hmapM, hpairs]
  · refine congrArg (fun nodes => Except.ok (Graph.mk nodes _ _))
      (List.map_congr_left fun n hn => ?_)
    have hlookup := List.lookup_graph table (List.mem_map_of_mem (f := Node.name) hn)
    dsimp only
    rw [hlookup]
    rfl
  · intro n
    unfold shownTexts
    cases table n.name <;> rfl

/-- A copy of a linked graph in a language that shows texts is the graph in this language. -/
lemma IsLinked.translate_shownTexts (h : g.IsLinked) (language separator : Text)
    (table : Text → Option Text) :
    g.translate language separator (shownTexts table) =
      .ok (g.localize language separator table) := by
  unfold translate
  rw [h.clone_eq]
  exact g.localizeBy_shownTexts language separator table

/-- Copies of a linked graph in the languages of some tables are the graph in these languages. -/
lemma IsLinked.mapM_translate (h : g.IsLinked) (tables : List Table) (separator : Text) :
    ((tables.map fun t => (t.language, shownTexts t.shown?)).mapM fun entry =>
        g.translate entry.1 separator entry.2) =
      .ok (tables.map fun t => g.localize t.language separator t.shown?) := by
  rw [Outcome.mapM_eq_ok_iff, List.forall₂_map_left_iff, List.forall₂_map_right_iff,
    List.forall₂_same]
  exact fun t _ => h.translate_shownTexts t.language separator t.shown?

/-- Linked graphs followed by copies of them in the languages of some tables are the graphs followed by
these languages. -/
theorem localizeAllBy_shownTexts {graphs : List Graph} (hlinked : ∀ g ∈ graphs, g.IsLinked)
    (tables : List Table) (separator : Text) :
    localizeAllBy graphs (tables.map fun t => (t.language, shownTexts t.shown?)) separator =
      .ok (localizeAll graphs tables separator) := by
  have hgroups : (graphs.mapM fun g => do
      let localized ← (tables.map fun t => (t.language, shownTexts t.shown?)).mapM
        fun entry => g.translate entry.1 separator entry.2
      return g :: localized) = Except.ok (graphs.map fun g =>
        g :: tables.map fun t => g.localize t.language separator t.shown?) := by
    rw [Outcome.mapM_eq_ok_iff, List.forall₂_map_right_iff, List.forall₂_same]
    intro g hg
    rw [(hlinked g hg).mapM_translate]
    rfl
  unfold localizeAllBy localizeAll
  rw [List.flatMap_def]
  exact congrArg (fun groups => do return (← groups).flatten) hgroups

/-- A graph in one language and then in another is in one language: the first one adds nothing but
what the second one lacks. -/
lemma localize_localize (g : Graph) (mark mark' : Text) (shown? shown?' : Text → Option Text) :
    (g.localize mark [] shown?).localize mark' [] shown?' =
      g.localize (mark ++ mark') [] fun name => (shown?' name).or (shown? name) := by
  simp only [localize, List.append_nil, List.append_assoc, List.map_map]
  refine congrArg (Graph.mk · _ _) (List.map_congr_left fun n _ => ?_)
  dsimp only [Function.comp_apply]
  cases shown?' n.name <;> rfl

/-- A step puts a linked graph into a language. -/
lemma IsLinked.run_eq (h : g.IsLinked) (step : CopyStep) :
    step.run g = .ok (g.localize step.mark [] (CopyStep.shown? · step)) := by
  cases step with
  | clone =>
    refine h.clone_eq.trans (congrArg Except.ok ?_)
    unfold Graph.localize CopyStep.mark
    rw [List.append_nil, List.append_nil]
    exact congrArg (Graph.mk · _ _) (List.map_id g.nodes).symm
  | translate language separator table =>
    refine (h.translate_shownTexts language separator table).trans ?_
    unfold Graph.localize CopyStep.mark
    rw [List.append_nil, List.append_assoc]
    rfl

/-- A run of steps puts a linked graph into one language. -/
lemma IsLinked.copyAll_eq (h : g.IsLinked) (steps : List CopyStep) :
    g.copyAll steps = .ok (g.localize (steps.flatMap CopyStep.mark) [] (lastShown? steps)) := by
  induction steps generalizing g with
  | nil =>
    unfold Graph.localize
    rw [List.flatMap_nil, List.append_nil, List.append_nil]
    exact congrArg (fun nodes => Except.ok (Graph.mk nodes _ _)) (List.map_id g.nodes).symm
  | cons step steps ih =>
    have hshown : lastShown? (step :: steps) =
        fun name => (lastShown? steps name).or (CopyStep.shown? name step) := by
      funext name
      unfold lastShown?
      rw [List.reverse_cons, List.findSome?_append, List.findSome?_singleton]
    unfold copyAll at ih ⊢
    rw [List.foldlM_cons, h.run_eq step, List.flatMap_cons, hshown]
    exact (ih (h.localize _ _ _)).trans (congrArg Except.ok (g.localize_localize _ _ _ _))

/-! ## Values of copies -/

/-- Every question has the same answer in every language. -/
lemma answer_localize (g : Graph) (language separator : Text) (shown? : Text → Option Text)
    (r : Registry) (q : Query) :
    q.answer (g.localize language separator shown?).network r = q.answer g.network r := by
  have hsettled := g.settled_localize language separator shown? r
  cases q with
  | node name => exact congrFun hsettled _
  | link id => exact congrFun hsettled _
  | outgoing name =>
    have hnode : (g.localize language separator shown?).network.node? name =
        (g.network.node? name).map (Node.relabel fun n => (shown? n.name).getD n.displayName) :=
      g.node?_localize language separator shown? name
    simp only [Query.answer, hsettled, hnode]
    cases g.network.node? name <;> rfl

/-- **Copies are the same graph.**  A run of copies of a built graph succeeds, and the last graph has
the same nodes in the same order, with the same declared data, the same links leaving them and the same
links entering them in the same order. Every link leaves one of its nodes and enters one. A node is
shown by what the last table that has its name has for it, and else by its name, and the suffix has
grown by the separator and the language of every step in a language. With pure plugins every question
has the same answer as for the graph, at any time. -/
theorem copyAll_preserves {s : Settings} {ds : List Datum} {gs : List Graph}
    (hgs : buildGraphs s ds = .ok gs) (hg : g ∈ gs) (steps : List CopyStep) :
    ∃ last, g.copyAll steps = .ok last ∧
      last.nodes = g.nodes.map (fun n =>
        { n with displayName := (lastShown? steps n.name).getD n.name }) ∧
      last.suffix = g.suffix ++ steps.flatMap CopyStep.mark ∧
      last.resolver = g.resolver ∧
      last.IsLinked ∧
      (∀ entry ∈ last.links, (∃! n, n ∈ last.nodes ∧ entry.1 ∈ n.linkIds) ∧
        ∃! n, n ∈ last.nodes ∧ entry.1 ∈ n.incoming) ∧
      ∀ r : Registry, r.IsPure → ∀ (q : Query) (answer : Except Failure Datum),
        last.Yields r (q.read last.network) answer ↔ g.Yields r (q.read g.network) answer := by
  have hlinked := isLinked_of_buildGraphs hgs hg
  have hlinked' := hlinked.localize (steps.flatMap CopyStep.mark) [] (lastShown? steps)
  refine ⟨_, hlinked.copyAll_eq steps, ?_, ?_, rfl, hlinked', ?_, ?_⟩
  · refine List.map_congr_left fun n hn => ?_
    rw [(isPlain_of_buildGraphs hgs hg).displayName_eq n hn]
  · unfold localize
    rw [List.append_nil]
  · exact fun entry hentry =>
      ⟨hlinked'.existsUnique_linkIds hentry, hlinked'.existsUnique_incoming hentry⟩
  · intro r hr q answer
    rw [yields_read_iff hr, yields_read_iff hr, answer_localize]

end Graph

/-- A sheet with two links between the same nodes, one of which has the rest of what the other one
leaves. -/
def twinSheet : List Datum :=
  [.map [(.text "name", .text "Lake"), (.text "value", .int 9),
      (.text "links", .list [
        .map [(.text "to", .text "Mill"), (.text "value", .text "rest")],
        .map [(.text "to", .text "Mill"), (.text "value", .int 2)]])],
    .map [(.text "name", .text "Mill"), (.text "color", .text "red")]]

/-- A run with a copy between two languages, of which the second one lacks a name that the first one
has. -/
def twinSteps : List CopyStep :=
  [.translate "de" "_" fun name => if name = "Lake" then some "See" else some "Mühle",
    .clone,
    .translate "fr" "-" fun name => if name = "Mill" then some "Moulin" else none]

/-- After the run the twin sheet is shown in both languages. -/
theorem Graph.copyAll_preserves_twinSheet :
    ∃ gs g last, buildGraphs {} twinSheet = .ok gs ∧ g ∈ gs ∧
      g.copyAll twinSteps = .ok last ∧ last.suffix = ("_de-fr" : Text) ∧
      last.nodes.map Node.displayName = (["See", "Moulin"] : List Text) ∧
      ∀ r : Registry, r.IsPure → ∀ (q : Query) (answer : Except Failure Datum),
        last.Yields r (q.read last.network) answer ↔ g.Yields r (q.read g.network) answer := by
  have hran : ((buildGraphs {} twinSheet).toOption.bind fun gs => gs.head?.map fun g =>
      (g.suffix, g.nodes.map Node.name)) = some (([] : Text), (["Lake", "Mill"] : List Text)) := by
    decide +kernel
  obtain ⟨gs, g, hbuilt, hmem, hfacts⟩ := exists_graph_of_head? hran
  obtain ⟨hsuffix, hnames⟩ := Prod.mk.inj hfacts
  obtain ⟨last, hlast, hnodes, hgrown, -, -, -, hvalues⟩ := copyAll_preserves hbuilt hmem twinSteps
  refine ⟨gs, g, last, hbuilt, hmem, hlast, ?_, ?_, hvalues⟩
  · rw [hgrown, hsuffix]
    decide
  · have hshown : last.nodes.map Node.displayName =
        (g.nodes.map Node.name).map fun name => (lastShown? twinSteps name).getD name := by
      rw [hnodes, List.map_map, List.map_map]
      rfl
    rw [hshown, hnames]
    decide

end StockFlow
