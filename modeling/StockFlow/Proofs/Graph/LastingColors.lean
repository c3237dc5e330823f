import StockFlow.Proofs.Graph.ColorPass
import StockFlow.Proofs.Output.Languages
import StockFlow.Proofs.Value.Copies
/-!
# Colours that last

The colours of a built graph are usable, and they stay. Whatever comes of the graph by copies, by
languages and by more passes for colours, in any order, has for every node and every link the colour
that the graph has, which is neither missing nor the random one (`Graph.ComesOf.keeps_colors`). A pass
over a graph whose nodes all have fixed colours changes nothing, whatever the palette
(`Graph.colorNodes_of_isFixedColor`), and the rules give no other colours, so what comes of a built
graph is the graph in some language (`Graph.ComesOf.exists_localize`).
-/

namespace StockFlow

/-- A colour is fixed if it is neither empty nor missing nor the random one. -/
lemma Datum.isFixedColor_iff {d : Datum} :
    d.isFixedColor ↔ d.isTruthy ∧ d ≠ .text randomColor := by
  have hrandom : d.isRandom ↔ d = .text randomColor := by
    unfold isRandom
    split
    · next s => simp [text]
    · next hother => exact ⟨fun h => absurd h Bool.false_ne_true, fun h => absurd h (hother _)⟩
  unfold isFixedColor
  rw [Bool.and_eq_true, Bool.not_eq_true', ← Bool.not_eq_true, hrandom]

/-! ## Passes over fixed colours -/

section FixedColors

variable {s : Coloring}

/-- The turn of a node sets no colour where all colours are fixed. -/
lemma Coloring.colorNode_of_isFixedColor (hfixed : ∀ n ∈ s.graph.nodes, n.color.isFixedColor)
    (palette : List Text) (depth : Nat) (name : Text) :
    ∃ done, colorNode palette depth name s = ({ s with done }, none) := by
  cases depth with
  | zero => exact ⟨s.done, rfl⟩
  | succ depth =>
    rw [colorNode]
    split
    · exact ⟨s.done, rfl⟩
    cases hnode : s.graph.node? name with
    | none => exact ⟨s.done, rfl⟩
    | some n =>
      exact ⟨name :: s.done, if_pos (hfixed n (List.mem_of_find?_eq_some hnode))⟩

/-- No turn sets a colour where all colours are fixed. -/
lemma Coloring.colorAll_of_isFixedColor (hfixed : ∀ n ∈ s.graph.nodes, n.color.isFixedColor)
    (palette : List Text) (depth : Nat) (names : List Text) :
    ∃ done, colorAll palette depth names s = ({ s with done }, none) := by
  induction names generalizing s with
  | nil => exact ⟨s.done, rfl⟩
  | cons name names ih =>
    obtain ⟨done, hturn⟩ := colorNode_of_isFixedColor hfixed palette depth name
    unfold colorAll
    rw [hturn]
    exact ih (s := { s with done }) hfixed

/-- A pass over a graph whose nodes have fixed colours leaves the graph as it is. -/
theorem Graph.colorNodes_of_isFixedColor {g : Graph} (hfixed : ∀ n ∈ g.nodes, n.color.isFixedColor)
    (palette : List Text) : g.colorNodes palette = (g, none) := by
  obtain ⟨done, hpass⟩ := Coloring.colorAll_of_isFixedColor (s := ⟨g, []⟩) hfixed palette
    (g.nodes.length + 1) (g.nodes.map Node.name)
  unfold colorNodes
  rw [hpass]

end FixedColors

namespace Graph

/-- A graph that comes of another one by copies, languages and passes for colours. A language may show
values of any kind, and a pass may have any palette and may fail. -/
inductive ComesOf (g : Graph) : Graph → Prop
  | itself : ComesOf g g
  | clone {h copy : Graph} (hcomes : ComesOf g h) (hcopy : h.clone = .ok copy) : ComesOf g copy
  | translate {h copy : Graph} (hcomes : ComesOf g h) (language separator : Text)
      (value : Text → Datum) (hcopy : h.translate language separator value = .ok copy) :
      ComesOf g copy
  | recolor {h : Graph} (hcomes : ComesOf g h) (palette : List Text) :
      ComesOf g (h.colorNodes palette).1

variable {g h copy : Graph}

/-! ## The colours of built graphs -/

/-- The nodes of a built graph have fixed colours. -/
lemma isFixedColor_of_buildGraphs {s : Settings} {ds : List Datum} {gs : List Graph}
    (hgs : buildGraphs s ds = .ok gs) (hg : g ∈ gs) : ∀ n ∈ g.nodes, n.color.isFixedColor := by
  have hpalette : ∀ c ∈ category10, (Datum.text c).isFixedColor := by decide
  obtain ⟨c, g', suffix, hnames, hcolored, rfl⟩ := exists_colored_of_buildGraphs hgs hg
  obtain ⟨plain, hplain, hpass⟩ := Collection.colored_eq_ok_iff.mp hcolored
  obtain ⟨color, hset, hrules⟩ := exists_colorNodes_eq (Collection.isLinked_of_toGraph hnames hplain)
    (Collection.not_hasCycle_of_toGraph hplain) hpalette (congrArg Prod.snd hpass)
  rw [hpass] at hset
  obtain rfl : g' = plain.withColors color := hset
  intro n hn
  obtain ⟨m, hm, rfl⟩ := List.mem_map.mp hn
  exact (hrules m hm).isFixedColor hpalette

/-- A link has a fixed colour if the node that it enters has one. -/
lemma isFixedColor_linkColor {id : LinkId} {link : Link}
    (htarget : (g.nodeColor link.target).isFixedColor) : (g.linkColor id link).isFixedColor := by
  unfold linkColor
  split
  · next hown => exact hown
  · have htruthy : (g.nodeColor link.target).isTruthy := (Datum.isFixedColor_iff.mp htarget).1
    unfold Datum.orElse
    rw [if_pos htruthy]
    exact htarget

/-- The links of a linked graph have fixed colours if its nodes have. -/
lemma IsLinked.isFixedColor_linkColor (hlinked : g.IsLinked)
    (hfixed : ∀ n ∈ g.nodes, n.color.isFixedColor) :
    ∀ entry ∈ g.links, (g.linkColor entry.1 entry.2).isFixedColor := by
  intro entry hentry
  obtain ⟨n, hn, -, hget⟩ := mem_links_iff.mp hentry
  obtain ⟨m, hm, htarget⟩ :=
    List.mem_map.mp (hlinked.target_mem n hn entry.2 (List.mem_of_getElem? hget))
  refine Graph.isFixedColor_linkColor ?_
  unfold nodeColor
  rw [← htarget, (node?_eq_some_iff hlinked.nodup_names).mpr ⟨hm, rfl⟩]
  exact hfixed m hm

/-! ## What comes of built graphs -/

/-- A graph in a language that shows values is the graph in a language that shows texts. -/
lemma exists_localize_of_translate (hlinked : g.IsLinked) {language separator : Text}
    {value : Text → Datum} (hcopy : g.translate language separator value = .ok copy) :
    ∃ mark shown?, copy = g.localize mark [] shown? := by
  unfold translate at hcopy
  rw [hlinked.clone_eq] at hcopy
  obtain ⟨shown, -, hshown⟩ := Outcome.bind_eq_ok_iff.mp (show g.localizeBy language separator value =
    .ok copy from hcopy)
  cases hshown
  refine ⟨separator ++ language, fun name => (shown.lookup name).join, ?_⟩
  unfold localize
  rw [List.append_nil, List.append_assoc]

/-- What comes of a graph with fixed colours is the graph in some language. -/
theorem ComesOf.exists_localize (hcomes : g.ComesOf h) (hlinked : g.IsLinked)
    (hfixed : ∀ n ∈ g.nodes, n.color.isFixedColor) :
    ∃ mark shown?, h = g.localize mark [] shown? := by
  induction hcomes with
  | itself =>
    refine ⟨[], fun _ => none, ?_⟩
    unfold localize
    rw [List.append_nil, List.append_nil]
    exact congrArg (Graph.mk · _ _) (List.map_id g.nodes).symm
  | clone _ hcopy ih =>
    obtain ⟨mark, shown?, rfl⟩ := ih
    rw [(hlinked.localize mark [] shown?).clone_eq] at hcopy
    cases hcopy
    exact ⟨mark, shown?, rfl⟩
  | translate _ language separator value hcopy ih =>
    obtain ⟨mark, shown?, rfl⟩ := ih
    obtain ⟨mark', shown?', rfl⟩ :=
      exists_localize_of_translate (hlinked.localize mark [] shown?) hcopy
    exact ⟨_, _, g.localize_localize mark mark' shown? shown?'⟩
  | recolor _ palette ih =>
    obtain ⟨mark, shown?, rfl⟩ := ih
    refine ⟨mark, shown?, ?_⟩
    rw [colorNodes_of_isFixedColor (fun n hn => ?_) palette]
    obtain ⟨m, hm, rfl⟩ := List.mem_map.mp hn
    exact hfixed m hm

/-- What comes of a graph by a run of copies. -/
lemma ComesOf.copyAll (hcomes : g.ComesOf h) {steps : List CopyStep}
    (hcopy : h.copyAll steps = .ok copy) : g.ComesOf copy := by
  induction steps generalizing h with
  | nil =>
    cases hcopy
    exact hcomes
  | cons step steps ih =>
    unfold Graph.copyAll at hcopy
    rw [List.foldlM_cons] at hcopy
    obtain ⟨next, hnext, hcopy⟩ := Outcome.bind_eq_ok_iff.mp hcopy
    refine ih ?_ hcopy
    cases step with
    | clone => exact hcomes.clone hnext
    | translate language separator table => exact hcomes.translate language separator _ hnext

/-- **Colours last.** In whatever comes of a built graph by copies, languages and passes for colours,
in any order and any number of times, the colour of every node and of every link is neither empty nor
missing nor the random one. It is the colour that the node or link has in the built graph, and another
pass, with any palette, succeeds and changes nothing at all. -/
theorem ComesOf.keeps_colors {s : Settings} {ds : List Datum} {gs : List Graph}
    (hgs : buildGraphs s ds = .ok gs) (hg : g ∈ gs) (hcomes : g.ComesOf h) :
    (∀ n ∈ h.nodes, n.color.isTruthy ∧ n.color ≠ .text randomColor) ∧
    (∀ entry ∈ h.links, (h.linkColor entry.1 entry.2).isTruthy ∧
      h.linkColor entry.1 entry.2 ≠ .text randomColor) ∧
    h.nodes.map (fun n => (n.name, n.color)) = g.nodes.map (fun n => (n.name, n.color)) ∧
    h.links = g.links ∧
    (∀ entry ∈ h.links, h.linkColor entry.1 entry.2 = g.linkColor entry.1 entry.2) ∧
    h.clone = .ok h ∧
    ∀ palette, h.colorNodes palette = (h, none) := by
  have hlinked := isLinked_of_buildGraphs hgs hg
  have hbuilt := isFixedColor_of_buildGraphs hgs hg
  obtain ⟨mark, shown?, rfl⟩ := hcomes.exists_localize hlinked hbuilt
  have hlinked' := hlinked.localize mark [] shown?
  have hfixed : ∀ n ∈ (g.localize mark [] shown?).nodes, n.color.isFixedColor := by
    rw [nodes_localize]
    exact List.forall_mem_map.mpr hbuilt
  refine ⟨fun n hn => ?_, fun entry hentry => ?_, ?_, links_localize g mark [] shown?, ?_,
    hlinked'.clone_eq, colorNodes_of_isFixedColor hfixed⟩
  · exact Datum.isFixedColor_iff.mp (hfixed n hn)
  · exact Datum.isFixedColor_iff.mp (hlinked'.isFixedColor_linkColor hfixed entry hentry)
  · rw [nodes_localize, List.map_map]
    rfl
  · exact fun entry _ => linkColor_localize _ _ _ _ _

end Graph

/-- A sheet whose colours are random, empty or missing, on nodes and on links, so that some are picked
and others are inherited. -/
def fadedSheet : List Datum :=
  [.map [(.text "name", .text "Lake"), (.text "color", .text "random"),
      (.text "links", .list [
        .map [(.text "to", .text "Mill"), (.text "color", .text "")],
        .map [(.text "to", .text "Mill"), (.text "color", .text "random")],
        .map [(.text "to", .text "Pond"), (.text "color", .text "blue")]])],
    .map [(.text "name", .text "Mill"), (.text "color", .text ""),
      (.text "links", .list [.map [(.text "to", .text "Town")]])]]

/-- The colours with which the faded sheet is built. -/
def fadedColors : List (Text × Option Text) :=
  [("Lake", some "#2ca02c"), ("Mill", some "#9467bd"), ("Town", some "#9467bd"),
    ("Pond", some "blue")]

/-- After a run of copies and a pass with another palette, the faded sheet has the colours that it was
built with, and the next pass changes nothing. -/
theorem Graph.ComesOf.keeps_colors_fadedSheet :
    ∃ gs g last, buildGraphs {} fadedSheet = .ok gs ∧ g ∈ gs ∧ g.copyAll twinSteps = .ok last ∧
      (last.colorNodes ["black"]).1.nodes.map (fun n => (n.name, n.color.displayed.toOption)) =
        fadedColors ∧
      ∀ palette, (last.colorNodes ["black"]).1.colorNodes palette =
        ((last.colorNodes ["black"]).1, none) := by
  have hran : ((buildGraphs {} fadedSheet).toOption.bind fun gs => gs.head?.map fun g =>
      g.nodes.map fun n => (n.name, n.color.displayed.toOption)) = some fadedColors := by
    decide +kernel
  obtain ⟨gs, g, hbuilt, hmem, hcolors⟩ := exists_graph_of_head? hran
  have hlast := (isLinked_of_buildGraphs hbuilt hmem).copyAll_eq twinSteps
  obtain ⟨-, -, hkept, -, -, -, hpass⟩ := keeps_colors hbuilt hmem
    ((ComesOf.itself.copyAll hlast).recolor ["black"])
  refine ⟨gs, g, _, hbuilt, hmem, hlast, ?_, hpass⟩
  have hshown := congrArg (List.map fun pair => (pair.1, pair.2.displayed.toOption)) hkept
  rw [List.map_map, List.map_map] at hshown
  exact hshown.trans hcolors

end StockFlow
