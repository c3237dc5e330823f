import StockFlow.Proofs.Sheet.Cycles
/-!
# Built graphs

A graph that is built out of declarations shows every node by its name, and has a node for the
target of every link (`isPlain_of_buildGraphs`). The nodes of a graph come from the walk, which sees
all of them, and colouring changes nothing but colours.
-/

namespace StockFlow

/-- A graph in which every node is shown by its name and every link enters a node. -/
structure Graph.IsPlain (g : Graph) : Prop where
  displayName_eq : ∀ n ∈ g.nodes, n.displayName = n.name
  target_mem : ∀ n ∈ g.nodes, ∀ l ∈ n.outgoing, l.target ∈ g.nodes.map Node.name

/-- Linked nodes are declared or only known as targets. -/
lemma mem_linkedNodes {declared : List Node} {n : Node} (h : n ∈ linkedNodes declared) :
    ∃ m, (m ∈ declared ∨ ∃ name, m = bareNode name) ∧ n.name = m.name ∧
      n.displayName = m.displayName ∧ n.outgoing = m.outgoing := by
  unfold linkedNodes at h
  rw [attachIncoming_eq] at h
  obtain ⟨m, hm, rfl⟩ := List.mem_map.mp h
  refine ⟨m, ?_, rfl, rfl, rfl⟩
  rcases List.mem_append.mp hm with hm | hm
  · exact Or.inl hm
  · obtain ⟨name, -, rfl⟩ := List.mem_map.mp hm
    exact Or.inr ⟨name, rfl⟩

/-- Every target of a declared node is the name of a linked one. -/
lemma target_mem_linkedNodes {declared : List Node} {m : Node} (hm : m ∈ declared) {l : Link}
    (hl : l ∈ m.outgoing) : l.target ∈ (linkedNodes declared).map Node.name := by
  rw [names_linkedNodes, List.mem_append]
  by_cases hdeclared : l.target ∈ declared.map Node.name
  · exact Or.inl hdeclared
  · right
    unfold undeclaredTargets
    rw [List.mem_eraseDups, List.mem_filter]
    refine ⟨List.mem_flatMap.mpr ⟨m, hm, List.mem_map_of_mem hl⟩, ?_⟩
    rw [Bool.not_eq_true', List.contains_eq_mem, decide_eq_false_iff_not]
    exact hdeclared

/-- An order that lists all nodes loses none. -/
lemma mem_map_name_orderedGraph {nodes : List Node} {order : List Text} {suffix : Text}
    {resolver : Option Resolver} (horder : nodes.map Node.name ⊆ order) {name : Text}
    (h : name ∈ nodes.map Node.name) :
    name ∈ (orderedGraph nodes order suffix resolver).nodes.map Node.name := by
  obtain ⟨n, hn, rfl⟩ := List.mem_map.mp h
  obtain ⟨m, hm⟩ : ∃ m, nodes.find? (fun m => m.name == n.name) = some m := by
    rw [← Option.isSome_iff_exists, List.find?_isSome]
    exact ⟨n, hn, beq_self_eq_true _⟩
  have hname : m.name = n.name := by simpa using List.find?_some hm
  rw [← hname]
  exact List.mem_map_of_mem (List.mem_filterMap.mpr ⟨n.name, horder h, hm⟩)

/-- The graph of a collection is plain. -/
lemma Collection.isPlain_of_toGraph {c : Collection} {resolver : Option Resolver} {g : Graph}
    (h : c.toGraph resolver = .ok g) : g.IsPlain := by
  obtain ⟨declared, order, hdeclared, horder, rfl⟩ := toGraph_eq_ok_iff.mp h
  have hnode : ∀ m ∈ declared, ∃ d : Declared, declaredNode d.name d.fields = .ok m := by
    intro m hm
    rw [declaredNodes_eq_ok_iff, ← Outcome.mapM_eq_ok_iff] at hdeclared
    obtain ⟨d, -, hd⟩ := Outcome.exists_of_mem_of_mapM_eq_ok hdeclared hm
    exact ⟨d, hd⟩
  have hcovered := (walked_of_walkOrder horder).starts_subset
  constructor
  · intro n hn
    obtain ⟨m, hm, hname, hshown, -⟩ := mem_linkedNodes (mem_of_mem_orderedGraph hn).1
    rw [hname, hshown]
    rcases hm with hm | ⟨name, rfl⟩
    · obtain ⟨d, hd⟩ := hnode m hm
      obtain ⟨-, links, outgoing, -, -, rfl⟩ := declaredNode_eq_ok_iff.mp hd
      rfl
    · rfl
  · intro n hn l hl
    obtain ⟨m, hm, -, -, houtgoing⟩ := mem_linkedNodes (mem_of_mem_orderedGraph hn).1
    rw [houtgoing] at hl
    rcases hm with hm | ⟨name, rfl⟩
    · exact mem_map_name_orderedGraph hcovered (target_mem_linkedNodes hm hl)
    · exact absurd hl List.not_mem_nil

/-- Colouring a node keeps a graph plain. -/
lemma Graph.IsPlain.editNode_color {g : Graph} (h : g.IsPlain) (name : Text) (color : Datum) :
    (g.editNode name fun n => { n with color }).IsPlain := by
  have hnames : (g.editNode name fun n => { n with color }).nodes.map Node.name =
      g.nodes.map Node.name := by
    unfold editNode
    rw [List.map_map]
    refine List.map_congr_left fun n _ => ?_
    dsimp only [Function.comp_apply]
    split <;> rfl
  constructor
  · intro n hn
    obtain ⟨m, hm, rfl⟩ := List.mem_map.mp hn
    split
    · exact h.displayName_eq m hm
    · exact h.displayName_eq m hm
  · rw [hnames]
    intro n hn l hl
    obtain ⟨m, hm, rfl⟩ := List.mem_map.mp hn
    split at hl
    · exact h.target_mem m hm l hl
    · exact h.target_mem m hm l hl

/-- The coloured graph of a collection is plain. -/
lemma Collection.isPlain_of_colored {c : Collection} {zeroIsUnset : Bool} {g : Graph}
    (h : c.colored zeroIsUnset = .ok g) : g.IsPlain := by
  obtain ⟨graph, hgraph, hcolored⟩ := colored_eq_ok_iff.mp h
  have hkept := Graph.colorNodes_keeps (P := Graph.IsPlain)
    (fun _ name color hg => hg.editNode_color name color) category10 (isPlain_of_toGraph hgraph)
  rw [hcolored] at hkept
  exact hkept

/-- Graphs that are built are plain. -/
theorem isPlain_of_buildGraphs {s : Settings} {ds : List Datum} {graphs : List Graph}
    (h : buildGraphs s ds = .ok graphs) {g : Graph} (hg : g ∈ graphs) : g.IsPlain := by
  unfold buildGraphs at h
  split at h
  · obtain ⟨c, -, hc⟩ := Outcome.exists_of_mem_of_mapM_eq_ok h hg
    exact Collection.isPlain_of_colored hc
  · cases h

end StockFlow
