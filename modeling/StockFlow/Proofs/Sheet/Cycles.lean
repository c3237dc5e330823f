import StockFlow.Proofs.Sheet.Construction
/-!
# Graphs and cycles

A collection whose declarations become nodes has a coloured graph if and only if its outline leads
through no cycle, as long as all names have an encoding to be coloured by
(`Collection.colored_of_isAcceptable`). A graph that is built has no cycle whatever its names are
(`Collection.not_hasCycle_of_colored`).
-/

namespace StockFlow

/-! ## Where outlines lead -/

/-- The names that the links of an outline lead to. -/
def NodeOutline.targets (o : NodeOutline) : List Text :=
  (o.links?.getD []).filterMap fun link => link.bind fun l => l.target.nameText?

/-- Some outline under a name has a link that leads to another one. -/
def Outline.Leads (o : Outline) (a b : Text) : Prop := ∃ entry ∈ o, entry.1 = a ∧ b ∈ entry.2.targets

/-- The skeletons of the nodes of an outline. -/
def Outline.skeletons (o : Outline) : List (Text × List Text) :=
  o.map fun entry => (entry.1, entry.2.targets)

/-- A node has the skeleton that its outline says. -/
lemma Node.Realizes.skeleton {n : Node} {name : Text} {o : NodeOutline} (h : n.Realizes name o) :
    n.skeleton = (name, o.targets) := by
  obtain ⟨links, hlinks, hrealize⟩ := h.links
  unfold Node.skeleton NodeOutline.targets
  rw [h.name, hlinks, Option.getD_some]
  refine Prod.ext rfl ?_
  clear hlinks
  dsimp only
  generalize n.outgoing = ls at hrealize
  induction hrealize with
  | nil => rfl
  | cons hl _ ih =>
    obtain ⟨lo, rfl, hl⟩ := hl
    rw [List.filterMap_cons, Option.bind_some, hl.target, List.map_cons, ih]

/-- Nodes have the skeletons that their outlines say. -/
lemma map_skeleton_of_realizes {o : Outline} {nodes : List Node}
    (h : List.Forall₂ (fun (entry : Text × NodeOutline) n => n.Realizes entry.1 entry.2) o
      nodes) : nodes.map Node.skeleton = o.skeletons := by
  unfold Outline.skeletons
  rw [← List.forall₂_eq_eq_eq, List.forall₂_map_left_iff, List.forall₂_map_right_iff]
  exact h.flip.imp fun _ _ => Node.Realizes.skeleton

/-- Attaching links gives the undeclared targets skeletons without links. -/
lemma map_skeleton_linkedNodes (nodes : List Node) :
    (linkedNodes nodes).map Node.skeleton =
      nodes.map Node.skeleton ++ (undeclaredTargets nodes).map fun name => (name, []) := by
  unfold linkedNodes
  rw [attachIncoming_eq, List.map_map]
  change (nodes ++ (undeclaredTargets nodes).map bareNode).map Node.skeleton = _
  rw [List.map_append, List.map_map]
  rfl

/-- Linked nodes lead where the declared ones lead. -/
lemma leads_linkedNodes_iff {o : Outline} {nodes : List Node}
    (hnodes : nodes.map Node.skeleton = o.skeletons) (hnodup : (o.map Prod.fst).Nodup)
    {a b : Text} : Leads (targetsOf (linkedNodes nodes)) a b ↔ o.Leads a b := by
  unfold Leads Outline.Leads
  rw [targetsOf_eq, map_skeleton_linkedNodes, hnodes, List.find?_append]
  cases hfind : o.skeletons.find? fun skeleton => skeleton.1 == a with
  | none =>
    have hnot : ¬ ∃ entry ∈ o, entry.1 = a ∧ b ∈ entry.2.targets := by
      rintro ⟨entry, hentry, rfl, -⟩
      have hmem : (entry.1, entry.2.targets) ∈ o.skeletons := List.mem_map_of_mem hentry
      have hne := List.find?_eq_none.mp hfind _ hmem
      exact hne (beq_self_eq_true _)
    rw [Option.none_or]
    refine iff_of_false ?_ hnot
    cases hbare : ((undeclaredTargets nodes).map fun name => (name, ([] : List Text))).find?
        fun skeleton => skeleton.1 == a with
    | none => exact List.not_mem_nil
    | some skeleton =>
      obtain ⟨name, -, rfl⟩ := List.mem_map.mp (List.mem_of_find?_eq_some hbare)
      exact List.not_mem_nil
  | some skeleton =>
    obtain ⟨entry, hentry, rfl⟩ := List.mem_map.mp (List.mem_of_find?_eq_some hfind)
    have hname : entry.1 = a := by simpa using List.find?_some hfind
    rw [Option.some_or, Option.map_some, Option.getD_some]
    constructor
    · intro hb
      exact ⟨entry, hentry, hname, hb⟩
    · rintro ⟨entry', hentry', hname', hb⟩
      obtain rfl : entry' = entry :=
        List.inj_on_of_nodup_map hnodup hentry' hentry (hname'.trans hname.symm)
      exact hb

/-- The names of the skeletons of an outline are its names. -/
lemma map_fst_skeletons (o : Outline) : o.skeletons.map Prod.fst = o.map Prod.fst := by
  unfold Outline.skeletons
  rw [List.map_map]
  rfl

/-- The names of linked nodes are those of the nodes and of the targets that are not among them. -/
lemma names_linkedNodes (nodes : List Node) :
    (linkedNodes nodes).map Node.name = nodes.map Node.name ++ undeclaredTargets nodes := by
  rw [map_name_eq, map_skeleton_linkedNodes, List.map_append, ← map_name_eq, List.map_map]
  exact congrArg _ (List.map_id _)

/-- The names of linked nodes with an outline. -/
lemma map_name_linkedNodes {o : Outline} {nodes : List Node}
    (hnodes : nodes.map Node.skeleton = o.skeletons) :
    (linkedNodes nodes).map Node.name = o.map Prod.fst ++ undeclaredTargets nodes := by
  rw [names_linkedNodes, map_name_eq, hnodes, map_fst_skeletons]

/-- The undeclared targets are those that an outline leads to and does not name. -/
lemma mem_undeclaredTargets_iff {o : Outline} {nodes : List Node}
    (hnodes : nodes.map Node.skeleton = o.skeletons) {b : Text} :
    b ∈ undeclaredTargets nodes ↔ (∃ a, o.Leads a b) ∧ b ∉ o.map Prod.fst := by
  have hleads : b ∈ o.skeletons.flatMap Prod.snd ↔ ∃ a, o.Leads a b := by
    unfold Outline.skeletons Outline.Leads
    rw [List.mem_flatMap]
    constructor
    · rintro ⟨skeleton, hskeleton, hb⟩
      obtain ⟨entry, hentry, rfl⟩ := List.mem_map.mp hskeleton
      exact ⟨entry.1, entry, hentry, rfl, hb⟩
    · rintro ⟨a, entry, hentry, rfl, hb⟩
      exact ⟨_, List.mem_map_of_mem hentry, hb⟩
  rw [undeclaredTargets_eq, List.mem_eraseDups, List.mem_filter, hnodes, map_fst_skeletons, hleads]
  simp

/-- Where an outline leads, there are nodes. -/
lemma mem_names_of_leads {o : Outline} {nodes : List Node}
    (hnodes : nodes.map Node.skeleton = o.skeletons) {a b : Text} (h : o.Leads a b) :
    a ∈ (linkedNodes nodes).map Node.name ∧ b ∈ (linkedNodes nodes).map Node.name := by
  rw [map_name_linkedNodes hnodes, List.mem_append, List.mem_append]
  constructor
  · obtain ⟨entry, hentry, rfl, -⟩ := h
    exact Or.inl (List.mem_map_of_mem hentry)
  · by_cases hmem : b ∈ o.map Prod.fst
    · exact Or.inl hmem
    · exact Or.inr ((mem_undeclaredTargets_iff hnodes).mpr ⟨⟨a, h⟩, hmem⟩)

/-! ## Collections that have a graph -/

/-- All names of an outline and of its targets have an encoding. -/
def Outline.IsEncodable (o : Outline) : Prop :=
  ∀ entry ∈ o, entry.1.utf8?.isSome ∧ ∀ target ∈ entry.2.targets, target.utf8?.isSome

/-- The names of linked nodes have an encoding if those of the outline have one. -/
lemma Outline.IsEncodable.isSome_utf8? {o : Outline} {nodes : List Node} (h : o.IsEncodable)
    (hnodes : nodes.map Node.skeleton = o.skeletons) {n : Node} (hn : n ∈ linkedNodes nodes) :
    n.name.utf8?.isSome := by
  have hname : n.name ∈ (linkedNodes nodes).map Node.name := List.mem_map_of_mem hn
  rw [map_name_linkedNodes hnodes, List.mem_append] at hname
  rcases hname with hname | hname
  · obtain ⟨entry, hentry, heq⟩ := List.mem_map.mp hname
    rw [← heq]
    exact (h entry hentry).1
  · obtain ⟨⟨_, entry, hentry, -, htarget⟩, -⟩ := (mem_undeclaredTargets_iff hnodes).mp hname
    exact (h entry hentry).2 _ htarget

/-- The nodes of a graph in an order are among those that it is made of. -/
lemma mem_of_mem_orderedGraph {nodes : List Node} {order : List Text} {suffix : Text}
    {resolver : Option Resolver} {n : Node} (h : n ∈ (orderedGraph nodes order suffix resolver).nodes) :
    n ∈ nodes ∧ n.name ∈ order := by
  obtain ⟨name, hname, hfind⟩ := List.mem_filterMap.mp h
  have heq : n.name = name := by simpa using List.find?_some hfind
  exact ⟨List.mem_of_find?_eq_some hfind, heq ▸ hname⟩

namespace Collection

variable {c : Collection} {declared : List Node} {zeroIsUnset : Bool}

/-- Declarations in an order have a coloured graph if their names have an encoding. -/
lemma exists_colored_of_walkOrder {order : List Text} (hdeclared : c.declaredNodes = .ok declared)
    (horder : walkOrder ((linkedNodes declared).map Node.name) (targetsOf (linkedNodes declared)) =
      .ok order) (hencodable : ∀ n ∈ linkedNodes declared, n.name.utf8?.isSome) :
    ∃ g, c.colored zeroIsUnset = .ok g := by
  have hgraph : c.toGraph (some ⟨zeroIsUnset⟩) = .ok
      (orderedGraph (linkedNodes declared) order c.suffix (some ⟨zeroIsUnset⟩)) :=
    toGraph_eq_ok_iff.mpr ⟨declared, order, hdeclared, horder, rfl⟩
  have hcolor : (Graph.colorNodes (orderedGraph (linkedNodes declared) order c.suffix
      (some ⟨zeroIsUnset⟩)) category10).2 = none :=
    Graph.colorNodes_snd_eq_none (by decide)
      fun n hn => hencodable n (mem_of_mem_orderedGraph hn).1
  exact ⟨_, colored_eq_ok_iff.mpr ⟨_, hgraph, Prod.ext rfl hcolor⟩⟩

/-- Declarations without an order have no coloured graph, for the reason that they have none. -/
lemma colored_eq_error_of_walkOrder {failure : Failure} (hdeclared : c.declaredNodes = .ok declared)
    (horder : walkOrder ((linkedNodes declared).map Node.name) (targetsOf (linkedNodes declared)) =
      .error failure) : c.colored zeroIsUnset = .error failure := by
  unfold colored toGraph
  rw [hdeclared]
  change (orderNodes (linkedNodes declared) >>= fun nodes => _ : Except Failure Graph) >>= _ = _
  rw [orderNodes_eq_error_iff.mpr horder]
  rfl

/-- A collection whose outline is acceptable and encodable has a coloured graph if the outline leads
through no cycle, and else fails because of one. -/
theorem colored_of_isAcceptable {c : Collection} (hacceptable : ∀ entry ∈ c.outline,
      entry.2.IsAcceptable) (hnodup : (c.outline.map Prod.fst).Nodup)
    (hencodable : c.outline.IsEncodable) (zeroIsUnset : Bool) :
    (¬ HasCycle c.outline.Leads → ∃ g, c.colored zeroIsUnset = .ok g) ∧
      (HasCycle c.outline.Leads → ∃ path, c.colored zeroIsUnset = .error (.cycle path)) := by
  obtain ⟨declared, hdeclared⟩ := exists_declaredNodes_iff.mpr hacceptable
  have hskeleton := map_skeleton_of_realizes (realizes_of_declaredNodes hdeclared)
  have hleads : Leads (targetsOf (linkedNodes declared)) = c.outline.Leads := by
    funext a b
    exact propext (leads_linkedNodes_iff hskeleton hnodup)
  have hclosed : ∀ a b, Leads (targetsOf (linkedNodes declared)) a b →
      a ∈ (linkedNodes declared).map Node.name ∧ b ∈ (linkedNodes declared).map Node.name := by
    intro a b hab
    rw [hleads] at hab
    exact mem_names_of_leads hskeleton hab
  rw [← hleads]
  constructor
  · intro hacyclic
    obtain ⟨order, horder⟩ := (walkOrder_isOk_iff hclosed).mpr hacyclic
    exact exists_colored_of_walkOrder hdeclared horder fun _ => hencodable.isSome_utf8? hskeleton
  · intro hcycle
    cases horder : walkOrder ((linkedNodes declared).map Node.name)
        (targetsOf (linkedNodes declared)) with
    | ok order => exact absurd hcycle ((walkOrder_isOk_iff hclosed).mp ⟨order, horder⟩)
    | error failure =>
      obtain ⟨⟨path, rfl⟩, -⟩ :=
        hasCycle_of_walkOrder_eq_error (fun a b h => (hclosed a b h).2) horder
      exact ⟨path, colored_eq_error_of_walkOrder hdeclared horder⟩

/-- A collection with a coloured graph has an acceptable outline. -/
lemma isAcceptable_of_colored {c : Collection} {zeroIsUnset : Bool} {g : Graph}
    (h : c.colored zeroIsUnset = .ok g) : ∀ entry ∈ c.outline, entry.2.IsAcceptable := by
  obtain ⟨graph, hgraph, -⟩ := colored_eq_ok_iff.mp h
  obtain ⟨declared, order, hdeclared, -, -⟩ := toGraph_eq_ok_iff.mp hgraph
  exact exists_declaredNodes_iff.mp ⟨declared, hdeclared⟩

end Collection

/-! ## Built graphs -/

/-- Colouring keeps the skeletons of nodes. -/
lemma Graph.map_skeleton_colorNodes (g : Graph) (palette : List Text) :
    (g.colorNodes palette).1.nodes.map Node.skeleton = g.nodes.map Node.skeleton := by
  refine Graph.colorNodes_keeps (P := fun g' => g'.nodes.map Node.skeleton =
    g.nodes.map Node.skeleton) ?_ palette rfl
  intro g' name color hg'
  rw [← hg']
  unfold Graph.editNode
  rw [List.map_map]
  refine List.map_congr_left fun n _ => ?_
  dsimp only [Function.comp_apply]
  split
  · rfl
  · rfl

/-- In an order, nodes lead where they lead. -/
lemma leads_orderedGraph {nodes : List Node} {order : List Text} {suffix : Text}
    {resolver : Option Resolver} {a b : Text}
    (h : Leads (targetsOf (orderedGraph nodes order suffix resolver).nodes) a b) :
    a ∈ order ∧ Leads (targetsOf nodes) a b := by
  unfold Leads targetsOf at h ⊢
  cases hfind : (orderedGraph nodes order suffix resolver).nodes.find? fun n => n.name == a with
  | none =>
    rw [hfind] at h
    exact absurd h List.not_mem_nil
  | some n =>
    rw [hfind] at h
    have hname : n.name = a := by simpa using List.find?_some hfind
    have hmem := List.mem_of_find?_eq_some hfind
    obtain ⟨name, horder, hfound⟩ := List.mem_filterMap.mp hmem
    have hname' : n.name = name := by simpa using List.find?_some hfound
    obtain rfl : name = a := hname'.symm.trans hname
    rw [hfound]
    exact ⟨horder, h⟩

/-- The graph of a collection has no cycle. -/
lemma Collection.not_hasCycle_of_toGraph {c : Collection} {resolver : Option Resolver} {g : Graph}
    (h : c.toGraph resolver = .ok g) : ¬ HasCycle (Leads (targetsOf g.nodes)) := by
  obtain ⟨declared, order, -, horder, rfl⟩ := toGraph_eq_ok_iff.mp h
  have hwalked := walked_of_walkOrder horder
  rintro ⟨a, hcycle⟩
  obtain ⟨b, hab, -⟩ := Relation.TransGen.head'_iff.mp hcycle
  have horder : a ∈ order := (leads_orderedGraph hab).1
  have hlinked : Relation.TransGen (Leads (targetsOf (linkedNodes declared))) a a :=
    Relation.TransGen.lift id (fun _ _ h => (leads_orderedGraph h).2) _ _ hcycle
  exact not_transGen_of_acc (hwalked.acc a horder List.not_mem_nil) hlinked

/-- A graph that is built has no cycle. -/
theorem Collection.not_hasCycle_of_colored {c : Collection} {zeroIsUnset : Bool} {g : Graph}
    (h : c.colored zeroIsUnset = .ok g) : ¬ HasCycle (Leads (targetsOf g.nodes)) := by
  obtain ⟨graph, hgraph, hcolored⟩ := colored_eq_ok_iff.mp h
  have htargets : targetsOf g.nodes = targetsOf graph.nodes := by
    have hskeleton := Graph.map_skeleton_colorNodes graph category10
    rw [hcolored] at hskeleton
    funext name
    rw [targetsOf_eq, targetsOf_eq, hskeleton]
  rw [htargets]
  exact not_hasCycle_of_toGraph hgraph

end StockFlow
