import StockFlow.Proofs.Graph.ColorPass
import StockFlow.Proofs.Graph.Parts
import StockFlow.Proofs.Sheet.Assembly
import StockFlow.Proofs.Sheet.Rearranged
/-!
# Declarations that share no names

Two lists of declarations that share no names are built side by side: the graph of both has the nodes of
the one and then those of the other, and each of the two graphs is a part of it
(`Collection.exists_colored_behind`).

They share the collection, the list of nodes, the walk and the colouring pass. Each stage is taken by
itself. Declarations that are collected behind others never meet them
(`Collection.foldlM_add_behind`). The targets that are not declared come behind all declared nodes, so
the linked nodes of both are those of each, but in another order (`perm_linkedNodes_append`). The walk
and the rules for colours only ask for names within a part.
-/

namespace StockFlow

/-! ## Names -/

/-- The names of nodes and the targets of the links that leave them. -/
def mentionsOf (nodes : List Node) : List Text :=
  nodes.map Node.name ++ nodes.flatMap fun n => n.outgoing.map Link.target

/-- The nodes that declarations become, before links are attached at their targets. -/
def declaredNodesOf (ds : List Datum) : Except Failure (List Node) := do
  (← ds.foldlM Collection.add {}).declaredNodes

/-- The names of declarations and the targets of their links, as texts. -/
def mentionedNames (ds : List Datum) : List Text :=
  mentionsOf ((declaredNodesOf ds).toOption.getD [])

/-! ## Collections -/

namespace Collection

/-- A collection behind further declarations. -/
def behind (front : List Declared) (c : Collection) : Collection :=
  { c with declarations := front ++ c.declarations }

variable {c c' c₁ c₂ : Collection} {d : Datum} {ds : List Datum} {front : List Declared} {name : Text}

/-- A name that is not in front is found behind. -/
lemma find?_behind (h : name ∉ front.map Declared.name) : (c.behind front).find? name = c.find? name := by
  have hnone : front.find? (fun d => d.name == name) = none := by
    refine List.find?_eq_none.mpr fun d hd heq => h ?_
    exact List.mem_map.mpr ⟨d, hd, eq_of_beq heq⟩
  unfold find? behind
  rw [List.find?_append, hnone, Option.none_or]

/-- A declaration that meets no name in front is added behind. -/
lemma add_behind (h : c.add d = .ok c')
    (hfront : (front.map Declared.name).Disjoint (c'.declarations.map Declared.name)) :
    (c.behind front).add d = .ok (c'.behind front) := by
  obtain ⟨name, hname, -⟩ := Outcome.bind_eq_ok_iff.mp h
  have hnot : name ∉ front.map Declared.name := by
    refine fun hmem => hfront hmem ?_
    rw [names_add hname h]
    split
    · assumption
    · simp
  cases hfind : c.find? name with
  | none =>
    rw [add_of_find?_eq_none hname hfind] at h
    cases h
    rw [add_of_find?_eq_none hname ((find?_behind hnot).trans hfind)]
    unfold behind
    rw [List.append_assoc]
  | some existing =>
    have hfields := isSome_fields?_of_declaredName hname
    rw [add_of_find?_eq_some hfields hname hfind] at h
    obtain ⟨merged, hmerged, h⟩ := Outcome.bind_eq_ok_iff.mp h
    cases h
    rw [add_of_find?_eq_some hfields hname ((find?_behind hnot).trans hfind)]
    refine Outcome.bind_eq_ok_iff.mpr ⟨merged, hmerged, congrArg Except.ok ?_⟩
    unfold behind
    rw [List.map_append]
    refine congrArg (fun kept => Collection.mk (kept ++ _) _) ?_
    refine (List.map_congr_left fun d' hd' => if_neg fun heq => hnot ?_).trans (List.map_id front)
    exact List.mem_map.mpr ⟨d', hd', eq_of_beq heq⟩

/-- Declarations that are added keep the names that there are. -/
lemma names_subset_foldlM (h : ds.foldlM Collection.add c = .ok c') :
    c.declarations.map Declared.name ⊆ c'.declarations.map Declared.name := by
  induction ds generalizing c with
  | nil =>
    cases h
    exact List.Subset.refl _
  | cons d ds ih =>
    rw [List.foldlM_cons] at h
    obtain ⟨middle, hmiddle, h⟩ := Outcome.bind_eq_ok_iff.mp h
    obtain ⟨name, hname, -⟩ := Outcome.bind_eq_ok_iff.mp hmiddle
    refine List.Subset.trans ?_ (ih h)
    rw [names_add hname hmiddle]
    split
    · exact List.Subset.refl _
    · exact List.subset_append_left _ _

/-- Declarations that meet no name in front are collected behind. -/
lemma foldlM_add_behind (h : ds.foldlM Collection.add c = .ok c')
    (hfront : (front.map Declared.name).Disjoint (c'.declarations.map Declared.name)) :
    ds.foldlM Collection.add (c.behind front) = .ok (c'.behind front) := by
  induction ds generalizing c with
  | nil =>
    cases h
    rfl
  | cons d ds ih =>
    rw [List.foldlM_cons] at h ⊢
    obtain ⟨middle, hmiddle, h⟩ := Outcome.bind_eq_ok_iff.mp h
    have hnames := names_subset_foldlM h
    refine Outcome.bind_eq_ok_iff.mpr ⟨_, add_behind hmiddle ?_, ih h⟩
    exact List.disjoint_of_subset_right hnames hfront

/-- Two lists of declarations that share no names are collected one behind the other. -/
lemma foldlM_add_append {ds₁ ds₂ : List Datum} (h₁ : ds₁.foldlM Collection.add {} = .ok c₁)
    (h₂ : ds₂.foldlM Collection.add {} = .ok c₂)
    (hdisjoint : (c₁.declarations.map Declared.name).Disjoint (c₂.declarations.map Declared.name)) :
    (ds₁ ++ ds₂).foldlM Collection.add {} = .ok (c₂.behind c₁.declarations) := by
  have hsuffix : c₁ = Collection.behind c₁.declarations {} := by
    have hkept := foldlM_add_withSuffix ds₁ {} []
    change ds₁.foldlM Collection.add {} = _ at hkept
    rw [h₁] at hkept
    have hnone : c₁ = c₁.withSuffix [] := Except.ok.inj hkept
    rw [hnone]
    unfold behind withSuffix
    rw [List.append_nil]
    rfl
  rw [List.foldlM_append, h₁]
  change ds₂.foldlM Collection.add c₁ = _
  have hbehind := foldlM_add_behind h₂ hdisjoint
  rw [← hsuffix] at hbehind
  exact hbehind

/-- Collections one behind the other have the nodes of both. -/
lemma declaredNodes_behind {declared₁ declared₂ : List Node} (h₁ : c₁.declaredNodes = .ok declared₁)
    (h₂ : c₂.declaredNodes = .ok declared₂) :
    (c₂.behind c₁.declarations).declaredNodes = .ok (declared₁ ++ declared₂) := by
  rw [declaredNodes_eq_ok_iff] at h₁ h₂ ⊢
  exact List.rel_append h₁ h₂

end Collection

/-! ## Links between nodes of two lists -/

section Linked

variable {declared declared₁ declared₂ : List Node} {name : Text} {suffix : Text}
variable {resolver : Option Resolver}

lemma incomingOf_append (nodes nodes' : List Node) (name : Text) :
    incomingOf (nodes ++ nodes') name = incomingOf nodes name ++ incomingOf nodes' name :=
  List.flatMap_append ..

/-- No links enter a node that no link has for a target. -/
lemma incomingOf_eq_nil {nodes : List Node}
    (h : name ∉ nodes.flatMap fun n => n.outgoing.map Link.target) : incomingOf nodes name = [] := by
  unfold incomingOf
  refine List.flatMap_eq_nil_iff.mpr fun n hn => List.filterMap_eq_nil_iff.mpr fun entry hentry => ?_
  refine if_neg fun heq => h (List.mem_flatMap.mpr ⟨n, hn, ?_⟩)
  rw [← eq_of_beq heq]
  exact List.mem_map_of_mem (List.of_mem_zip hentry).2

/-- The links that enter a node leave declared nodes. -/
lemma incomingOf_append_bareNodes (names : List Text) (name : Text) :
    incomingOf (declared ++ names.map bareNode) name = incomingOf declared name := by
  have hnone : incomingOf (names.map bareNode) name = [] :=
    incomingOf_eq_nil (by simp [bareNode, List.flatMap_map])
  rw [incomingOf_append, hnone, List.append_nil]

/-- The linked nodes know the links that leave declared nodes. -/
lemma linkedNodes_eq (declared : List Node) :
    linkedNodes declared = (declared ++ (undeclaredTargets declared).map bareNode).map fun n =>
      { n with incoming := incomingOf declared n.name } := by
  unfold linkedNodes
  simp only [attachIncoming_eq, incomingOf_append_bareNodes]

/-- Targets that are not declared are mentioned. -/
lemma undeclaredTargets_subset (declared : List Node) :
    undeclaredTargets declared ⊆ mentionsOf declared := by
  intro name hname
  unfold undeclaredTargets at hname
  rw [List.mem_eraseDups, List.mem_filter] at hname
  exact List.mem_append_right _ hname.1

/-- The linked nodes have the names that are mentioned. -/
lemma names_linkedNodes_subset (declared : List Node) :
    (linkedNodes declared).map Node.name ⊆ mentionsOf declared := by
  rw [names_linkedNodes]
  exact List.append_subset.mpr
    ⟨List.subset_append_left _ _, undeclaredTargets_subset declared⟩

variable (hdisjoint : (mentionsOf declared₁).Disjoint (mentionsOf declared₂))

include hdisjoint

/-- The targets of both lists that are not declared. -/
lemma undeclaredTargets_append : undeclaredTargets (declared₁ ++ declared₂) =
    undeclaredTargets declared₁ ++ undeclaredTargets declared₂ := by
  unfold undeclaredTargets
  simp only [List.map_append, List.flatMap_append, List.filter_append]
  have hfirst : ∀ target ∈ declared₁.flatMap fun n => n.outgoing.map Link.target,
      target ∉ declared₂.map Node.name := fun target htarget hmem =>
    hdisjoint (List.mem_append_right _ htarget) (List.mem_append_left _ hmem)
  have hsecond : ∀ target ∈ declared₂.flatMap fun n => n.outgoing.map Link.target,
      target ∉ declared₁.map Node.name := fun target htarget hmem =>
    hdisjoint (List.mem_append_left _ hmem) (List.mem_append_right _ htarget)
  rw [List.filter_congr (p := fun target => !(_ ++ _ : List Text).contains target)
      (q := fun target => !(declared₁.map Node.name).contains target) fun target htarget => by
        simp [hfirst target htarget],
    List.filter_congr (p := fun target => !(_ ++ _ : List Text).contains target)
      (q := fun target => !(declared₂.map Node.name).contains target) fun target htarget => by
        simp [hsecond target htarget],
    List.eraseDups_append]
  refine congrArg₂ (· ++ ·) rfl
    (congrArg List.eraseDups (List.filter_eq_self.mpr fun target htarget => ?_))
  have hnot : target ∉ declared₁.flatMap fun n => n.outgoing.map Link.target := fun hmem =>
    hdisjoint (List.mem_append_right _ hmem) (List.mem_append_right _ (List.mem_of_mem_filter htarget))
  rw [Bool.not_eq_true', ← Bool.not_eq_true, List.elem_iff]
  exact fun hmem => hnot (List.mem_of_mem_filter hmem)

/-- Of the links between the nodes of both lists, those of the first one enter what it mentions. -/
lemma incomingOf_append_left (hname : name ∈ mentionsOf declared₁) :
    incomingOf (declared₁ ++ declared₂) name = incomingOf declared₁ name := by
  have hnone : incomingOf declared₂ name = [] :=
    incomingOf_eq_nil fun hmem => hdisjoint hname (List.mem_append_right _ hmem)
  rw [incomingOf_append, hnone, List.append_nil]

/-- Of the links between the nodes of both lists, those of the second one enter what it mentions. -/
lemma incomingOf_append_right (hname : name ∈ mentionsOf declared₂) :
    incomingOf (declared₁ ++ declared₂) name = incomingOf declared₂ name := by
  have hnone : incomingOf declared₁ name = [] :=
    incomingOf_eq_nil fun hmem => hdisjoint (List.mem_append_right _ hmem) hname
  rw [incomingOf_append, hnone, List.nil_append]

/-- The linked nodes of both lists are those of each, in another order. -/
lemma perm_linkedNodes_append : (linkedNodes (declared₁ ++ declared₂)).Perm
    (linkedNodes declared₁ ++ linkedNodes declared₂) := by
  have hnames : ∀ declared, ∀ n ∈ declared ++ (undeclaredTargets declared).map bareNode,
      n.name ∈ mentionsOf declared := by
    intro declared n hn
    rcases List.mem_append.mp hn with hn | hn
    · exact List.mem_append_left _ (List.mem_map_of_mem hn)
    · obtain ⟨name, hname, rfl⟩ := List.mem_map.mp hn
      exact undeclaredTargets_subset declared hname
  have hfirst : linkedNodes declared₁ =
      (declared₁ ++ (undeclaredTargets declared₁).map bareNode).map fun n =>
        { n with incoming := incomingOf (declared₁ ++ declared₂) n.name } := by
    rw [linkedNodes_eq]
    refine List.map_congr_left fun n hn => ?_
    rw [incomingOf_append_left hdisjoint (hnames declared₁ n hn)]
  have hsecond : linkedNodes declared₂ =
      (declared₂ ++ (undeclaredTargets declared₂).map bareNode).map fun n =>
        { n with incoming := incomingOf (declared₁ ++ declared₂) n.name } := by
    rw [linkedNodes_eq]
    refine List.map_congr_left fun n hn => ?_
    rw [incomingOf_append_right hdisjoint (hnames declared₂ n hn)]
  rw [linkedNodes_eq, hfirst, hsecond, ← List.map_append, undeclaredTargets_append hdisjoint]
  refine List.Perm.map _ ?_
  rw [List.map_append, List.append_assoc, List.append_assoc]
  exact (List.perm_append_comm_assoc _ _ _).append_left declared₁

/-- The linked nodes of each list are a part of those of both. -/
lemma isPartOf_linkedNodes (hnames₁ : (declared₁.map Node.name).Nodup)
    (hnames₂ : (declared₂.map Node.name).Nodup) (suffix suffix' : Text)
    (resolver : Option Resolver) :
    (Graph.mk (linkedNodes declared₁) suffix resolver).IsPartOf
        ⟨linkedNodes (declared₁ ++ declared₂), suffix', resolver⟩ ∧
      (Graph.mk (linkedNodes declared₂) suffix resolver).IsPartOf
        ⟨linkedNodes (declared₁ ++ declared₂), suffix', resolver⟩ := by
  have hperm := perm_linkedNodes_append hdisjoint
  have hnames : ((declared₁ ++ declared₂).map Node.name).Nodup := by
    rw [List.map_append]
    exact hnames₁.append hnames₂ fun name hname hname' =>
      hdisjoint (List.mem_append_left _ hname) (List.mem_append_left _ hname')
  refine ⟨⟨isLinked_linkedNodes hnames₁ _ _, isLinked_linkedNodes hnames _ _, ?_, rfl⟩,
    ⟨isLinked_linkedNodes hnames₂ _ _, isLinked_linkedNodes hnames _ _, ?_, rfl⟩⟩
  · exact fun n hn => hperm.mem_iff.mpr (List.mem_append_left _ hn)
  · exact fun n hn => hperm.mem_iff.mpr (List.mem_append_right _ hn)

end Linked

/-! ## Graphs -/

/-- Linked nodes lead to each other. -/
lemma isClosedUnder_targetsOf {g : Graph} (h : g.IsLinked) :
    IsClosedUnder (targetsOf g.nodes) (g.nodes.map Node.name) :=
  fun name _ target htarget => mem_of_leads_targetsOf h.target_mem name target htarget

/-- A target that is not declared is one of a declared node. -/
lemma exists_targetsOf_of_mem_undeclaredTargets {declared : List Node}
    (hnames : (declared.map Node.name).Nodup) {target : Text}
    (htarget : target ∈ undeclaredTargets declared) :
    ∃ name ∈ declared.map Node.name, target ∈ targetsOf (linkedNodes declared) name := by
  unfold undeclaredTargets at htarget
  rw [List.mem_eraseDups, List.mem_filter, List.mem_flatMap] at htarget
  obtain ⟨⟨n, hn, hlink⟩, -⟩ := htarget
  have hlinked : { n with incoming := incomingOf declared n.name } ∈ linkedNodes declared := by
    rw [linkedNodes_eq]
    exact List.mem_map_of_mem (List.mem_append_left _ hn)
  have hfind := (Graph.node?_eq_some_iff (g := ⟨linkedNodes declared, [], none⟩)
    (nodup_map_name_linkedNodes hnames)).mpr ⟨hlinked, rfl⟩
  refine ⟨n.name, List.mem_map_of_mem hn, ?_⟩
  unfold Graph.node? at hfind
  unfold targetsOf
  rw [hfind]
  exact hlink

/-- The nodes of a part lead where they lead in the part. -/
lemma Graph.IsPartOf.targetsOf_eq {part whole : Graph} (h : part.IsPartOf whole) {name : Text}
    (hname : name ∈ part.nodes.map Node.name) :
    targetsOf whole.nodes name = targetsOf part.nodes name := by
  have hnode := h.node?_eq hname
  unfold Graph.node? at hnode
  unfold targetsOf
  rw [hnode]

/-- The nodes of a part stand in an order of names of the part as they do in the part. -/
lemma Graph.IsPartOf.nodes_orderedGraph {part whole : Graph} (h : part.IsPartOf whole)
    {order : List Text} (horder : order ⊆ part.nodes.map Node.name) (suffix : Text)
    (resolver : Option Resolver) : (orderedGraph whole.nodes order suffix resolver).nodes =
      (orderedGraph part.nodes order suffix resolver).nodes :=
  List.filterMap_congr fun _ hname => h.node?_eq (horder hname)

/-- Where the nodes of a graph are those of two parts, they are coloured as the parts are. -/
lemma Graph.exists_colorNodes_of_isPartOf {g g₁ g₂ colored₁ colored₂ : Graph} {palette : List Text}
    (hpart₁ : g₁.IsPartOf g) (hpart₂ : g₂.IsPartOf g) (hnodes : g.nodes = g₁.nodes ++ g₂.nodes)
    (hacyclic : ¬HasCycle (Leads (targetsOf g.nodes)))
    (hacyclic₁ : ¬HasCycle (Leads (targetsOf g₁.nodes)))
    (hacyclic₂ : ¬HasCycle (Leads (targetsOf g₂.nodes)))
    (hfixed : ∀ c ∈ palette, (Datum.text c).isFixedColor)
    (h₁ : g₁.colorNodes palette = (colored₁, none)) (h₂ : g₂.colorNodes palette = (colored₂, none)) :
    ∃ colored, g.colorNodes palette = (colored, none) ∧
      colored.nodes = colored₁.nodes ++ colored₂.nodes := by
  obtain ⟨color₁, hpass₁, hcolor₁⟩ :=
    exists_colorNodes_eq hpart₁.linked_part hacyclic₁ hfixed (congrArg Prod.snd h₁)
  obtain ⟨color₂, hpass₂, hcolor₂⟩ :=
    exists_colorNodes_eq hpart₂.linked_part hacyclic₂ hfixed (congrArg Prod.snd h₂)
  rw [h₁] at hpass₁
  rw [h₂] at hpass₂
  dsimp only at hpass₁ hpass₂
  have hpasses : (g.colorNodes palette).2 = none := by
    rw [colorNodes_snd_eq_none_iff hpart₁.linked_whole hacyclic hfixed, hnodes]
    refine List.forall_mem_append.mpr ⟨fun n hn => ?_, fun n hn => ?_⟩
    · exact ⟨_, hpart₁.hasColor (hcolor₁ n hn)⟩
    · exact ⟨_, hpart₂.hasColor (hcolor₂ n hn)⟩
  obtain ⟨color, hpass, hcolor⟩ :=
    exists_colorNodes_eq hpart₁.linked_whole hacyclic hfixed hpasses
  have hsame : ∀ n ∈ g.nodes, ∀ c, g.HasColor palette n.name c → color n.name = c := fun n hn c hc =>
    (hcolor n hn).unique hpart₁.linked_whole.nodup_names hc
  refine ⟨g.withColors color, Prod.ext hpass hpasses, ?_⟩
  rw [hpass₁, hpass₂]
  unfold withColors
  rw [hnodes, List.map_append]
  refine congrArg₂ (· ++ ·) (List.map_congr_left fun n hn => ?_) (List.map_congr_left fun n hn => ?_)
  · rw [hsame n (hpart₁.nodes_subset hn) _ (hpart₁.hasColor (hcolor₁ n hn))]
  · rw [hsame n (hpart₂.nodes_subset hn) _ (hpart₂.hasColor (hcolor₂ n hn))]

namespace Collection

variable {c₁ c₂ : Collection} {declared₁ declared₂ : List Node} {resolver : Option Resolver}
variable {g₁ g₂ : Graph} {zeroIsUnset : Bool}

section Behind

variable (hnames₁ : (c₁.declarations.map Declared.name).Nodup)
variable (hnames₂ : (c₂.declarations.map Declared.name).Nodup)
variable (hdeclared₁ : c₁.declaredNodes = .ok declared₁) (hdeclared₂ : c₂.declaredNodes = .ok declared₂)
variable (hdisjoint : (mentionsOf declared₁).Disjoint (mentionsOf declared₂))

include hnames₁ hnames₂ hdeclared₁ hdeclared₂ hdisjoint

/-- Collections one behind the other have the graphs of both, one behind the other. -/
lemma exists_toGraph_behind (h₁ : c₁.toGraph resolver = .ok g₁) (h₂ : c₂.toGraph resolver = .ok g₂) :
    ∃ g, (c₂.behind c₁.declarations).toGraph resolver = .ok g ∧ g.nodes = g₁.nodes ++ g₂.nodes := by
  obtain ⟨declared, order₁, hdeclared, horder₁, rfl⟩ := toGraph_eq_ok_iff.mp h₁
  obtain rfl : declared = declared₁ := Except.ok.inj (hdeclared.symm.trans hdeclared₁)
  obtain ⟨declared', order₂, hdeclared', horder₂, rfl⟩ := toGraph_eq_ok_iff.mp h₂
  obtain rfl : declared' = declared₂ := Except.ok.inj (hdeclared'.symm.trans hdeclared₂)
  rw [← map_name_declaredNodes hdeclared] at hnames₁
  rw [← map_name_declaredNodes hdeclared'] at hnames₂
  obtain ⟨hpart₁, hpart₂⟩ := isPartOf_linkedNodes hdisjoint hnames₁ hnames₂ [] [] none
  have hclosed₁ := isClosedUnder_targetsOf hpart₁.linked_part
  have hclosed₂ := isClosedUnder_targetsOf hpart₂.linked_part
  have hapart : ((linkedNodes declared).map Node.name).Disjoint
      ((linkedNodes declared').map Node.name) :=
    List.disjoint_of_subset_left (names_linkedNodes_subset declared)
      (List.disjoint_of_subset_right (names_linkedNodes_subset declared') hdisjoint)
  have hnext₁ := fun name (hname : name ∈ (linkedNodes declared).map Node.name) =>
    hpart₁.targetsOf_eq hname
  have hnext₂ := fun name (hname : name ∈ (linkedNodes declared').map Node.name) =>
    hpart₂.targetsOf_eq hname
  have hwithin₁ := subset_of_walkOrder hclosed₁ horder₁
  have hwithin₂ := subset_of_walkOrder hclosed₂ horder₂
  have hnodes₁ := hpart₁.nodes_orderedGraph hwithin₁ c₁.suffix resolver
  have hnodes₂ := hpart₂.nodes_orderedGraph hwithin₂ c₂.suffix resolver
  dsimp only at hclosed₁ hclosed₂ hnext₁ hnext₂ hnodes₁ hnodes₂
  rw [names_linkedNodes] at hclosed₁ hclosed₂ hnext₁ hnext₂ horder₁ horder₂ hapart
  rw [names_linkedNodes declared'] at hapart
  have horder : walkOrder ((linkedNodes (declared ++ declared')).map Node.name)
      (targetsOf (linkedNodes (declared ++ declared'))) = .ok (order₁ ++ order₂) := by
    rw [names_linkedNodes, List.map_append, undeclaredTargets_append hdisjoint]
    exact walkOrder_append hclosed₁ hclosed₂
      (fun _ => exists_targetsOf_of_mem_undeclaredTargets hnames₁)
      (fun _ => exists_targetsOf_of_mem_undeclaredTargets hnames₂) hapart hnext₁ hnext₂ horder₁ horder₂
  refine ⟨_, toGraph_eq_ok_iff.mpr ⟨_, _, declaredNodes_behind hdeclared hdeclared', horder, rfl⟩, ?_⟩
  rw [← hnodes₁, ← hnodes₂]
  exact List.filterMap_append

/-- **Collections apart.**  A collection behind another one that shares no names with it has the coloured
graphs of both, one behind the other and each of them a part of the whole. -/
theorem exists_colored_behind (h₁ : c₁.colored zeroIsUnset = .ok g₁)
    (h₂ : c₂.colored zeroIsUnset = .ok g₂) :
    ∃ g, (c₂.behind c₁.declarations).colored zeroIsUnset = .ok g ∧
      g.nodes = g₁.nodes ++ g₂.nodes ∧ g₁.IsPartOf g ∧ g₂.IsPartOf g := by
  obtain ⟨plain₁, hplain₁, hcolored₁⟩ := colored_eq_ok_iff.mp h₁
  obtain ⟨plain₂, hplain₂, hcolored₂⟩ := colored_eq_ok_iff.mp h₂
  obtain ⟨plain, hplain, hnodes⟩ :=
    exists_toGraph_behind hnames₁ hnames₂ hdeclared₁ hdeclared₂ hdisjoint hplain₁ hplain₂
  have hnames : ((c₂.behind c₁.declarations).declarations.map Declared.name).Nodup := by
    unfold behind
    rw [List.map_append, ← map_name_declaredNodes hdeclared₁, ← map_name_declaredNodes hdeclared₂]
    rw [← map_name_declaredNodes hdeclared₁] at hnames₁
    rw [← map_name_declaredNodes hdeclared₂] at hnames₂
    exact hnames₁.append hnames₂ fun name hname hname' =>
      hdisjoint (List.mem_append_left _ hname) (List.mem_append_left _ hname')
  have hlinked := isLinked_of_toGraph hnames hplain
  have hresolver : ∀ {c : Collection} {g : Graph}, c.toGraph (some ⟨zeroIsUnset⟩) = .ok g →
      g.resolver = some ⟨zeroIsUnset⟩ := by
    intro c g h
    obtain ⟨declared, order, -, -, rfl⟩ := toGraph_eq_ok_iff.mp h
    rfl
  obtain ⟨hpart₁, hpart₂⟩ := Graph.isPartOf_of_nodes_eq_append hlinked
    (isLinked_of_toGraph hnames₁ hplain₁) (isLinked_of_toGraph hnames₂ hplain₂) hnodes
    ((hresolver hplain₁).trans (hresolver hplain).symm)
    ((hresolver hplain₂).trans (hresolver hplain).symm)
  obtain ⟨g, hcolored, hall⟩ := Graph.exists_colorNodes_of_isPartOf hpart₁ hpart₂ hnodes
    (not_hasCycle_of_toGraph hplain) (not_hasCycle_of_toGraph hplain₁)
    (not_hasCycle_of_toGraph hplain₂) (by decide) hcolored₁ hcolored₂
  have hg : (c₂.behind c₁.declarations).colored zeroIsUnset = .ok g :=
    colored_eq_ok_iff.mpr ⟨plain, hplain, hcolored⟩
  obtain ⟨hlinkedg, hresolverg⟩ := isLinked_of_colored hnames hg
  obtain ⟨hlinked₁, hresolver₁⟩ := isLinked_of_colored hnames₁ h₁
  obtain ⟨hlinked₂, hresolver₂⟩ := isLinked_of_colored hnames₂ h₂
  exact ⟨g, hg, hall, Graph.isPartOf_of_nodes_eq_append hlinkedg hlinked₁ hlinked₂ hall
    (hresolver₁.trans hresolverg.symm) (hresolver₂.trans hresolverg.symm)⟩

end Behind

end Collection

/-! ## Sheets -/

/-- A sheet without alternatives that can be built has the coloured graph of its collection. -/
lemma exists_colored_of_buildGraphs_of_single {s : Settings} {ds : List Datum} {gs : List Graph}
    (hsingle : ∀ d ∈ ds, Builder.alternativesOf d = none) (h : buildGraphs s ds = .ok gs) :
    ∃ c g, ds.foldlM Collection.add {} = .ok c ∧ c.colored s.zeroIsUnset = .ok g ∧ gs = [g] := by
  rw [← Builder.variant_eq_self hsingle 0, buildGraphs_variant_eq_ok_iff,
    Builder.variant_eq_self hsingle] at h
  obtain ⟨g, hg, rfl⟩ := h
  obtain ⟨c, hc, hcolored⟩ := Outcome.bind_eq_ok_iff.mp hg
  exact ⟨c, g, hc, hcolored, rfl⟩

/-- The declarations of a collection that has a coloured graph become nodes. -/
lemma Collection.exists_declaredNodes_of_colored_eq_ok {ds : List Datum} {c : Collection}
    {zeroIsUnset : Bool} {g : Graph} (hc : ds.foldlM Collection.add {} = .ok c)
    (h : c.colored zeroIsUnset = .ok g) :
    ∃ declared, c.declaredNodes = .ok declared ∧ mentionedNames ds = mentionsOf declared := by
  obtain ⟨plain, hplain, -⟩ := colored_eq_ok_iff.mp h
  obtain ⟨declared, order, hdeclared, -, -⟩ := toGraph_eq_ok_iff.mp hplain
  refine ⟨declared, hdeclared, ?_⟩
  have hall : declaredNodesOf ds = .ok declared := Outcome.bind_eq_ok_iff.mpr ⟨c, hc, hdeclared⟩
  unfold mentionedNames
  rw [hall]
  rfl

/-- Two sheets without alternatives that share no names have, taken together, one graph. It has the
nodes of both graphs, one behind the other, and each of them is a part of it. -/
theorem exists_buildGraphs_append {s : Settings} {ds₁ ds₂ : List Datum} {gs₁ gs₂ : List Graph}
    (hsingle : ∀ d ∈ ds₁ ++ ds₂, Builder.alternativesOf d = none)
    (hdisjoint : (mentionedNames ds₁).Disjoint (mentionedNames ds₂))
    (h₁ : buildGraphs s ds₁ = .ok gs₁) (h₂ : buildGraphs s ds₂ = .ok gs₂) :
    ∃ g₁ g₂ g, gs₁ = [g₁] ∧ gs₂ = [g₂] ∧ buildGraphs s (ds₁ ++ ds₂) = .ok [g] ∧
      g.nodes = g₁.nodes ++ g₂.nodes ∧ g₁.IsPartOf g ∧ g₂.IsPartOf g := by
  obtain ⟨hsingle₁, hsingle₂⟩ := List.forall_mem_append.mp hsingle
  obtain ⟨c₁, g₁, hc₁, hcolored₁, rfl⟩ := exists_colored_of_buildGraphs_of_single hsingle₁ h₁
  obtain ⟨c₂, g₂, hc₂, hcolored₂, rfl⟩ := exists_colored_of_buildGraphs_of_single hsingle₂ h₂
  obtain ⟨declared₁, hdeclared₁, hmentioned₁⟩ :=
    Collection.exists_declaredNodes_of_colored_eq_ok hc₁ hcolored₁
  obtain ⟨declared₂, hdeclared₂, hmentioned₂⟩ :=
    Collection.exists_declaredNodes_of_colored_eq_ok hc₂ hcolored₂
  rw [hmentioned₁, hmentioned₂] at hdisjoint
  have hnames : (c₁.declarations.map Declared.name).Disjoint (c₂.declarations.map Declared.name) := by
    rw [← Collection.map_name_declaredNodes hdeclared₁, ← Collection.map_name_declaredNodes hdeclared₂]
    exact fun name hname hname' =>
      hdisjoint (List.mem_append_left _ hname) (List.mem_append_left _ hname')
  obtain ⟨g, hg, hnodes, hpart₁, hpart₂⟩ := Collection.exists_colored_behind
    (Collection.nodup_names_foldlM hc₁ List.nodup_nil) (Collection.nodup_names_foldlM hc₂ List.nodup_nil)
    hdeclared₁ hdeclared₂ hdisjoint hcolored₁ hcolored₂
  refine ⟨g₁, g₂, g, rfl, rfl, ?_, hnodes, hpart₁, hpart₂⟩
  rw [buildGraphs_eq_map_colored hsingle (Collection.foldlM_add_append hc₁ hc₂ hnames), hg]
  rfl

end StockFlow
