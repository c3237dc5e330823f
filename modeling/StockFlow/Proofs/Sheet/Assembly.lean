import StockFlow.Proofs.Sheet.Gathering
import StockFlow.Proofs.Sheet.Linked
/-!
# Built graphs and their declarations

Building loses no node and no link, and makes none up. The graph of declarations without alternatives
has one node for every declared name and for every target. A node has what the first declaration of
its name says, and the links that all declarations of its name list, in their order. It knows the
links that enter it in the order of the first places of their sources
(`isAssembledFrom_of_buildGraphs`).

Merging declarations plays a part only in gathering them by name. The rest is said node by node:
`Node.StandsFor` is what a node has from its declarations, and neither attaching links nor the order
of the walk nor colouring touches it.
-/

namespace StockFlow

/-! ## What declarations say of a graph -/

/-- A node has what the first declaration of its name says, leaving its colour aside, and the links
that all declarations of its name list. -/
structure Node.StandsFor (n : Node) (ds : List Datum) : Prop where
  description : n.description = Entries.get (firstFields ds n.name) "description"
  value : n.value = Entries.get (firstFields ds n.name) "value"
  attributes : n.attributes = extraFields (firstFields ds n.name)
  outgoing : ∃ links, listedLinks (declarationsOf ds n.name) = .ok links ∧
    links.mapM (declaredLink n.name) = .ok n.outgoing

/-- A node with the colour that the first declaration of its name gives. -/
def Node.asDeclared (ds : List Datum) (n : Node) : Node :=
  { n with color := Entries.get (firstFields ds n.name) "color" }

/-- A graph with the colours that first declarations give. -/
def Graph.asDeclared (ds : List Datum) (g : Graph) : Graph :=
  { g with nodes := g.nodes.map (Node.asDeclared ds) }

/-- A link precedes another one if the first declaration of its source does, or if they have the same
source and it is listed before. -/
def LinkId.Precedes (ds : List Datum) (a b : LinkId) : Prop :=
  firstPlace ds a.source < firstPlace ds b.source ∨ a.source = b.source ∧ a.position < b.position

/-- A graph has what declarations say and nothing else: one node for every declared name and for every
target; in every node what its declarations say, and nothing in one that is not declared; the colours
that come of the declared ones; and every link once in the list of all, in the list of one node that
it leaves, and in the list of one node that it enters, where the links stand in the order of the
declarations. -/
structure Graph.IsAssembledFrom (g : Graph) (ds : List Datum) : Prop where
  nodup_names : (g.nodes.map Node.name).Nodup
  mem_names_iff : ∀ name, name ∈ g.nodes.map Node.name ↔
    declarationsOf ds name ≠ [] ∨ ∃ source, Refers ds source name
  node?_eq_some_iff : ∀ name n, g.node? name = some n ↔ n ∈ g.nodes ∧ n.name = name
  standsFor : ∀ n ∈ g.nodes, n.StandsFor ds
  undeclared : ∀ n ∈ g.nodes, declarationsOf ds n.name = [] →
    n.description = .null ∧ n.value = .null ∧ (n.asDeclared ds).color = .null ∧
      n.attributes = [] ∧ n.outgoing = []
  colored : (g.asDeclared ds).colorNodes category10 = (g, none)
  mem_links_iff : ∀ id link, (id, link) ∈ g.links ↔
    ∃ n ∈ g.nodes, id.source = n.name ∧ n.outgoing[id.position]? = some link
  nodup_links : (g.links.map Prod.fst).Nodup
  mem_incoming_iff : ∀ n ∈ g.nodes, ∀ id,
    id ∈ n.incoming ↔ ∃ link, (id, link) ∈ g.links ∧ link.target = n.name
  nodup_incoming : ∀ n ∈ g.nodes, n.incoming.Nodup
  sorted_incoming : ∀ n ∈ g.nodes, n.incoming.Pairwise (LinkId.Precedes ds)
  leaves_one : ∀ id link, (id, link) ∈ g.links → ∃! n, n ∈ g.nodes ∧ id ∈ n.linkIds
  enters_one : ∀ id link, (id, link) ∈ g.links → ∃! n, n ∈ g.nodes ∧ id ∈ n.incoming
  parent?_eq_some_iff : ∀ n ∈ g.nodes, ∀ source, n.parent? = some source ↔
    ∃ id ∈ n.incoming, id.source = source ∧ ∀ other ∈ n.incoming, other = id ∨ id.Precedes ds other

/-! ## Links that declarations list -/

/-- The declarations of a name refer to the targets of the links that they list. -/
lemma refers_iff_of_listedLinks {ds : List Datum} {source target : Text} {links : List Datum}
    (hlinks : listedLinks (declarationsOf ds source) = .ok links) :
    Refers ds source target ↔ ∃ link ∈ links, ∃ fields, link.fields? = some fields ∧
      (Entries.get fields "to").nameText? = some target := by
  obtain ⟨lists, hlists, rfl⟩ := Outcome.map_eq_ok_iff.mp hlinks
  unfold Refers
  constructor
  · rintro ⟨d, hd, hname, own, hown, link, hlink, htarget⟩
    obtain ⟨own', hmem, hown'⟩ :=
      Outcome.exists_mem_of_mapM_eq_ok hlists (mem_declarationsOf_iff.mpr ⟨hd, hname⟩)
    obtain rfl : own = own' := Except.ok.inj (hown.symm.trans hown')
    exact ⟨link, List.mem_flatten.mpr ⟨own, hmem, hlink⟩, htarget⟩
  · rintro ⟨link, hlink, htarget⟩
    obtain ⟨own, hmem, hlink⟩ := List.mem_flatten.mp hlink
    obtain ⟨d, hd, hown⟩ := Outcome.exists_of_mem_of_mapM_eq_ok hlists hmem
    obtain ⟨hd, hname⟩ := mem_declarationsOf_iff.mp hd
    exact ⟨d, hd, hname, own, hown, link, hlink, htarget⟩

/-- The target of a declared link is the text of what the link declares for it. -/
lemma nameText?_of_declaredLink {node : Text} {link : Datum} {l : Link}
    (h : declaredLink node link = .ok l) :
    ∃ fields, link.fields? = some fields ∧ (Entries.get fields "to").nameText? = some l.target := by
  obtain ⟨o, ho, hrealizes⟩ := declaredLink_eq_ok h
  unfold linkOutline? at ho
  obtain ⟨fields, hfields, rfl⟩ := Option.map_eq_some_iff.mp ho
  exact ⟨fields, hfields, hrealizes.target⟩

/-- The declarations of a node refer to the targets of its links. -/
lemma Node.StandsFor.refers_iff {n : Node} {ds : List Datum} (h : n.StandsFor ds) {target : Text} :
    Refers ds n.name target ↔ ∃ l ∈ n.outgoing, l.target = target := by
  obtain ⟨links, hlinks, houtgoing⟩ := h.outgoing
  rw [refers_iff_of_listedLinks hlinks]
  constructor
  · rintro ⟨link, hlink, fields, hfields, htarget⟩
    obtain ⟨l, hl, hlinkl⟩ := Outcome.exists_mem_of_mapM_eq_ok houtgoing hlink
    obtain ⟨fields', hfields', htarget'⟩ := nameText?_of_declaredLink hlinkl
    obtain rfl : fields = fields' := Option.some.inj (hfields.symm.trans hfields')
    exact ⟨l, hl, Option.some.inj (htarget'.symm.trans htarget)⟩
  · rintro ⟨l, hl, rfl⟩
    obtain ⟨link, hlink, hlinkl⟩ := Outcome.exists_of_mem_of_mapM_eq_ok houtgoing hl
    exact ⟨link, hlink, nameText?_of_declaredLink hlinkl⟩

/-! ## Nodes of a collection -/

/-- A name that is not declared has no first declaration. -/
lemma firstFields_eq_nil {ds : List Datum} {name : Text} (h : declarationsOf ds name = []) :
    firstFields ds name = [] := by
  unfold firstFields
  rw [h]
  rfl

/-- A node that stands for no declaration has nothing. -/
lemma Node.StandsFor.of_undeclared {n : Node} {ds : List Datum} (h : n.StandsFor ds)
    (hnone : declarationsOf ds n.name = []) :
    n.description = .null ∧ n.value = .null ∧ (n.asDeclared ds).color = .null ∧
      n.attributes = [] ∧ n.outgoing = [] := by
  obtain ⟨hdescription, hvalue, hattributes, links, hlinks, houtgoing⟩ := h
  have hfields := firstFields_eq_nil hnone
  rw [hfields] at hdescription hvalue hattributes
  rw [hnone] at hlinks
  cases hlinks
  refine ⟨hdescription, hvalue, ?_, hattributes, (Except.ok.inj houtgoing).symm⟩
  unfold Node.asDeclared
  rw [hfields]
  rfl

/-- A node that is only known as a target has what declarations say of it if there are none. -/
lemma standsFor_bareNode {ds : List Datum} {name : Text} (h : declarationsOf ds name = []) :
    (bareNode name).StandsFor ds ∧ (bareNode name).asDeclared ds = bareNode name := by
  have hfields := firstFields_eq_nil h
  have hnone : listedLinks (declarationsOf ds name) = .ok [] := by
    rw [h]
    rfl
  unfold Node.asDeclared
  refine ⟨⟨?_, ?_, ?_, [], hnone, rfl⟩, ?_⟩
  all_goals
    dsimp only [bareNode]
    rw [hfields]
    rfl

namespace Collection

variable {c : Collection} {ds : List Datum} {declared : List Node} {n : Node}

/-- The nodes of a collection that gathers declarations have what the declarations say. -/
lemma Gathers.standsFor_of_mem_declaredNodes (hc : c.Gathers ds)
    (hdeclared : c.declaredNodes = .ok declared) (hn : n ∈ declared) :
    n.StandsFor ds ∧ n.asDeclared ds = n := by
  rw [declaredNodes_eq_ok_iff, ← Outcome.mapM_eq_ok_iff] at hdeclared
  obtain ⟨d, hd, hnode⟩ := Outcome.exists_of_mem_of_mapM_eq_ok hdeclared hn
  obtain ⟨-, links, outgoing, hlinks, houtgoing, rfl⟩ := declaredNode_eq_ok_iff.mp hnode
  obtain ⟨first, rest, hfirst, hmerges⟩ := hc.merges d hd
  have hfields : firstFields ds d.name = first.fields?.getD [] := by
    unfold firstFields
    rw [hfirst]
    rfl
  have hfield : ∀ key : Text, key ≠ "links" →
      Entries.get d.fields key = Entries.get (firstFields ds d.name) key := by
    intro key hkey
    rw [hfields]
    exact hmerges.field key hkey
  have hlisted : listedLinks (declarationsOf ds d.name) = .ok links := by
    rw [hfirst, ← hmerges.links]
    exact hlinks
  refine ⟨⟨hfield _ (by decide), hfield _ (by decide), ?_, links, hlisted, houtgoing⟩, ?_⟩
  · dsimp only
    rw [hfields]
    exact hmerges.extra
  · unfold Node.asDeclared
    dsimp only
    rw [← hfield _ (by decide)]

/-- The declared nodes stand in the order of the first places of their names. -/
lemma Gathers.pairwise_declaredNodes (hc : c.Gathers ds)
    (hdeclared : c.declaredNodes = .ok declared) :
    declared.Pairwise fun n m => firstPlace ds n.name < firstPlace ds m.name := by
  have hnames := map_name_declaredNodes hdeclared
  have hordered : (c.declarations.map Declared.name).Pairwise fun a b =>
      firstPlace ds a < firstPlace ds b := List.pairwise_map.mpr hc.ordered
  rwa [← hnames, List.pairwise_map] at hordered

/-- The declared nodes are those of the declared names. -/
lemma Gathers.mem_names_declaredNodes_iff (hc : c.Gathers ds)
    (hdeclared : c.declaredNodes = .ok declared) {name : Text} :
    name ∈ declared.map Node.name ↔ declarationsOf ds name ≠ [] := by
  rw [map_name_declaredNodes hdeclared]
  exact hc.mem_iff name

/-- The targets of links are those that declarations refer to. -/
lemma Gathers.mem_targets_iff (hc : c.Gathers ds) (hdeclared : c.declaredNodes = .ok declared)
    {name : Text} : name ∈ declared.flatMap (fun n => n.outgoing.map Link.target) ↔
      ∃ source, Refers ds source name := by
  rw [List.mem_flatMap]
  constructor
  · rintro ⟨n, hn, htarget⟩
    have hstands := (hc.standsFor_of_mem_declaredNodes hdeclared hn).1
    exact ⟨n.name, hstands.refers_iff.mpr (List.mem_map.mp htarget)⟩
  · rintro ⟨source, hrefers⟩
    have hsource : declarationsOf ds source ≠ [] := by
      obtain ⟨d, hd, hname, -⟩ := hrefers
      exact List.ne_nil_of_mem (mem_declarationsOf_iff.mpr ⟨hd, hname⟩)
    rw [← hc.mem_names_declaredNodes_iff hdeclared] at hsource
    obtain ⟨n, hn, rfl⟩ := List.mem_map.mp hsource
    have hstands := (hc.standsFor_of_mem_declaredNodes hdeclared hn).1
    exact ⟨n, hn, List.mem_map.mpr (hstands.refers_iff.mp hrefers)⟩

/-- The targets that are not declared are those that declarations refer to. -/
lemma Gathers.mem_undeclaredTargets_iff (hc : c.Gathers ds)
    (hdeclared : c.declaredNodes = .ok declared) {name : Text} :
    name ∈ undeclaredTargets declared ↔
      (∃ source, Refers ds source name) ∧ declarationsOf ds name = [] := by
  unfold undeclaredTargets
  rw [List.mem_eraseDups, List.mem_filter, hc.mem_targets_iff hdeclared, Bool.not_eq_true',
    List.contains_eq_mem, decide_eq_false_iff_not, hc.mem_names_declaredNodes_iff hdeclared, not_not]

/-- The linked nodes are those of the declared names and of the targets. -/
lemma Gathers.mem_names_linkedNodes_iff (hc : c.Gathers ds)
    (hdeclared : c.declaredNodes = .ok declared) {name : Text} :
    name ∈ (linkedNodes declared).map Node.name ↔
      declarationsOf ds name ≠ [] ∨ ∃ source, Refers ds source name := by
  rw [names_linkedNodes, List.mem_append, hc.mem_names_declaredNodes_iff hdeclared,
    hc.mem_undeclaredTargets_iff hdeclared]
  by_cases h : declarationsOf ds name = []
  · simp [h]
  · simp [h]

/-- The linked nodes have what the declarations say. -/
lemma Gathers.standsFor_of_mem_linkedNodes (hc : c.Gathers ds)
    (hdeclared : c.declaredNodes = .ok declared) (hn : n ∈ linkedNodes declared) :
    n.StandsFor ds ∧ n.asDeclared ds = n := by
  unfold linkedNodes at hn
  rw [attachIncoming_eq] at hn
  obtain ⟨m, hm, rfl⟩ := List.mem_map.mp hn
  obtain ⟨hstands, hcolor⟩ : m.StandsFor ds ∧ m.asDeclared ds = m := by
    rcases List.mem_append.mp hm with hm | hm
    · exact hc.standsFor_of_mem_declaredNodes hdeclared hm
    · obtain ⟨name, hname, rfl⟩ := List.mem_map.mp hm
      exact standsFor_bareNode ((hc.mem_undeclaredTargets_iff hdeclared).mp hname).2
  -- attaching links changes neither the colour nor anything that stands for declarations
  have hattach : ∀ incoming : List LinkId,
      Node.asDeclared ds { m with incoming } = { m.asDeclared ds with incoming } := fun _ => rfl
  refine ⟨⟨hstands.description, hstands.value, hstands.attributes, hstands.outgoing⟩, ?_⟩
  rw [hattach, hcolor]

end Collection

/-! ## The order of links -/

section Precedes

variable {ds : List Datum} {declared : List Node} {n : Node}

/-- Of two links only one precedes the other. -/
lemma LinkId.Precedes.asymm {a b : LinkId} (h : a.Precedes ds b) : ¬ b.Precedes ds a := by
  rintro (hlt | ⟨hsource, hlt⟩)
  · rcases h with hlt' | ⟨hsource', -⟩
    · omega
    · rw [hsource'] at hlt
      omega
  · rcases h with hlt' | ⟨-, hlt'⟩
    · rw [hsource] at hlt'
      omega
    · omega

/-- The links of a node precede each other in their order. -/
lemma Node.pairwise_linkIds (ds : List Datum) (n : Node) : n.linkIds.Pairwise (LinkId.Precedes ds) :=
  List.pairwise_map.mpr (List.pairwise_lt_range.imp fun hlt => Or.inr ⟨rfl, hlt⟩)

/-- The links of nodes in the order of their first places precede each other in their order. -/
lemma pairwise_flatMap_linkIds
    (h : declared.Pairwise fun n m => firstPlace ds n.name < firstPlace ds m.name) :
    (declared.flatMap Node.linkIds).Pairwise (LinkId.Precedes ds) := by
  refine List.pairwise_flatMap.mpr ⟨fun n _ => n.pairwise_linkIds ds, h.imp ?_⟩
  intro n m hlt a ha b hb
  rw [← (Node.mem_linkIds_iff.mp ha).1, ← (Node.mem_linkIds_iff.mp hb).1] at hlt
  exact Or.inl hlt

/-- The links of linked nodes are those of the declared ones. -/
lemma flatMap_linkIds_linkedNodes (declared : List Node) :
    (linkedNodes declared).flatMap Node.linkIds = declared.flatMap Node.linkIds := by
  have hbare : ((undeclaredTargets declared).map bareNode).flatMap Node.linkIds = [] := by
    rw [List.flatMap_eq_nil_iff]
    intro n hn
    obtain ⟨name, -, rfl⟩ := List.mem_map.mp hn
    rfl
  unfold linkedNodes
  rw [attachIncoming_eq, List.flatMap_map]
  change (declared ++ (undeclaredTargets declared).map bareNode).flatMap Node.linkIds = _
  rw [List.flatMap_append, hbare, List.append_nil]

/-- A linked node knows the links that enter it in the order of the first places of their sources. -/
lemma pairwise_incoming_of_mem_linkedNodes
    (h : declared.Pairwise fun n m => firstPlace ds n.name < firstPlace ds m.name)
    (hn : n ∈ linkedNodes declared) : n.incoming.Pairwise (LinkId.Precedes ds) := by
  have hall := pairwise_flatMap_linkIds h
  rw [← flatMap_linkIds_linkedNodes,
    ← Graph.map_fst_links ⟨linkedNodes declared, "", none⟩] at hall
  rw [incoming_of_mem_linkedNodes hn, incomingOf_eq_map_filter ⟨linkedNodes declared, "", none⟩]
  exact hall.sublist (List.filter_sublist.map Prod.fst)

/-- Where the links that enter a node precede each other in their order, its parent is the source of
the one that precedes all others. -/
lemma Node.parent?_eq_some_iff_of_pairwise (h : n.incoming.Pairwise (LinkId.Precedes ds))
    {source : Text} : n.parent? = some source ↔ ∃ id ∈ n.incoming, id.source = source ∧
      ∀ other ∈ n.incoming, other = id ∨ id.Precedes ds other := by
  unfold Node.parent?
  cases hincoming : n.incoming with
  | nil => simp
  | cons first rest =>
    rw [hincoming, List.pairwise_cons] at h
    rw [List.head?_cons, Option.map_some, Option.some_inj]
    constructor
    · rintro rfl
      refine ⟨first, List.mem_cons_self, rfl, fun other hother => ?_⟩
      rcases List.mem_cons.mp hother with rfl | hother
      · exact Or.inl rfl
      · exact Or.inr (h.1 other hother)
    · rintro ⟨id, hid, rfl, hleast⟩
      rcases List.mem_cons.mp hid with rfl | hid
      · rfl
      · rcases hleast first List.mem_cons_self with rfl | hprecedes
        · rfl
        · exact absurd hprecedes (h.1 id hid).asymm

end Precedes

/-! ## Assembled graphs -/

/-- Colouring a node leaves a graph with the colours of first declarations. -/
lemma Graph.asDeclared_editNode_color (ds : List Datum) (g : Graph) (name : Text) (color : Datum) :
    (g.editNode name fun n => { n with color }).asDeclared ds = g.asDeclared ds := by
  unfold asDeclared editNode
  rw [List.map_map]
  refine congrArg (Graph.mk · g.suffix g.resolver) (List.map_congr_left fun n _ => ?_)
  dsimp only [Function.comp_apply]
  split <;> rfl

/-- A coloured graph has, under its colours, the graph that was coloured. -/
lemma Graph.asDeclared_of_colorNodes {ds : List Datum} {plain g : Graph} {palette : List Text}
    (hplain : ∀ n ∈ plain.nodes, n.asDeclared ds = n)
    (h : plain.colorNodes palette = (g, none)) : g.asDeclared ds = plain := by
  have hsame : plain.asDeclared ds = plain :=
    congrArg (Graph.mk · plain.suffix plain.resolver)
      ((List.map_congr_left hplain).trans (List.map_id plain.nodes))
  have hkept := Graph.colorNodes_keeps (P := fun g' => g'.asDeclared ds = plain) ?_ palette hsame
  · rw [h] at hkept
    exact hkept
  · intro g' name color hg'
    rw [Graph.asDeclared_editNode_color, hg']

/-- The coloured graph of a collection that gathers declarations is assembled from them. -/
lemma Collection.Gathers.isAssembledFrom {c : Collection} {ds : List Datum} (hc : c.Gathers ds)
    {zeroIsUnset : Bool} {g : Graph} (h : c.colored zeroIsUnset = .ok g) : g.IsAssembledFrom ds := by
  have hnodup : (c.declarations.map Declared.name).Nodup :=
    List.pairwise_map.mpr (hc.ordered.imp fun hlt heq => by rw [heq] at hlt; omega)
  have hlinked := (isLinked_of_colored hnodup h).1
  obtain ⟨plain, hplain, hcolored⟩ := colored_eq_ok_iff.mp h
  obtain ⟨declared, order, hdeclared, horder, rfl⟩ := toGraph_eq_ok_iff.mp hplain
  have hordered := hc.pairwise_declaredNodes hdeclared
  have hgraph := Graph.asDeclared_of_colorNodes (fun n hn =>
    (hc.standsFor_of_mem_linkedNodes hdeclared (mem_of_mem_orderedGraph hn).1).2) hcolored
  have hperm : (linkedNodes declared).Perm (g.asDeclared ds).nodes := by
    rw [hgraph]
    refine perm_orderedGraph (nodup_map_name_linkedNodes ?_) (nodup_walkOrder horder)
      (walked_of_walkOrder horder).starts_subset c.suffix _
    rw [map_name_declaredNodes hdeclared]
    exact hnodup
  -- a node of the graph is a linked one but for its colour
  have hnode : ∀ n ∈ g.nodes, n.asDeclared ds ∈ linkedNodes declared := fun n hn =>
    hperm.mem_iff.mpr (List.mem_map_of_mem hn)
  have hstands : ∀ n ∈ g.nodes, n.StandsFor ds := by
    intro n hn
    obtain ⟨hd, hv, ha, ho⟩ := (hc.standsFor_of_mem_linkedNodes hdeclared (hnode n hn)).1
    exact ⟨hd, hv, ha, ho⟩
  have hsorted : ∀ n ∈ g.nodes, n.incoming.Pairwise (LinkId.Precedes ds) := by
    intro n hn
    have hpairwise := pairwise_incoming_of_mem_linkedNodes hordered (hnode n hn)
    exact hpairwise
  have hnames : g.nodes.map Node.name = (g.asDeclared ds).nodes.map Node.name := by
    unfold Graph.asDeclared
    rw [List.map_map]
    rfl
  exact
    { nodup_names := hlinked.nodup_names
      mem_names_iff := fun _ => by
        rw [hnames, ← (hperm.map Node.name).mem_iff, hc.mem_names_linkedNodes_iff hdeclared]
      node?_eq_some_iff := fun _ _ => Graph.node?_eq_some_iff hlinked.nodup_names
      standsFor := hstands
      undeclared := fun n hn hnone => (hstands n hn).of_undeclared hnone
      colored := by rw [hgraph]; exact hcolored
      mem_links_iff := fun _ _ => Graph.mem_links_iff
      nodup_links := Graph.nodup_map_fst_links hlinked.nodup_names
      mem_incoming_iff := hlinked.mem_incoming_iff
      nodup_incoming := hlinked.nodup_incoming
      sorted_incoming := hsorted
      leaves_one := fun _ _ => hlinked.existsUnique_linkIds
      enters_one := fun _ _ => hlinked.existsUnique_incoming
      parent?_eq_some_iff := fun n hn _ => Node.parent?_eq_some_iff_of_pairwise (hsorted n hn) }

/-- A sheet that can be built and whose declarations have no alternatives has one graph, which is
assembled from the declarations. All declarations are values by themselves, and none that contains
itself is the first of several of its name. -/
theorem isAssembledFrom_of_buildGraphs {s : Settings} {ds : List Datum} {gs : List Graph}
    (hgs : buildGraphs s ds = .ok gs) (hsingle : ∀ d ∈ ds, Builder.alternativesOf d = none)
    (hclosed : ∀ d ∈ ds, d.isClosed) (hplain : MergesPlainly ds) :
    ∃ g, gs = [g] ∧ g.IsAssembledFrom ds := by
  rw [← Builder.variant_eq_self hsingle 0, buildGraphs_variant_eq_ok_iff,
    Builder.variant_eq_self hsingle] at hgs
  obtain ⟨g, hg, rfl⟩ := hgs
  obtain ⟨c, hc, hcolored⟩ := Outcome.bind_eq_ok_iff.mp hg
  exact ⟨g, rfl, (Collection.gathers_foldlM hclosed hplain hc).isAssembledFrom hcolored⟩

/-- A sheet that declares a name twice, that has parallel links, and that refers to a name before it is
declared and to one that is not. -/
def scatteredSheet : List Datum :=
  [.map [(.text "name", .text "B"), (.text "links", .list
      [.map [(.text "to", .text "C"), (.text "value", .int 2)], .map [(.text "to", .text "C")]])],
   .map [(.text "name", .text "A"), (.text "links", .list [.map [(.text "to", .text "B")]])],
   .map [(.text "name", .text "B"), (.text "color", .text "red"), (.text "links", .list
      [.map [(.text "to", .text "D")]])],
   .map [(.text "name", .text "C"), (.text "links", .list [.map [(.text "to", .text "D")]])]]

/-- The scattered sheet has one graph, which is assembled from it. -/
theorem isAssembledFrom_scatteredSheet :
    ∃ g, buildGraphs {} scatteredSheet = .ok [g] ∧ g.IsAssembledFrom scatteredSheet := by
  have hbuilt : (buildGraphs {} scatteredSheet).isOk := by decide +kernel
  have hsingle : ∀ d ∈ scatteredSheet, Builder.alternativesOf d = none := by decide +kernel
  have hclosed : ∀ d ∈ scatteredSheet, d.isClosed := by decide +kernel
  have hplain : MergesPlainly scatteredSheet :=
    mergesPlainly_of_forall_ne_knot (by simp [scatteredSheet])
  cases h : buildGraphs {} scatteredSheet with
  | error failure =>
    rw [h] at hbuilt
    cases hbuilt
  | ok gs =>
    obtain ⟨g, rfl, hg⟩ := isAssembledFrom_of_buildGraphs h hsingle hclosed hplain
    exact ⟨g, rfl, hg⟩

/-- A declaration that is the target of its own link, and a further declaration of its name. -/
def selfTargetedSheet : List Datum :=
  [.knot
    [.map [(.text "name", .text "A"), (.text "links", .list [.map [(.text "to", .strand 0)]])]] 0,
   .map [(.text "name", .text "A"), (.text "links", .list [.map [(.text "to", .text "B")]])]]

/-- The text of the target of the first declaration before links are merged into it. -/
def selfTarget : Text :=
  ("\x7b'name': 'A', 'links': [\x7b'to': \x7b...\x7d\x7d]\x7d" : String)

/-- Where a declaration that contains itself is declared again, the links that are merged into it show
in the texts of its targets: no node has the text that the target had when it was declared. -/
theorem not_isAssembledFrom_selfTargetedSheet :
    (∀ d ∈ selfTargetedSheet, Builder.alternativesOf d = none) ∧
      (∀ d ∈ selfTargetedSheet, d.isClosed) ∧
      ∃ g, buildGraphs {} selfTargetedSheet = .ok [g] ∧ Refers selfTargetedSheet "A" selfTarget ∧
        g.node? selfTarget = none ∧ ¬ g.IsAssembledFrom selfTargetedSheet := by
  have hlost : (buildGraphs {} selfTargetedSheet).toOption.map
      (·.map fun g => (g.nodes.map Node.name).contains selfTarget) = some [false] := by
    decide +kernel
  have hrefers : Refers selfTargetedSheet "A" selfTarget := by
    refine ⟨_, List.mem_cons_self, by decide +kernel, _, rfl, _, List.mem_cons_self, _, rfl, ?_⟩
    decide +kernel
  refine ⟨by decide +kernel, by decide +kernel, ?_⟩
  obtain ⟨gs, hgs, hnames⟩ := Option.map_eq_some_iff.mp hlost
  rw [Outcome.toOption_eq_some_iff] at hgs
  obtain ⟨g, rfl, hname⟩ := List.map_eq_singleton_iff.mp hnames
  have hnot : selfTarget ∉ g.nodes.map Node.name := by
    rw [List.contains_eq_mem, decide_eq_false_iff_not] at hname
    exact hname
  refine ⟨g, hgs, hrefers, ?_, fun hg => hnot ((hg.mem_names_iff _).mpr (Or.inr ⟨_, hrefers⟩))⟩
  refine List.find?_eq_none.mpr fun n hn => ?_
  rintro heq
  exact hnot (List.mem_map.mpr ⟨n, hn, by simpa using heq⟩)

end StockFlow
