import Mathlib.Data.List.Nodup
import StockFlow.Graph.Basic
/-!
# Linked graphs

In a linked graph the nodes have different names, every link enters a node, and every node knows
exactly the links that enter it, each of them once (`Graph.IsLinked`). So the links can be listed by
the nodes that they leave or by those that they enter, and either list holds every link once
(`Graph.IsLinked.incoming_perm`). Neither the order of the nodes nor anything else about them plays a
part.
-/

namespace StockFlow

/-! ## The links that leave a node -/

namespace Node

variable {n : Node}

/-- The identities of the links that leave a node name it and a place among them. -/
lemma mem_linkIds_iff {id : LinkId} :
    id ∈ n.linkIds ↔ id.source = n.name ∧ id.position < n.outgoing.length := by
  unfold linkIds
  rw [List.mem_map]
  constructor
  · rintro ⟨position, hposition, rfl⟩
    exact ⟨rfl, List.mem_range.mp hposition⟩
  · rintro ⟨hsource, hposition⟩
    exact ⟨id.position, List.mem_range.mpr hposition, by rw [← hsource]⟩

lemma nodup_linkIds (n : Node) : n.linkIds.Nodup :=
  List.nodup_range.map fun _ _ h => congrArg LinkId.position h

/-- A link that leaves a node is at its place there. -/
lemma mem_zip_linkIds_iff {id : LinkId} {link : Link} :
    (id, link) ∈ n.linkIds.zip n.outgoing ↔
      id.source = n.name ∧ n.outgoing[id.position]? = some link := by
  have hplace : ∀ position, n.linkIds[position]? =
      if position < n.outgoing.length then some ⟨n.name, position⟩ else none := by
    intro position
    unfold linkIds
    rw [List.getElem?_map]
    by_cases hlt : position < n.outgoing.length
    · rw [List.getElem?_range hlt, if_pos hlt]
      rfl
    · rw [List.getElem?_eq_none (by simpa using hlt), if_neg hlt]
      rfl
  rw [List.mem_iff_getElem?]
  constructor
  · rintro ⟨position, hposition⟩
    obtain ⟨hid, hlink⟩ := List.getElem?_zip_eq_some.mp hposition
    rw [hplace] at hid
    split at hid
    · cases hid
      exact ⟨rfl, hlink⟩
    · cases hid
  · rintro ⟨hsource, hlink⟩
    obtain ⟨hlt, -⟩ := List.getElem?_eq_some_iff.mp hlink
    refine ⟨id.position, List.getElem?_zip_eq_some.mpr ⟨?_, hlink⟩⟩
    rw [hplace, if_pos hlt, ← hsource]

end Node

namespace Graph

variable {g g' : Graph} {id : LinkId} {link : Link} {n : Node} {name : Text}

/-! ## The links of a graph -/

/-- The links of a graph are those that leave its nodes. -/
lemma mem_links_iff : (id, link) ∈ g.links ↔
    ∃ n ∈ g.nodes, id.source = n.name ∧ n.outgoing[id.position]? = some link := by
  unfold links
  rw [List.mem_flatMap]
  exact exists_congr fun n => and_congr_right fun _ => Node.mem_zip_linkIds_iff

/-- The identities of the links of a graph are listed node by node. -/
lemma map_fst_links (g : Graph) : g.links.map Prod.fst = g.nodes.flatMap Node.linkIds := by
  unfold links
  rw [List.map_flatMap]
  refine List.flatMap_congr fun n _ => List.map_fst_zip ?_
  simp [Node.linkIds]

/-- The links that leave a node of a graph are links of the graph. -/
lemma mem_map_fst_links (hn : n ∈ g.nodes) (hid : id ∈ n.linkIds) : id ∈ g.links.map Prod.fst := by
  rw [map_fst_links]
  exact List.mem_flatMap.mpr ⟨n, hn, hid⟩

section Names

variable (hnames : (g.nodes.map Node.name).Nodup)

include hnames

/-- Where nodes have different names, every node is found under its name. -/
lemma node?_eq_some_iff : g.node? name = some n ↔ n ∈ g.nodes ∧ n.name = name := by
  constructor
  · intro h
    exact ⟨List.mem_of_find?_eq_some h, by simpa using List.find?_some h⟩
  · rintro ⟨hn, rfl⟩
    cases hfind : g.node? n.name with
    | none => exact absurd (beq_self_eq_true _) (List.find?_eq_none.mp hfind n hn)
    | some m =>
      have hname : m.name = n.name := by simpa using List.find?_some hfind
      rw [List.inj_on_of_nodup_map hnames (List.mem_of_find?_eq_some hfind) hn hname]

/-- Where nodes have different names, every link is found under its identity. -/
lemma link?_eq_some_iff : g.link? id = some link ↔ (id, link) ∈ g.links := by
  unfold link?
  rw [Option.bind_eq_some_iff, mem_links_iff]
  refine exists_congr fun n => ?_
  rw [node?_eq_some_iff hnames, and_assoc, eq_comm (a := n.name)]

/-- Where nodes have different names, no two links have the same identity. -/
lemma nodup_map_fst_links : (g.links.map Prod.fst).Nodup := by
  rw [map_fst_links, List.nodup_flatMap]
  refine ⟨fun n _ => n.nodup_linkIds, ?_⟩
  refine (List.pairwise_map.mp hnames).imp fun hne id hid hid' => hne ?_
  rw [← (Node.mem_linkIds_iff.mp hid).1, (Node.mem_linkIds_iff.mp hid').1]

end Names

/-! ## Linked graphs -/

/-- A graph whose nodes have different names, and in which every link enters a node that knows it,
once, and knows no other links. -/
structure IsLinked (g : Graph) : Prop where
  nodup_names : (g.nodes.map Node.name).Nodup
  target_mem : ∀ n ∈ g.nodes, ∀ l ∈ n.outgoing, l.target ∈ g.nodes.map Node.name
  mem_incoming_iff : ∀ n ∈ g.nodes, ∀ id,
    id ∈ n.incoming ↔ ∃ link, (id, link) ∈ g.links ∧ link.target = n.name
  nodup_incoming : ∀ n ∈ g.nodes, n.incoming.Nodup

namespace IsLinked

/-- A graph stays linked when its nodes change in nothing but their names for show and their
declared data. -/
lemma map (h : g.IsLinked) {f : Node → Node} (hname : ∀ n, (f n).name = n.name)
    (houtgoing : ∀ n, (f n).outgoing = n.outgoing) (hincoming : ∀ n, (f n).incoming = n.incoming)
    (hnodes : g'.nodes = g.nodes.map f) : g'.IsLinked := by
  have hnames : g'.nodes.map Node.name = g.nodes.map Node.name := by
    rw [hnodes, List.map_map]
    exact List.map_congr_left fun n _ => hname n
  have hlinks : g'.links = g.links := by
    unfold links Node.linkIds
    rw [hnodes, List.flatMap_map]
    simp only [hname, houtgoing]
  refine ⟨hnames ▸ h.nodup_names, ?_, ?_, ?_⟩
  · intro n hn l hl
    rw [hnodes] at hn
    obtain ⟨m, hm, rfl⟩ := List.mem_map.mp hn
    rw [houtgoing] at hl
    rw [hnames]
    exact h.target_mem m hm l hl
  · intro n hn id
    rw [hnodes] at hn
    obtain ⟨m, hm, rfl⟩ := List.mem_map.mp hn
    rw [hincoming, hname, hlinks]
    exact h.mem_incoming_iff m hm id
  · intro n hn
    rw [hnodes] at hn
    obtain ⟨m, hm, rfl⟩ := List.mem_map.mp hn
    rw [hincoming]
    exact h.nodup_incoming m hm

/-- A graph stays linked when its nodes change their order. -/
lemma perm (h : g.IsLinked) (hperm : g.nodes.Perm g'.nodes) : g'.IsLinked := by
  have hnames := hperm.map Node.name
  have hlinks : g.links.Perm g'.links := hperm.flatMap_right _
  refine ⟨hnames.nodup_iff.mp h.nodup_names, ?_, ?_, ?_⟩
  · intro n hn l hl
    rw [← hnames.mem_iff]
    exact h.target_mem n (hperm.mem_iff.mpr hn) l hl
  · intro n hn id
    rw [h.mem_incoming_iff n (hperm.mem_iff.mpr hn)]
    exact exists_congr fun link => and_congr_left fun _ => hlinks.mem_iff
  · exact fun n hn => h.nodup_incoming n (hperm.mem_iff.mpr hn)

/-- A link enters only one node. -/
lemma eq_of_mem_incoming (h : g.IsLinked) {m : Node} (hn : n ∈ g.nodes) (hm : m ∈ g.nodes)
    (hid : id ∈ n.incoming) (hid' : id ∈ m.incoming) : n = m := by
  obtain ⟨link, hlink, htarget⟩ := (h.mem_incoming_iff n hn id).mp hid
  obtain ⟨link', hlink', htarget'⟩ := (h.mem_incoming_iff m hm id).mp hid'
  -- one identity belongs to one link, which has one target
  rw [← link?_eq_some_iff h.nodup_names] at hlink hlink'
  obtain rfl : link = link' := Option.some.inj (hlink.symm.trans hlink')
  exact List.inj_on_of_nodup_map h.nodup_names hn hm (htarget.symm.trans htarget')

/-- Every link leaves one node. -/
lemma existsUnique_linkIds (h : g.IsLinked) (hlink : (id, link) ∈ g.links) :
    ∃! n, n ∈ g.nodes ∧ id ∈ n.linkIds := by
  obtain ⟨n, hn, hsource, hget⟩ := mem_links_iff.mp hlink
  obtain ⟨hlt, -⟩ := List.getElem?_eq_some_iff.mp hget
  refine ⟨n, ⟨hn, Node.mem_linkIds_iff.mpr ⟨hsource, hlt⟩⟩, ?_⟩
  rintro m ⟨hm, hid⟩
  have hname : m.name = n.name := (Node.mem_linkIds_iff.mp hid).1.symm.trans hsource
  exact List.inj_on_of_nodup_map h.nodup_names hm hn hname

/-- Every link enters one node. -/
lemma existsUnique_incoming (h : g.IsLinked) (hlink : (id, link) ∈ g.links) :
    ∃! n, n ∈ g.nodes ∧ id ∈ n.incoming := by
  obtain ⟨source, hsource, -, hget⟩ := mem_links_iff.mp hlink
  obtain ⟨n, hn, hname⟩ :=
    List.mem_map.mp (h.target_mem source hsource link (List.mem_of_getElem? hget))
  have hid : id ∈ n.incoming := (h.mem_incoming_iff n hn id).mpr ⟨link, hlink, hname.symm⟩
  exact ⟨n, ⟨hn, hid⟩, fun m ⟨hm, hid'⟩ => h.eq_of_mem_incoming hm hn hid' hid⟩

/-- The links that enter nodes are the links that leave nodes, each of them once. -/
lemma incoming_perm (h : g.IsLinked) :
    (g.nodes.flatMap Node.incoming).Perm (g.nodes.flatMap Node.linkIds) := by
  have hdisjoint : g.nodes.Pairwise (Function.onFun List.Disjoint Node.incoming) := by
    have hpairwise := List.pairwise_map.mp h.nodup_names
    refine hpairwise.imp_of_mem fun {n m} hn hm hne id hid hid' => hne ?_
    rw [h.eq_of_mem_incoming hn hm hid hid']
  have hnodup : (g.nodes.flatMap Node.incoming).Nodup :=
    List.nodup_flatMap.mpr ⟨h.nodup_incoming, hdisjoint⟩
  have hnodup' : (g.nodes.flatMap Node.linkIds).Nodup := by
    rw [← map_fst_links]
    exact nodup_map_fst_links h.nodup_names
  refine (List.perm_ext_iff_of_nodup hnodup hnodup').mpr fun id => ?_
  rw [← map_fst_links, List.mem_flatMap, List.mem_map]
  constructor
  · rintro ⟨n, hn, hid⟩
    obtain ⟨link, hlink, -⟩ := (h.mem_incoming_iff n hn id).mp hid
    exact ⟨(id, link), hlink, rfl⟩
  · rintro ⟨⟨id, link⟩, hlink, rfl⟩
    exact (h.existsUnique_incoming hlink).exists

end IsLinked

end Graph

end StockFlow
