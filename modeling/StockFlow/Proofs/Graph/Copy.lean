import StockFlow.Graph.Copy
import StockFlow.Proofs.Graph.Links
import StockFlow.Proofs.Outcome
/-!
# Copies are the same graph

A copy of a linked graph is the same graph (`Graph.IsLinked.clone_eq`). The invariant is that the copies
of the nodes have the links copied so far, each of them at the place that it has in the graph, so every
link is its own copy (`Copying.ofLinks`). It needs that the links of a node are copied in their order,
and that no two nodes have the same name.
-/

namespace StockFlow

variable {g : Graph} {n : Node}

/-! ## The links of a node among those of the graph -/

/-- The links with a given source. -/
def linksFrom (links : List (LinkId × Link)) (name : Text) : List (LinkId × Link) :=
  links.filter fun entry => entry.1.source == name

/-- The links that leave a node are the links with this source, in the same order. -/
lemma Graph.linksFrom_links (hnames : (g.nodes.map Node.name).Nodup) (hn : n ∈ g.nodes) :
    linksFrom g.links n.name = n.linkIds.zip n.outgoing := by
  have hpart : ∀ m : Node, linksFrom (m.linkIds.zip m.outgoing) n.name =
      if m.name = n.name then m.linkIds.zip m.outgoing else [] := by
    intro m
    unfold linksFrom
    split
    · next hname =>
      refine List.filter_eq_self.mpr fun entry hentry => ?_
      obtain ⟨hsource, -⟩ := Node.mem_zip_linkIds_iff.mp hentry
      rw [hsource, hname, beq_self_eq_true]
    · next hname =>
      refine List.filter_eq_nil_iff.mpr fun entry hentry => ?_
      obtain ⟨hsource, -⟩ := Node.mem_zip_linkIds_iff.mp hentry
      rw [hsource, beq_false_of_ne hname]
      exact Bool.false_ne_true
  have hparts : linksFrom g.links n.name =
      g.nodes.flatMap fun m => if m.name = n.name then m.linkIds.zip m.outgoing else [] := by
    unfold links linksFrom
    rw [List.filter_flatMap]
    exact List.flatMap_congr fun m _ => hpart m
  obtain ⟨before, after, hnodes⟩ := List.append_of_mem hn
  rw [hnodes, List.map_append, List.map_cons, List.nodup_middle, List.nodup_cons] at hnames
  have hother : ∀ m ∈ before ++ after,
      (if m.name = n.name then m.linkIds.zip m.outgoing else []) = [] := by
    intro m hm
    refine if_neg fun hname => hnames.1 ?_
    rw [← List.map_append, ← hname]
    exact List.mem_map_of_mem hm
  rw [List.forall_mem_append] at hother
  rw [hparts, hnodes, List.flatMap_append, List.flatMap_cons, if_pos rfl,
    List.flatMap_eq_nil_iff.mpr hother.1, List.flatMap_eq_nil_iff.mpr hother.2, List.nil_append,
    List.append_nil]

/-- A link has as many links of its source before it as its place says. -/
lemma Graph.length_linksFrom (hnames : (g.nodes.map Node.name).Nodup)
    {done rest : List (LinkId × Link)} {entry : LinkId × Link}
    (hlinks : g.links = done ++ entry :: rest) (hn : n ∈ g.nodes) (hsource : entry.1.source = n.name) :
    (linksFrom done n.name).length = entry.1.position := by
  have hsplit : n.linkIds.zip n.outgoing =
      linksFrom done n.name ++ entry :: linksFrom rest n.name := by
    rw [← linksFrom_links hnames hn, hlinks]
    unfold linksFrom
    rw [List.filter_append, List.filter_cons, hsource, beq_self_eq_true, if_pos rfl]
  have hplace : (n.linkIds.zip n.outgoing)[(linksFrom done n.name).length]? = some entry := by
    rw [hsplit, List.getElem?_append_right (Nat.le_refl _), Nat.sub_self]
    rfl
  obtain ⟨hid, -⟩ := List.getElem?_zip_eq_some.mp hplace
  unfold Node.linkIds at hid
  obtain ⟨position, hposition, hentry⟩ := Option.map_eq_some_iff.mp
    ((List.getElem?_map ..).symm.trans hid)
  obtain ⟨hlt, hrange⟩ := List.getElem?_eq_some_iff.mp hposition
  rw [List.getElem_range] at hrange
  rw [← hentry, ← hrange]

/-! ## Copying links one after the other -/

namespace Copying

/-- What a copy of a graph has become when some links are copied, each of them to its own place. -/
def ofLinks (g : Graph) (links : List (LinkId × Link)) : Copying where
  nodes := g.nodes.map fun n => { n.unlinked with outgoing := (linksFrom links n.name).map Prod.snd }
  links := links.map fun entry => (entry.1, entry.1)

/-- The copy of a node has the links that are copied so far. -/
lemma node?_ofLinks (hnames : (g.nodes.map Node.name).Nodup) (hn : n ∈ g.nodes)
    (links : List (LinkId × Link)) : (ofLinks g links).node? n.name =
      some { n.unlinked with outgoing := (linksFrom links n.name).map Prod.snd } := by
  have hfound := (Graph.node?_eq_some_iff hnames).mpr ⟨hn, rfl⟩
  unfold Graph.node? at hfound
  unfold node? ofLinks
  rw [List.find?_map]
  exact congrArg (Option.map _) hfound

/-- Copying the next link puts it to its own place. -/
lemma addLink_ofLinks (hlinked : g.IsLinked) {done rest : List (LinkId × Link)}
    {entry : LinkId × Link} (hlinks : g.links = done ++ entry :: rest) :
    (ofLinks g done).addLink entry = .ok (ofLinks g (done ++ [entry])) := by
  have hnames := hlinked.nodup_names
  have hentry : entry ∈ g.links := by simp [hlinks]
  obtain ⟨n, hn, hsource, hget⟩ := Graph.mem_links_iff.mp hentry
  obtain ⟨m, hm, htarget⟩ :=
    List.mem_map.mp (hlinked.target_mem n hn entry.2 (List.mem_of_getElem? hget))
  have hplace := Graph.length_linksFrom hnames hlinks hn hsource
  have hid : (⟨n.name, ((linksFrom done n.name).map Prod.snd).length⟩ : LinkId) = entry.1 := by
    rw [List.length_map, hplace, ← hsource]
  have hlink : ({ entry.2 with target := m.name } : Link) = entry.2 := by rw [htarget]
  have hnext : ∀ k : Node, (linksFrom (done ++ [entry]) k.name).map Prod.snd =
      if k.name == n.name then (linksFrom done k.name).map Prod.snd ++ [entry.2]
      else (linksFrom done k.name).map Prod.snd := by
    intro k
    unfold linksFrom
    rw [List.filter_append, List.filter_cons, List.filter_nil, hsource, BEq.comm]
    split
    · rw [List.map_append]
      rfl
    · rw [List.append_nil]
  unfold addLink
  rw [hsource, node?_ofLinks hnames hn, ← htarget, node?_ofLinks hnames hm]
  dsimp only [Node.unlinked]
  rw [hlink, hid]
  unfold ofLinks
  rw [List.map_map, List.map_append]
  refine congrArg (fun nodes => Except.ok (Copying.mk nodes _)) (List.map_congr_left fun k _ => ?_)
  rw [hnext k]
  dsimp only [Function.comp_apply, Node.unlinked]
  split <;> rfl

/-- Copying all links puts each of them to its own place. -/
lemma foldlM_addLink (hlinked : g.IsLinked) {done rest : List (LinkId × Link)}
    (hlinks : g.links = done ++ rest) :
    rest.foldlM addLink (ofLinks g done) = .ok (ofLinks g g.links) := by
  induction rest generalizing done with
  | nil =>
    rw [hlinks, List.append_nil]
    rfl
  | cons entry rest ih =>
    rw [List.foldlM_cons, addLink_ofLinks hlinked hlinks]
    exact ih (by rw [hlinks, List.append_assoc, List.singleton_append])

/-- Every link of the graph is its own copy. -/
lemma linkCopy_ofLinks {links : List (LinkId × Link)} {id : LinkId}
    (hid : id ∈ links.map Prod.fst) : (ofLinks g links).linkCopy id = .ok id := by
  have hpairs : (links.map fun entry => (entry.1, entry.1)) =
      (links.map Prod.fst).map fun id => (id, id) := by
    rw [List.map_map]
    rfl
  unfold linkCopy ofLinks
  dsimp only
  rw [hpairs, List.lookup_graph (fun id => id) hid]

/-- When all links are copied, the copy of a node becomes the same node. -/
lemma finish_ofLinks (hlinked : g.IsLinked) (hn : n ∈ g.nodes) :
    (ofLinks g g.links).finish n = .ok n := by
  have hnames := hlinked.nodup_names
  have houtgoing : (linksFrom g.links n.name).map Prod.snd = n.outgoing := by
    rw [Graph.linksFrom_links hnames hn]
    exact List.map_snd_zip (by simp [Node.linkIds])
  have hincoming : n.incoming.mapM (ofLinks g g.links).linkCopy = .ok n.incoming := by
    refine Outcome.mapM_eq_ok_iff.mpr (List.forall₂_same.mpr fun id hid => linkCopy_ofLinks ?_)
    obtain ⟨link, hlink, -⟩ := (hlinked.mem_incoming_iff n hn id).mp hid
    exact List.mem_map_of_mem hlink
  unfold finish
  rw [node?_ofLinks hnames hn, houtgoing]
  dsimp only
  rw [hincoming]
  rfl

end Copying

/-- A copy of a linked graph is the same graph. -/
theorem Graph.IsLinked.clone_eq (hlinked : g.IsLinked) : g.clone = .ok g := by
  have hstart : Copying.start g = Copying.ofLinks g [] := rfl
  have hnodes : g.nodes.mapM (Copying.ofLinks g g.links).finish = .ok g.nodes :=
    Outcome.mapM_eq_ok_iff.mpr
      (List.forall₂_same.mpr fun n hn => Copying.finish_ofLinks hlinked hn)
  have hresolver : g.resolver.map Resolver.fork = g.resolver := by
    cases g.resolver <;> rfl
  have hlinks := Copying.foldlM_addLink hlinked (List.nil_append g.links).symm
  unfold Graph.clone
  rw [hstart, hlinks]
  dsimp only [bind, Except.bind]
  rw [hnodes, hresolver]
  rfl

end StockFlow
