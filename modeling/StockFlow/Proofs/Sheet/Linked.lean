import StockFlow.Proofs.Graph.Links
import StockFlow.Proofs.Sheet.Acceptance
import StockFlow.Proofs.Sheet.Built
/-!
# Built graphs are linked

The graphs that are built out of declarations are linked (`isLinked_of_buildGraphs`): a collection
holds every name once, attaching links puts every link where it enters, and the walk that brings the
nodes into their order loses none of them and lists none twice. All nodes of a built graph have the
resolver of its settings (`resolver_of_buildGraphs`).
-/

namespace StockFlow

/-! ## Attaching links -/

/-- Removing repetitions leaves none. -/
lemma nodup_eraseDups (names : List Text) : names.eraseDups.Nodup := by
  induction hn : names.length using Nat.strong_induction_on generalizing names with
  | _ n ih =>
    cases names with
    | nil => simp
    | cons name names =>
      rw [List.eraseDups_cons]
      have hshorter : (names.filter fun other => !other == name).length < n := by
        have hle := List.length_filter_le (fun other => !other == name) names
        rw [List.length_cons] at hn
        omega
      refine List.nodup_cons.mpr ⟨?_, ih _ hshorter _ rfl⟩
      rw [List.mem_eraseDups, List.mem_filter]
      simp

/-- The links that enter a node are the links of a graph that have it for a target. -/
lemma incomingOf_eq_map_filter (g : Graph) (name : Text) :
    incomingOf g.nodes name =
      (g.links.filter fun entry => entry.2.target == name).map Prod.fst := by
  unfold incomingOf Graph.links
  rw [← List.filterMap_flatMap]
  generalize g.nodes.flatMap (fun n => n.linkIds.zip n.outgoing) = entries
  induction entries with
  | nil => rfl
  | cons entry entries ih =>
    obtain ⟨id, link⟩ := entry
    rw [List.filterMap_cons, List.filter_cons]
    cases htarget : link.target == name with
    | true => simp only [htarget, if_true, List.map_cons, ih]
    | false => simpa only [htarget, Bool.false_eq_true, if_false] using ih

/-- A linked node knows the links that enter it. -/
lemma incoming_of_mem_linkedNodes {declared : List Node} {n : Node}
    (h : n ∈ linkedNodes declared) : n.incoming = incomingOf (linkedNodes declared) n.name := by
  have hskeleton : (linkedNodes declared).map Node.skeleton =
      (declared ++ (undeclaredTargets declared).map bareNode).map Node.skeleton := by
    unfold linkedNodes
    rw [attachIncoming_eq, List.map_map]
    rfl
  have hattached := h
  unfold linkedNodes at hattached
  rw [attachIncoming_eq] at hattached
  obtain ⟨m, -, rfl⟩ := List.mem_map.mp hattached
  change incomingOf (declared ++ (undeclaredTargets declared).map bareNode) m.name =
    incomingOf (linkedNodes declared) m.name
  rw [incomingOf_eq, incomingOf_eq, hskeleton]

/-- Declared nodes with different names stay so together with the targets that are not declared. -/
lemma nodup_map_name_linkedNodes {declared : List Node} (h : (declared.map Node.name).Nodup) :
    ((linkedNodes declared).map Node.name).Nodup := by
  rw [names_linkedNodes]
  refine h.append (nodup_eraseDups _) fun name hname htarget => ?_
  unfold undeclaredTargets at htarget
  rw [List.mem_eraseDups, List.mem_filter] at htarget
  simp [hname] at htarget

/-- Nodes with different names are linked once their links are attached. -/
lemma isLinked_linkedNodes {declared : List Node} (h : (declared.map Node.name).Nodup)
    (suffix : Text) (resolver : Option Resolver) :
    (Graph.mk (linkedNodes declared) suffix resolver).IsLinked := by
  have hnames := nodup_map_name_linkedNodes h
  refine ⟨hnames, ?_, ?_, ?_⟩
  · intro n hn l hl
    obtain ⟨m, hm, -, -, houtgoing⟩ := mem_linkedNodes hn
    rw [houtgoing] at hl
    rcases hm with hm | ⟨name, rfl⟩
    · exact target_mem_linkedNodes hm hl
    · exact absurd hl List.not_mem_nil
  · intro n hn id
    rw [incoming_of_mem_linkedNodes hn,
      incomingOf_eq_map_filter ⟨linkedNodes declared, suffix, resolver⟩, List.mem_map]
    constructor
    · rintro ⟨⟨id, link⟩, hlink, rfl⟩
      obtain ⟨hmem, htarget⟩ := List.mem_filter.mp hlink
      exact ⟨link, hmem, by simpa using htarget⟩
    · rintro ⟨link, hlink, htarget⟩
      exact ⟨(id, link), List.mem_filter.mpr ⟨hlink, by simpa using htarget⟩, rfl⟩
  · intro n hn
    rw [incoming_of_mem_linkedNodes hn,
      incomingOf_eq_map_filter ⟨linkedNodes declared, suffix, resolver⟩]
    exact (Graph.nodup_map_fst_links hnames).sublist (List.filter_sublist.map Prod.fst)

/-- An order that lists every name of some nodes, and none twice, rearranges them. -/
lemma perm_orderedGraph {nodes : List Node} (hnames : (nodes.map Node.name).Nodup)
    {order : List Text} (horder : order.Nodup) (hall : nodes.map Node.name ⊆ order) (suffix : Text)
    (resolver : Option Resolver) :
    nodes.Perm (orderedGraph nodes order suffix resolver).nodes := by
  have hfind : ∀ {name n}, (nodes.find? fun n => n.name == name) = some n ↔
      n ∈ nodes ∧ n.name = name :=
    Graph.node?_eq_some_iff (g := ⟨nodes, suffix, resolver⟩) hnames
  have hnodup : (orderedGraph nodes order suffix resolver).nodes.Nodup := by
    refine List.Pairwise.filterMap _ ?_ horder
    rintro name name' hne n hn n' hn' rfl
    exact hne ((hfind.mp hn).2.symm.trans (hfind.mp hn').2)
  refine (List.perm_ext_iff_of_nodup (List.Nodup.of_map _ hnames) hnodup).mpr fun n => ?_
  constructor
  · intro hn
    exact List.mem_filterMap.mpr ⟨n.name, hall (List.mem_map_of_mem hn), hfind.mpr ⟨hn, rfl⟩⟩
  · exact fun hn => (mem_of_mem_orderedGraph hn).1

/-- If all links lead to nodes, then all names that one can follow a link to are theirs. -/
lemma mem_of_leads_targetsOf {nodes : List Node}
    (hlinked : ∀ n ∈ nodes, ∀ link ∈ n.outgoing, link.target ∈ nodes.map Node.name) (a b : Text)
    (h : Leads (targetsOf nodes) a b) : b ∈ nodes.map Node.name := by
  unfold Leads targetsOf at h
  cases hfind : nodes.find? fun n => n.name == a with
  | none =>
    rw [hfind] at h
    exact absurd h List.not_mem_nil
  | some n =>
    rw [hfind] at h
    obtain ⟨link, hlink, rfl⟩ := List.mem_map.mp h
    exact hlinked n (List.mem_of_find?_eq_some hfind) link hlink

/-! ## Collections -/

namespace Collection

/-- A declaration that is added keeps the names where its own is known, and else puts it behind them. -/
lemma names_add {c c' : Collection} {d : Datum} {name : Text} (hname : declaredName d = .ok name)
    (h : c.add d = .ok c') : c'.declarations.map Declared.name =
      if name ∈ c.declarations.map Declared.name then c.declarations.map Declared.name
      else c.declarations.map Declared.name ++ [name] := by
  cases hfind : c.find? name with
  | none =>
    have hnew : name ∉ c.declarations.map Declared.name := by
      intro hmem
      obtain ⟨d', hd', hname'⟩ := List.mem_map.mp hmem
      exact List.find?_eq_none.mp hfind d' hd' (by simpa using hname')
    rw [add_of_find?_eq_none hname hfind] at h
    cases h
    rw [if_neg hnew, List.map_append]
    rfl
  | some existing =>
    have hknown : name ∈ c.declarations.map Declared.name := by
      have hexisting : existing.name = name := by simpa using List.find?_some hfind
      exact hexisting ▸ List.mem_map_of_mem (List.mem_of_find?_eq_some hfind)
    rw [add_of_find?_eq_some (isSome_fields?_of_declaredName hname) hname hfind] at h
    obtain ⟨merged, -, h⟩ := Outcome.bind_eq_ok_iff.mp h
    cases h
    have hnames : ∀ d' : Declared,
        (if d'.name == name then { d' with declaration := merged } else d').name = d'.name := by
      intro d'
      split <;> rfl
    rw [if_pos hknown, List.map_map]
    simp only [Function.comp_def, hnames]

/-- A collection holds every name once, whatever is added to it. -/
lemma nodup_names_add {c c' : Collection} {d : Datum} (h : c.add d = .ok c')
    (hc : (c.declarations.map Declared.name).Nodup) :
    (c'.declarations.map Declared.name).Nodup := by
  obtain ⟨name, hname, -⟩ := Outcome.bind_eq_ok_iff.mp h
  rw [names_add hname h]
  split
  · exact hc
  · next hnew => exact nodup_concat hc (by simpa using hnew)

/-- A collection of declarations that are added one after the other holds every name once. -/
lemma nodup_names_foldlM {ds : List Datum} {c c' : Collection}
    (h : ds.foldlM Collection.add c = .ok c') (hc : (c.declarations.map Declared.name).Nodup) :
    (c'.declarations.map Declared.name).Nodup := by
  induction ds generalizing c with
  | nil =>
    cases h
    exact hc
  | cons d ds ih =>
    rw [List.foldlM_cons] at h
    obtain ⟨middle, hmiddle, h⟩ := Outcome.bind_eq_ok_iff.mp h
    exact ih h (nodup_names_add hmiddle hc)

/-- Declared nodes have the names of their declarations. -/
lemma map_name_declaredNodes {c : Collection} {nodes : List Node}
    (h : c.declaredNodes = .ok nodes) :
    nodes.map Node.name = c.declarations.map Declared.name := by
  have hpairs := declaredNodes_eq_ok_iff.mp h
  clear h
  generalize c.declarations = declarations at hpairs ⊢
  induction hpairs with
  | nil => rfl
  | cons hn _ ih =>
    obtain ⟨-, links, outgoing, -, -, rfl⟩ := declaredNode_eq_ok_iff.mp hn
    rw [List.map_cons, List.map_cons, ih]

/-- The graph of a collection that holds every name once is linked. -/
lemma isLinked_of_toGraph {c : Collection} (hc : (c.declarations.map Declared.name).Nodup)
    {resolver : Option Resolver} {g : Graph} (h : c.toGraph resolver = .ok g) : g.IsLinked := by
  obtain ⟨declared, order, hdeclared, horder, rfl⟩ := toGraph_eq_ok_iff.mp h
  rw [← map_name_declaredNodes hdeclared] at hc
  have hlinked := isLinked_linkedNodes hc c.suffix resolver
  exact hlinked.perm (perm_orderedGraph hlinked.nodup_names (nodup_walkOrder horder)
    (walked_of_walkOrder horder).starts_subset c.suffix resolver)

/-- The coloured graph of a collection that holds every name once is linked, and has a resolver. -/
lemma isLinked_of_colored {c : Collection} (hc : (c.declarations.map Declared.name).Nodup)
    {zeroIsUnset : Bool} {g : Graph} (h : c.colored zeroIsUnset = .ok g) :
    g.IsLinked ∧ g.resolver = some ⟨zeroIsUnset⟩ := by
  obtain ⟨graph, hgraph, hcolored⟩ := colored_eq_ok_iff.mp h
  have hresolver : graph.resolver = some ⟨zeroIsUnset⟩ := by
    obtain ⟨declared, order, -, -, rfl⟩ := toGraph_eq_ok_iff.mp hgraph
    rfl
  have hkept := Graph.colorNodes_keeps
    (P := fun g => g.IsLinked ∧ g.resolver = some ⟨zeroIsUnset⟩) ?_ category10
    ⟨isLinked_of_toGraph hc hgraph, hresolver⟩
  · rw [hcolored] at hkept
    exact hkept
  · rintro g name color ⟨hlinked, hresolver⟩
    refine ⟨?_, hresolver⟩
    refine hlinked.map (f := fun n => if n.name == name then { n with color } else n) ?_ ?_ ?_ rfl
    all_goals
      intro n
      split <;> rfl

end Collection

/-! ## Built graphs -/

/-- A graph that is built is, but for its suffix, the coloured graph of a collection that holds every
name once. -/
lemma exists_colored_of_buildGraphs {s : Settings} {ds : List Datum} {gs : List Graph}
    (hgs : buildGraphs s ds = .ok gs) {g : Graph} (hg : g ∈ gs) :
    ∃ c : Collection, ∃ g' suffix, (c.declarations.map Declared.name).Nodup ∧
      c.colored s.zeroIsUnset = .ok g' ∧ g = g'.withSuffix suffix := by
  obtain ⟨number, -, hnumber⟩ :=
    Outcome.exists_of_mem_of_mapM_eq_ok (buildGraphs_eq_ok_iff_mapM.mp hgs) hg
  obtain ⟨g', hg', rfl⟩ := Outcome.map_eq_ok_iff.mp hnumber
  obtain ⟨c, hc, hcolored⟩ := Outcome.bind_eq_ok_iff.mp hg'
  exact ⟨c, g', _, Collection.nodup_names_foldlM hc List.nodup_nil, hcolored, rfl⟩

/-- Graphs that are built are linked. -/
theorem isLinked_of_buildGraphs {s : Settings} {ds : List Datum} {gs : List Graph}
    (hgs : buildGraphs s ds = .ok gs) {g : Graph} (hg : g ∈ gs) : g.IsLinked := by
  obtain ⟨c, g', suffix, hc, hcolored, rfl⟩ := exists_colored_of_buildGraphs hgs hg
  exact (Collection.isLinked_of_colored hc hcolored).1.perm (.refl _)

/-- Graphs that are built have the resolver of their settings. -/
theorem resolver_of_buildGraphs {s : Settings} {ds : List Datum} {gs : List Graph}
    (hgs : buildGraphs s ds = .ok gs) {g : Graph} (hg : g ∈ gs) :
    g.resolver = some ⟨s.zeroIsUnset⟩ := by
  obtain ⟨c, g', suffix, hc, hcolored, rfl⟩ := exists_colored_of_buildGraphs hgs hg
  exact (Collection.isLinked_of_colored hc hcolored).2

/-- Graphs that are built have a resolver. -/
lemma isSome_resolver_of_buildGraphs {s : Settings} {ds : List Datum} {gs : List Graph}
    (hgs : buildGraphs s ds = .ok gs) {g : Graph} (hg : g ∈ gs) : g.resolver.isSome := by
  rw [resolver_of_buildGraphs hgs hg, Option.isSome_some]

end StockFlow
