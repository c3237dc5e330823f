import Mathlib
import StockFlow.Proofs.Sheet.Linked
import StockFlow.Proofs.Value.Agreement
import StockFlow.Proofs.Value.Sessions
/-!
# Conservation of flow

Where all values are whole numbers, where no declared number replaces the sum of the links that enter
a node, and where every node with links leaving it either has one for the rest or has the sum of these
links for its value, nothing is lost on the way: every node passes on what it has, and what the roots
have in total is what the leaves have in total (`flow_conserved`).

The first half is the equations that values satisfy (`Graph.IsValuedBy`). For the second, the values of
all nodes are added up twice: as what enters them and what the roots have, and as what leaves them and
what the leaves have. Every link counts once on either side, because a graph that is built is linked.
-/

namespace StockFlow

/-- The total of the nodes is that of the nodes that have no links on one side, and of all links on
that side, if every other node has the total of its links there. -/
lemma sum_map_eq_add_sum_flatMap {nodes : List Node} {side : Node → List LinkId}
    {nodeValue : Node → ℤ} {linkValue : LinkId → ℤ}
    (h : ∀ n ∈ nodes, side n ≠ [] → ((side n).map linkValue).sum = nodeValue n) :
    (nodes.map nodeValue).sum =
      ((nodes.filter fun n => (side n).isEmpty).map nodeValue).sum +
        ((nodes.flatMap side).map linkValue).sum := by
  induction nodes with
  | nil => rfl
  | cons n nodes ih =>
    rw [List.forall_mem_cons] at h
    have hrest := ih h.2
    rw [List.map_cons, List.sum_cons, List.flatMap_cons, List.map_append, List.sum_append, hrest]
    by_cases hside : side n = []
    · rw [List.filter_cons_of_pos (by simp [hside]), List.map_cons, List.sum_cons, hside,
        List.map_nil, List.sum_nil]
      omega
    · rw [List.filter_cons_of_neg (by simp [hside]), h.1 hside]
      omega

namespace Graph

variable {g : Graph} {data : Item → Datum} {value : Item → ℤ}

/-! ## Totals of whole numbers -/

/-- The sum of links that are read as whole values is whole. -/
lemma sumLinks_eq_int_of_operand {read : Item → Except Failure Datum} {value : LinkId → ℤ}
    {ids : List LinkId} (h : ∀ id ∈ ids, ∃ found, read (.link id) = .ok found ∧
      found.operand = .ok (.int (value id))) :
    sumLinks read ids = .ok (.int (ids.map value).sum) := by
  have hfold : ∀ start : ℤ, ids.foldlM (fun (total : Number) id => do
      let found ← read (.link id)
      MonadExcept.ofExcept do total.add (← found.operand)) (.int start) =
        .ok (.int (start + (ids.map value).sum)) := by
    induction ids with
    | nil => simp [pure, Except.pure]
    | cons id ids ih =>
      obtain ⟨⟨found, hread, hwhole⟩, hrest⟩ := List.forall_mem_cons.mp h
      intro start
      rw [List.foldlM_cons, hread, List.map_cons, List.sum_cons, ← add_assoc]
      change ((MonadExcept.ofExcept do Number.add (.int start) (← found.operand)) >>= _) = _
      rw [hwhole]
      exact ih hrest _
  have hzero := hfold 0
  rw [zero_add] at hzero
  exact hzero

/-- The sum of whole values of links is whole. -/
lemma linkTotal_eq_int {ids : List LinkId}
    (h : ∀ id ∈ ids, (data (.link id)).operand = .ok (.int (value (.link id)))) :
    linkTotal data ids = .ok (.int (ids.map fun id => value (.link id)).sum) := by
  have hsum : sumLinks (fun item => .ok (data item)) ids = linkTotal data ids :=
    sumLinks_eq_linkTotal fun _ _ => rfl
  rw [← hsum]
  exact sumLinks_eq_int_of_operand fun id hid => ⟨_, rfl, h id hid⟩

/-- A number that is whole as a value. -/
lemma eq_int_of_operand_toDatum {number : Number} {whole : ℤ}
    (h : number.toDatum.operand = .ok (.int whole)) : number = .int whole := by
  cases number with
  | int n => exact Except.ok.inj h
  | float x => cases Except.ok.inj h

/-- Settled values agree with each other if all of them are found. -/
lemma isValuedBy_of_settled_eq_ok {r : Registry} (hlinked : g.IsLinked)
    (hresolver : g.resolver.isSome) (hr : r.IsPureFor g.network)
    (h : ∀ item ∈ g.items, g.network.settled r item = .ok (data item)) : g.IsValuedBy data := by
  obtain ⟨hnodes, hlinks⟩ := forall_mem_items_iff.mp h
  have hstep : ∀ item, g.network.step r.answer (g.network.settled r) item =
      g.network.settled r item := fun item => (settled_eq_step hr hresolver item).symm
  refine isValuedBy_of_step hlinked hresolver r.answer hnodes hlinks ?_ ?_
  · exact fun n hn => (hstep (.node n.name)).trans (hnodes n hn)
  · exact fun id link hlink _ => (hstep (.link id)).trans (hlinks id (List.mem_map_of_mem hlink))

/-! ## Nodes that pass on what they have -/

variable (hvalued : g.IsValuedBy data)
variable (hnode : ∀ n ∈ g.nodes, (data (.node n.name)).operand = .ok (.int (value (.node n.name))))
variable (hlink : ∀ id ∈ g.links.map Prod.fst,
  (data (.link id)).operand = .ok (.int (value (.link id))))

include hvalued hnode hlink

/-- A node without a declared number has the total of the links whose sum it is. -/
lemma sum_map_summands {n : Node} (hlinked : g.IsLinked) (hn : n ∈ g.nodes)
    (hnumber : g.declaredNumber? n = none) :
    (n.summands.map fun id => value (.link id)).sum = value (.node n.name) := by
  have hsum : ∃ total, linkTotal data n.summands = .ok total ∧
      data (.node n.name) = total.toDatum := by
    unfold Node.summands
    split
    · next hroot => exact hvalued.root n hn hnumber (List.isEmpty_iff.mp hroot)
    · next hentered => exact hvalued.entered n hn hnumber (by simpa using hentered)
  obtain ⟨total, htotal, hdata⟩ := hsum
  have hwhole := hnode n hn
  rw [hdata] at hwhole
  rw [linkTotal_eq_int fun id hid => hlink id (mem_links_of_mem_summands hlinked hn hid),
    eq_int_of_operand_toDatum hwhole] at htotal
  exact Number.int.inj (Except.ok.inj htotal)

/-- A node with a link for the rest passes on what it has. -/
lemma sum_map_linkIds_of_rest {n : Node} (hnames : (g.nodes.map Node.name).Nodup) (hn : n ∈ g.nodes)
    {link : Link} (hmem : link ∈ n.outgoing) (hrest : classify link.value = .rest) :
    (n.linkIds.map fun id => value (.link id)).sum = value (.node n.name) := by
  obtain ⟨position, hget⟩ := List.mem_iff_getElem?.mp hmem
  obtain ⟨id, hid, hin⟩ : ∃ id ∈ n.linkIds, (id, link) ∈ g.links :=
    ⟨⟨n.name, position⟩, Node.mem_linkIds_iff.mpr ⟨rfl, (List.getElem?_eq_some_iff.mp hget).1⟩,
      mem_links_iff.mpr ⟨n, hn, rfl, hget⟩⟩
  obtain ⟨m, hm, hname, own, others, left, hown, hothers, hsub, hdata⟩ :=
    hvalued.rest id link hin hrest
  obtain rfl : m = n :=
    List.inj_on_of_nodup_map hnames hm hn (hname.trans (Node.mem_linkIds_iff.mp hid).1)
  -- the link for the rest has what the other links leave of the node
  have hwhole : value (.node m.name) -
      ((m.linkIds.filter fun other => other != id).map fun id => value (.link id)).sum =
        value (.link id) := by
    have hlinkWhole := hlink id (mem_map_fst_links hn hid)
    rw [hdata] at hlinkWhole
    rw [hnode m hn] at hown
    rw [linkTotal_eq_int fun other hother =>
      hlink other (mem_map_fst_links hn (List.mem_of_mem_filter hother))] at hothers
    rw [eq_int_of_operand_toDatum hlinkWhole, ← Except.ok.inj hown, ← Except.ok.inj hothers] at hsub
    exact Number.int.inj (Except.ok.inj hsub)
  have hsplit := List.sum_map_erase (fun id => value (.link id)) hid
  rw [m.nodup_linkIds.erase_eq_filter] at hsplit
  omega

omit hvalued hnode hlink

/-! ## Roots and leaves -/

/-- If every node passes on what it has, and every node that links enter has what enters it, then
the roots have what the leaves have. -/
lemma sum_roots_eq_sum_leaves (hlinked : g.IsLinked)
    (hin : ∀ n ∈ g.nodes, n.incoming ≠ [] →
      (n.incoming.map fun id => value (.link id)).sum = value (.node n.name))
    (hout : ∀ n ∈ g.nodes, n.outgoing ≠ [] →
      (n.linkIds.map fun id => value (.link id)).sum = value (.node n.name)) :
    ((g.nodes.filter fun n => n.incoming.isEmpty).map fun n => value (.node n.name)).sum =
      ((g.nodes.filter fun n => n.outgoing.isEmpty).map fun n => value (.node n.name)).sum := by
  have hempty : ∀ n : Node, n.linkIds.isEmpty = n.outgoing.isEmpty := by
    intro n
    cases houtgoing : n.outgoing <;> simp [Node.linkIds, houtgoing]
  have hentering := sum_map_eq_add_sum_flatMap hin
  have hleaving : (g.nodes.map fun n => value (.node n.name)).sum =
      ((g.nodes.filter fun n => n.linkIds.isEmpty).map fun n => value (.node n.name)).sum +
        ((g.nodes.flatMap Node.linkIds).map fun id => value (.link id)).sum :=
    sum_map_eq_add_sum_flatMap fun n hn hne =>
      hout n hn fun hnil => hne (by simp [Node.linkIds, hnil])
  have hboth : ((g.nodes.flatMap Node.incoming).map fun id => value (.link id)).sum =
      ((g.nodes.flatMap Node.linkIds).map fun id => value (.link id)).sum :=
    (hlinked.incoming_perm.map _).sum_eq
  simp only [hempty] at hleaving
  omega

/-- Whether no number is declared for a node that links enter, and every node with links leaving it
has one for the rest, or else is a root without a declared number. -/
structure IsLossless (g : Graph) : Prop where
  entered : ∀ n ∈ g.nodes, n.incoming ≠ [] → g.declaredNumber? n = none
  left : ∀ n ∈ g.nodes, n.outgoing ≠ [] → (∃ link ∈ n.outgoing, classify link.value = .rest) ∨
    n.incoming = [] ∧ g.declaredNumber? n = none

instance (g : Graph) : Decidable g.IsLossless :=
  decidable_of_iff
    ((∀ n ∈ g.nodes, n.incoming ≠ [] → g.declaredNumber? n = none) ∧
      ∀ n ∈ g.nodes, n.outgoing ≠ [] → (∃ link ∈ n.outgoing, classify link.value = .rest) ∨
        n.incoming = [] ∧ g.declaredNumber? n = none)
    ⟨fun h => ⟨h.1, h.2⟩, fun h => ⟨h.entered, h.left⟩⟩

/-- **Flow is conserved.**  In a graph that is built and that is lossless, with pure plugins, let every
reading of a node or of a link give a whole number. Then every node with links leaving it passes on
what it has, and the roots have in total what the leaves have in total. A node cannot have two links
for the rest here, since neither of them would have a value. -/
theorem flow_conserved {s : Settings} {ds : List Datum} {gs : List Graph}
    (hgs : buildGraphs s ds = .ok gs) (hg : g ∈ gs) {r : Registry} (hr : r.IsPure)
    (hread : ∀ item ∈ g.items, ∃ found, g.Yields r (g.network.read item) (.ok found) ∧
      found.operand = .ok (.int (value item)))
    (hlossless : g.IsLossless) :
    (∀ n ∈ g.nodes, n.outgoing ≠ [] →
      (n.linkIds.map fun id => value (.link id)).sum = value (.node n.name)) ∧
    ((g.nodes.filter fun n => n.incoming.isEmpty).map fun n => value (.node n.name)).sum =
      ((g.nodes.filter fun n => n.outgoing.isEmpty).map fun n => value (.node n.name)).sum := by
  have hlinked := isLinked_of_buildGraphs hgs hg
  have hresolver := isSome_resolver_of_buildGraphs hgs hg
  have hpure : r.IsPureFor g.network := hr.isPureFor _
  have hfound : ∀ item ∈ g.items, ∃ found, g.network.settled r item = .ok found ∧
      found.operand = .ok (.int (value item)) := by
    intro item hitem
    obtain ⟨found, hyields, hwhole⟩ := hread item hitem
    exact ⟨found, (hyields.eq hpure (Read.Between.read hpure g.hasItems item)).symm, hwhole⟩
  choose! data hsettled hwhole using hfound
  have hvalued : g.IsValuedBy data :=
    isValuedBy_of_settled_eq_ok hlinked hresolver hpure hsettled
  obtain ⟨hnode, hlink⟩ := forall_mem_items_iff.mp hwhole
  have hout : ∀ n ∈ g.nodes, n.outgoing ≠ [] →
      (n.linkIds.map fun id => value (.link id)).sum = value (.node n.name) := by
    intro n hn hne
    rcases hlossless.left n hn hne with ⟨link, hmem, hrest⟩ | ⟨hroot, hnumber⟩
    · exact sum_map_linkIds_of_rest hvalued hnode hlink hlinked.nodup_names hn hmem hrest
    · have hsum := sum_map_summands hvalued hnode hlink hlinked hn hnumber
      rw [Node.summands, if_pos (by simpa using hroot)] at hsum
      exact hsum
  refine ⟨hout, sum_roots_eq_sum_leaves hlinked (fun n hn hne => ?_) hout⟩
  have hsum := sum_map_summands hvalued hnode hlink hlinked hn (hlossless.entered n hn hne)
  rw [Node.summands, if_neg (by simpa using hne)] at hsum
  exact hsum

/-- A sheet with a rest beside a percentage, beside a plugin and beside a link of the same ends. -/
def deltaSheet : List Datum :=
  [.map [(.text "name", .text "Well"),
      (.text "links", .list [
        .map [(.text "to", .text "Pump"), (.text "value", .int 40)],
        .map [(.text "to", .text "Pond"), (.text "value", .int 7)]])],
    .map [(.text "name", .text "Pump"),
      (.text "links", .list [
        .map [(.text "to", .text "Pond"), (.text "value", .text "rest")],
        .map [(.text "to", .text "Mill"), (.text "value", .text "15%")],
        .map [(.text "to", .text "Pond"), (.text "value", .int 9)]])],
    .map [(.text "name", .text "Pond"),
      (.text "links", .list [
        .map [(.text "to", .text "Sea"), (.text "value", .text "rest")],
        .map [(.text "to", .text "Mill"),
          (.text "value", .map [(.text "plugin", .text "share"), (.text "of", .int 2)])]])]]

/-- The delta sheet is lossless, so the well has what the mill and the sea have. -/
theorem flow_conserved_deltaSheet :
    ∃ gs g, ∃ value : Item → ℤ, buildGraphs {} deltaSheet = .ok gs ∧ g ∈ gs ∧ g.IsLossless ∧
      shareRegistry.IsPure ∧
      (∀ item ∈ g.items, ∃ found, g.Yields shareRegistry (g.network.read item) (.ok found) ∧
        found.operand = .ok (.int (value item))) ∧
      (["Well", "Pump", "Pond", "Mill", "Sea"].map fun name => value (.node name)) =
        [47, 40, 41, 88, -41] ∧
      (∀ n ∈ g.nodes, n.outgoing ≠ [] →
        (n.linkIds.map fun id => value (.link id)).sum = value (.node n.name)) ∧
      ((g.nodes.filter fun n => n.incoming.isEmpty).map fun n => value (.node n.name)).sum =
        ((g.nodes.filter fun n => n.outgoing.isEmpty).map fun n => value (.node n.name)).sum := by
  have hran : ((buildGraphs {} deltaSheet).toOption.bind fun gs => gs.head?.map fun g =>
      (decide g.IsLossless,
        g.items.all fun item => (g.wholeValue? (g.valueCount + 1) shareRegistry item).isSome,
        ["Well", "Pump", "Pond", "Mill", "Sea"].map fun name =>
          (g.wholeValue? (g.valueCount + 1) shareRegistry (.node name)).getD 0)) =
      some (true, true, [47, 40, 41, 88, -41]) := by
    decide +kernel
  obtain ⟨gs, g, hbuilt, hmem, hfacts⟩ := exists_graph_of_head? hran
  simp only [Prod.mk.injEq, List.all_eq_true, decide_eq_true_eq] at hfacts
  obtain ⟨hlossless, hwhole, hnumbers⟩ := hfacts
  have hpure : shareRegistry.IsPure := isPure_shareRegistry
  have hread : ∀ item ∈ g.items, ∃ found,
      g.Yields shareRegistry (g.network.read item) (.ok found) ∧ found.operand = .ok (.int
        ((g.wholeValue? (g.valueCount + 1) shareRegistry item).getD 0)) := by
    intro item hitem
    obtain ⟨n, hn⟩ := Option.isSome_iff_exists.mp (hwhole item hitem)
    rw [hn]
    exact ⟨.int n, yieldsOn_of_wholeValue? hn, rfl⟩
  exact ⟨gs, g, _, hbuilt, hmem, hlossless, hpure, hread, hnumbers,
    flow_conserved hbuilt hmem hpure hread hlossless⟩

end Graph

end StockFlow
