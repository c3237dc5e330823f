import Mathlib.Order.WellFoundedSet
import StockFlow.Proofs.Sheet.Acceptance
import StockFlow.Proofs.Value.Dependency
/-!
# Sheets that always resolve

That a graph has no cycle is not enough for its values to be found, since values are read up and down
the graph and between the links that leave one node. It is enough together with a shape that can be
checked node by node (`Graph.IsWellShaped`): no node has two links for the rest, and a node with links
for the rest or for a percentage has its value from elsewhere, either declared or from links that
enter it and do not ask what it passes on. Then every chain of values ends (`isGrounded_of_isWellShaped`),
and goes on for no more steps than the graph has values (`HasChain.le_valueCount`). So a reading goes too
deep only on a stack that is too small for a chain, and never where there is room for more values than the
graph has (`chain_of_tooDeep_of_isWellShaped`).

The proof goes twice through the graph. From the targets to the sources it finds the links that leave
nodes with a declared number and nodes without links for the rest or a percentage: whatever these ask
of a target is found before. From the sources to the targets it then finds all nodes and all other
links.
-/

namespace StockFlow

/-- Whether a link asks for a part of its source: for the rest, or for a percentage. -/
def Link.AsksForPart (link : Link) : Prop :=
  classify link.value = .rest ∨ classify link.value = .percentage

instance (link : Link) : Decidable link.AsksForPart :=
  inferInstanceAs (Decidable (classify link.value = .rest ∨ classify link.value = .percentage))

namespace Graph

variable {g : Graph}

/-! ## Inductions along the links -/

section Acyclic

variable (hnames : (g.nodes.map Node.name).Nodup)
variable (hacyclic : ¬HasCycle (Leads (targetsOf g.nodes))) {P : Node → Prop}

/-- Whether links lead from a node to another one, on whatever way. -/
def Reaches (g : Graph) (n m : Node) : Prop :=
  Relation.TransGen (Leads (targetsOf g.nodes)) n.name m.name

include hnames in
/-- A link leads from its source to its target. -/
lemma reaches_of_target_eq {n m : Node} (hn : n ∈ g.nodes) {link : Link} (hlink : link ∈ n.outgoing)
    (htarget : link.target = m.name) : g.Reaches n m := by
  have hfound : g.nodes.find? (fun other => other.name == n.name) = some n :=
    (node?_eq_some_iff hnames).mpr ⟨hn, rfl⟩
  refine .single ?_
  unfold Leads targetsOf
  rw [hfound, ← htarget]
  exact List.mem_map_of_mem hlink

include hacyclic in
/-- Where there is no cycle, the nodes are ordered by the links. -/
lemma isStrictOrder_reaches : IsStrictOrder Node g.Reaches where
  irrefl n h := hacyclic ⟨n.name, h⟩
  trans _ _ _ h h' := h.trans h'

include hnames hacyclic

/-- What holds of a node if it holds of all nodes that its links enter holds of all nodes. -/
lemma induction_of_targets (h : ∀ n ∈ g.nodes,
    (∀ m ∈ g.nodes, ∀ link ∈ n.outgoing, link.target = m.name → P m) → P n) :
    ∀ n ∈ g.nodes, P n := by
  have horder := isStrictOrder_reaches hacyclic
  have hwell := g.nodes.finite_toSet.wellFoundedOn (r := Function.swap g.Reaches)
  intro n hn
  refine hwell.induction hn fun n hn ih => h n hn fun m hm link hlink htarget => ?_
  exact ih m hm (reaches_of_target_eq hnames hn hlink htarget)

/-- What holds of a node if it holds of all nodes whose links enter it holds of all nodes. -/
lemma induction_of_sources (h : ∀ n ∈ g.nodes,
    (∀ m ∈ g.nodes, ∀ link ∈ m.outgoing, link.target = n.name → P m) → P n) :
    ∀ n ∈ g.nodes, P n := by
  have horder := isStrictOrder_reaches hacyclic
  have hwell := g.nodes.finite_toSet.wellFoundedOn (r := g.Reaches)
  intro n hn
  refine hwell.induction hn fun n hn ih => h n hn fun m hm link hlink htarget => ?_
  exact ih m hm (reaches_of_target_eq hnames hm hlink htarget)

end Acyclic

/-! ## The shape -/

/-- A shape in which all values are found: no node has two links for the rest, and every node with a
link for the rest or for a percentage either has a declared number, or is entered by links none of
which asks what the node passes on. -/
structure IsWellShaped (g : Graph) : Prop where
  rest_unique : ∀ entry ∈ g.links, ∀ entry' ∈ g.links, entry.1.source = entry'.1.source →
    classify entry.2.value = .rest → classify entry'.2.value = .rest → entry.1 = entry'.1
  part_supplied : ∀ n ∈ g.nodes, (∃ link ∈ n.outgoing, link.AsksForPart) →
    (g.declaredNumber? n).isSome ∨ n.incoming ≠ [] ∧
      ∀ entry ∈ g.links, entry.2.target = n.name → classify entry.2.value ≠ .auto

instance (g : Graph) : Decidable g.IsWellShaped :=
  decidable_of_iff
    ((∀ entry ∈ g.links, ∀ entry' ∈ g.links, entry.1.source = entry'.1.source →
        classify entry.2.value = .rest → classify entry'.2.value = .rest → entry.1 = entry'.1) ∧
      ∀ n ∈ g.nodes, (∃ link ∈ n.outgoing, link.AsksForPart) →
        (g.declaredNumber? n).isSome ∨ n.incoming ≠ [] ∧
          ∀ entry ∈ g.links, entry.2.target = n.name → classify entry.2.value ≠ .auto)
    ⟨fun h => ⟨h.1, h.2⟩, fun h => ⟨h.rest_unique, h.part_supplied⟩⟩

/-! ## Chains that end -/

/-- A node that is asked what it passes on, and that is asked for parts, has a declared number. -/
lemma isSome_declaredNumber?_of_auto (hshape : g.IsWellShaped) {n m : Node} (hn : n ∈ g.nodes)
    (hm : m ∈ g.nodes) {link : Link} (hlink : link ∈ n.outgoing)
    (hauto : classify link.value = .auto) (htarget : m.name = link.target)
    (hpart : ∃ link ∈ m.outgoing, link.AsksForPart) : (g.declaredNumber? m).isSome := by
  refine (hshape.part_supplied m hm hpart).resolve_right ?_
  rintro ⟨-, hnone⟩
  obtain ⟨position, hget⟩ := List.mem_iff_getElem?.mp hlink
  have hmem : ((⟨n.name, position⟩ : LinkId), link) ∈ g.links :=
    mem_links_iff.mpr ⟨n, hn, rfl, hget⟩
  exact hnone _ hmem htarget.symm hauto

/-- A node with a declared number depends on nothing. -/
lemma isGrounded_of_declaredNumber? {n : Node} (hnames : (g.nodes.map Node.name).Nodup)
    (hn : n ∈ g.nodes) (hnumber : (g.declaredNumber? n).isSome) :
    g.IsGrounded (.node n.name) := by
  refine isGrounded_of_forall fun next hnext => ?_
  obtain ⟨m, hm, hname, hnone, -⟩ := dependsOn_node_iff.mp hnext
  rw [List.inj_on_of_nodup_map hnames hm hn hname] at hnone
  simp [hnone] at hnumber

variable (hlinked : g.IsLinked) (hshape : g.IsWellShaped)

include hlinked

/-- The link of an identity among those that leave a node leaves this node. -/
lemma mem_outgoing_of_mem_links {n : Node} (hn : n ∈ g.nodes) {id : LinkId} {link : Link}
    (hsource : id.source = n.name) (hlink : (id, link) ∈ g.links) : link ∈ n.outgoing := by
  obtain ⟨m, hm, hname, hget⟩ := mem_links_iff.mp hlink
  obtain rfl : m = n :=
    List.inj_on_of_nodup_map hlinked.nodup_names hm hn (hname.symm.trans hsource)
  exact List.mem_of_getElem? hget

include hshape

/-- The links that leave a node are grounded if the node is, or if none of them asks for a part of
it, and if those are grounded that leave the targets which are asked what they pass on. -/
lemma isGrounded_of_mem_linkIds {n : Node} (hn : n ∈ g.nodes)
    (hown : (∃ link ∈ n.outgoing, link.AsksForPart) → g.IsGrounded (.node n.name))
    (hauto : ∀ link ∈ n.outgoing, classify link.value = .auto → ∀ m ∈ g.nodes,
      m.name = link.target → ∀ next ∈ m.linkIds, g.IsGrounded (.link next)) :
    ∀ id ∈ n.linkIds, g.IsGrounded (.link id) := by
  -- a link for the rest comes after its siblings, and all other links come first
  have hone : ∀ id ∈ n.linkIds, (∀ link, (id, link) ∈ g.links → classify link.value = .rest →
      ∀ other ∈ n.linkIds, other ≠ id → g.IsGrounded (.link other)) →
      g.IsGrounded (.link id) := by
    intro id hid hothers
    obtain ⟨hsource, -⟩ := Node.mem_linkIds_iff.mp hid
    refine isGrounded_of_forall fun next hnext => ?_
    cases hnext with
    | source hlink hrest =>
      rw [hsource]
      exact hown ⟨_, mem_outgoing_of_mem_links hlinked hn hsource hlink, .inl hrest⟩
    | @sibling _ other link m hlink hrest hm hname hother hne =>
      obtain rfl : m = n :=
        List.inj_on_of_nodup_map hlinked.nodup_names hm hn (hname.trans hsource)
      exact hothers link hlink hrest other hother hne
    | @onward _ next link m hlink hkind hm hname hnext =>
      exact hauto link (mem_outgoing_of_mem_links hlinked hn hsource hlink) hkind m hm hname next
        hnext
    | share hlink hkind hvalue hpercentage =>
      rw [hsource]
      exact hown ⟨_, mem_outgoing_of_mem_links hlinked hn hsource hlink, .inr hkind⟩
  intro id hid
  refine hone id hid fun link hlink hrest other hother hne => ?_
  refine hone other hother fun link' hlink' hrest' => absurd ?_ hne
  have hsource := (Node.mem_linkIds_iff.mp hid).1
  have hsource' := (Node.mem_linkIds_iff.mp hother).1
  exact hshape.rest_unique _ hlink' _ hlink (hsource'.trans hsource.symm) hrest' hrest

variable (hacyclic : ¬HasCycle (Leads (targetsOf g.nodes)))

include hacyclic

/-- The links that leave a node are grounded if it has a declared number or is asked for no parts. -/
lemma isGrounded_of_targets : ∀ n ∈ g.nodes,
    ((∃ link ∈ n.outgoing, link.AsksForPart) → (g.declaredNumber? n).isSome) →
      ∀ id ∈ n.linkIds, g.IsGrounded (.link id) := by
  refine induction_of_targets hlinked.nodup_names hacyclic fun n hn ih hpart => ?_
  refine isGrounded_of_mem_linkIds hlinked hshape hn (fun h => ?_) ?_
  · exact isGrounded_of_declaredNumber? hlinked.nodup_names hn (hpart h)
  · intro link hlink hauto m hm htarget
    exact ih m hm link hlink htarget.symm
      (isSome_declaredNumber?_of_auto hshape hn hm hlink hauto htarget)

/-- All nodes and all links are grounded. -/
lemma isGrounded_of_sources : ∀ n ∈ g.nodes,
    g.IsGrounded (.node n.name) ∧ ∀ id ∈ n.linkIds, g.IsGrounded (.link id) := by
  have hdown := isGrounded_of_targets hlinked hshape hacyclic
  refine induction_of_sources hlinked.nodup_names hacyclic fun n hn ih => ?_
  have hnode : g.IsGrounded (.node n.name) := by
    refine isGrounded_of_forall fun next hnext => ?_
    obtain ⟨n', hn', hname, hnumber, id, hid, rfl⟩ := dependsOn_node_iff.mp hnext
    obtain rfl : n' = n := List.inj_on_of_nodup_map hlinked.nodup_names hn' hn hname
    unfold Node.summands at hid
    split at hid
    · next hroot =>
      -- a root that is asked for parts has a declared number
      refine hdown n' hn (fun hpart => ?_) id hid
      exact (hshape.part_supplied n' hn hpart).resolve_right fun h =>
        h.1 (List.isEmpty_iff.mp hroot)
    · obtain ⟨link, hlink, htarget⟩ := (hlinked.mem_incoming_iff n' hn id).mp hid
      obtain ⟨m, hm, hsource, hget⟩ := mem_links_iff.mp hlink
      obtain ⟨hlt, -⟩ := List.getElem?_eq_some_iff.mp hget
      exact (ih m hm link (List.mem_of_getElem? hget) htarget).2 id
        (Node.mem_linkIds_iff.mpr ⟨hsource, hlt⟩)
  refine ⟨hnode, isGrounded_of_mem_linkIds hlinked hshape hn (fun _ => hnode) ?_⟩
  intro link hlink hauto m hm htarget
  exact hdown m hm (isSome_declaredNumber?_of_auto hshape hn hm hlink hauto htarget)

/-- In a graph without a cycle that is well shaped, every chain of values ends. -/
theorem isGrounded_of_isWellShaped (item : Item) : g.IsGrounded item := by
  have hall := isGrounded_of_sources hlinked hshape hacyclic
  have hlinks : ∀ {id link}, (id, link) ∈ g.links → g.IsGrounded (.link id) := by
    intro id link hlink
    obtain ⟨n, hn, hsource, hget⟩ := mem_links_iff.mp hlink
    obtain ⟨hlt, -⟩ := List.getElem?_eq_some_iff.mp hget
    exact (hall n hn).2 id (Node.mem_linkIds_iff.mpr ⟨hsource, hlt⟩)
  cases item with
  | node name =>
    refine isGrounded_of_forall fun next hnext => ?_
    obtain ⟨n, hn, rfl, -⟩ := dependsOn_node_iff.mp hnext
    exact (hall n hn).1.inv hnext
  | link id =>
    refine isGrounded_of_forall fun next hnext => ?_
    have hlink : ∃ link, (id, link) ∈ g.links := by
      cases hnext with
      | source hlink => exact ⟨_, hlink⟩
      | sibling hlink => exact ⟨_, hlink⟩
      | onward hlink => exact ⟨_, hlink⟩
      | share hlink => exact ⟨_, hlink⟩
    obtain ⟨link, hlink⟩ := hlink
    exact (hlinks hlink).inv hnext

omit hlinked hshape hacyclic

/-! ## The length of chains -/

/-- Only the values of a graph follow from others. -/
lemma mem_items_of_dependsOn {item next : Item} (h : g.DependsOn item next) : item ∈ g.items := by
  have hnode : ∀ n ∈ g.nodes, Item.node n.name ∈ g.items := fun n hn =>
    List.mem_append_left _ (List.mem_map.mpr ⟨n, hn, rfl⟩)
  have hlink : ∀ {id link}, (id, link) ∈ g.links → Item.link id ∈ g.items := fun {id link} hmem =>
    List.mem_append_right _ (List.mem_map.mpr ⟨(id, link), hmem, rfl⟩)
  cases h with
  | entering hn => exact hnode _ hn
  | leaving hn => exact hnode _ hn
  | source hmem => exact hlink hmem
  | sibling hmem => exact hlink hmem
  | onward hmem => exact hlink hmem
  | share hmem => exact hlink hmem

/-- A chain lists values of the graph, each of which depends on all that come after it. -/
lemma HasChain.exists_list {length : ℕ} {item : Item} (h : g.HasChain length item) :
    ∃ chain : List Item, chain.length = length ∧ (∀ other ∈ chain, other ∈ g.items) ∧
      (∀ other ∈ chain, Relation.ReflTransGen g.DependsOn item other) ∧
      chain.Pairwise (Relation.TransGen g.DependsOn) := by
  induction h with
  | start item => exact ⟨[], rfl, by simp, by simp, .nil⟩
  | @step _ item next hfirst _ ih =>
    obtain ⟨chain, rfl, hitems, hreach, hpairwise⟩ := ih
    have hlater : ∀ other ∈ chain, Relation.TransGen g.DependsOn item other := fun other hother =>
      .head' hfirst (hreach other hother)
    refine ⟨item :: chain, rfl, ?_, ?_, .cons hlater hpairwise⟩
    · rw [List.forall_mem_cons]
      exact ⟨mem_items_of_dependsOn hfirst, hitems⟩
    · rw [List.forall_mem_cons]
      exact ⟨.refl, fun other hother => (hlater other hother).to_reflTransGen⟩

/-- Where all chains end, no value depends on itself, on whatever way. -/
lemma not_transGen_of_isGrounded (hgrounded : ∀ item, g.IsGrounded item) (item : Item) :
    ¬Relation.TransGen g.DependsOn item item := by
  intro h
  have hwell : WellFounded (Relation.TransGen (Function.swap g.DependsOn)) :=
    (WellFounded.intro hgrounded).transGen
  apply hwell.irrefl.irrefl item
  rw [Relation.transGen_swap]
  exact h

/-- Where all chains end, none goes on for more steps than the graph has values. -/
lemma HasChain.le_valueCount (hgrounded : ∀ item, g.IsGrounded item) {length : ℕ} {item : Item}
    (h : g.HasChain length item) : length ≤ g.valueCount := by
  obtain ⟨chain, rfl, hitems, -, hpairwise⟩ := h.exists_list
  have hnodup : chain.Nodup := by
    apply hpairwise.imp
    rintro first _ hdepends rfl
    exact not_transGen_of_isGrounded hgrounded first hdepends
  rw [← g.length_items]
  exact (hnodup.subperm hitems).length_le

/-! ## Questions on a stack -/

/-- A question goes too deep only if one of the values that it reads does. -/
lemma exists_tooDeep_of_answer {r : Registry} {room : ℕ} {q : Query}
    (h : q.answer (g.networkOn room) r = .error .tooDeep) :
    ∃ item ∈ q.items g, (g.networkOn room).settled r item = .error .tooDeep := by
  cases q with
  | node name => exact ⟨_, List.mem_singleton_self _, h⟩
  | link id => exact ⟨_, List.mem_singleton_self _, h⟩
  | outgoing name =>
    unfold Query.answer at h
    dsimp only at h
    split at h
    · next n hfound =>
      have hitems : (Query.outgoing name).items g = n.linkIds.map Item.link :=
        congrArg (fun found : Option Node => (found.elim [] Node.linkIds).map Item.link) hfound
      rw [hitems]
      rcases Outcome.bind_eq_error_iff.mp h with hsum | ⟨total, -, hpure⟩
      · obtain ⟨id, hid, hdeep⟩ := exists_tooDeep_of_sumLinks_eq_tooDeep hsum
        exact ⟨.link id, List.mem_map_of_mem hid, hdeep⟩
      · cases hpure
    · cases h

/-- **Well-shaped sheets resolve.**  In a graph that is built, that is well shaped and in which no
link asks for a plugin, no chain of values goes on for more steps than the graph has values. A question goes
too deep, at whatever time it is asked and on a stack with whatever room, only if it reads a value from
which a chain of more values goes on than there is room for; so it never does where there is room for more
values than the graph has. -/
theorem chain_of_tooDeep_of_isWellShaped {s : Settings} {ds : List Datum} {gs : List Graph}
    (hgs : buildGraphs s ds = .ok gs) (hg : g ∈ gs)
    (hplain : ∀ entry ∈ g.links, classify entry.2.value ≠ .plugin) (hshape : g.IsWellShaped) :
    (∀ length item, g.HasChain length item → length ≤ g.valueCount) ∧
      ∀ (room : ℕ) (r : Registry) (q : Query) (answer : Except Failure Datum),
        g.YieldsOn room r (q.read (g.networkOn room)) answer →
          (answer = .error .tooDeep → ∃ item ∈ q.items g, g.HasChain room item) ∧
            (g.valueCount < room → answer ≠ .error .tooDeep) := by
  have hlinked := isLinked_of_buildGraphs hgs hg
  have hresolver := isSome_resolver_of_buildGraphs hgs hg
  have hbounded : ∀ length item, g.HasChain length item → length ≤ g.valueCount := fun _ _ hchain =>
    hchain.le_valueCount
      (isGrounded_of_isWellShaped hlinked hshape (not_hasCycle_of_buildGraphs hgs g hg))
  refine ⟨hbounded, fun room r q answer h => ?_⟩
  have hr : r.IsPureFor g.network := isPureFor_of_plain r hplain
  have hchain : answer = .error .tooDeep → ∃ item ∈ q.items g, g.HasChain room item := by
    rintro rfl
    have hdeep := (h.between hr (q.between_networkOn hr room)).1.eq_tooDeep
    obtain ⟨item, hitem, hdeep⟩ := exists_tooDeep_of_answer hdeep
    rw [settled_networkOn] at hdeep
    exact ⟨item, hitem, hasChain_of_valueAt_eq_tooDeep hlinked hresolver hplain hdeep⟩
  refine ⟨hchain, fun hroom hanswer => ?_⟩
  obtain ⟨item, -, hlong⟩ := hchain hanswer
  exact absurd (hbounded room item hlong) (Nat.not_le_of_lt hroom)

/-- A sheet that asks for a rest, for a percentage and for what is passed on, each more than once. -/
def braidedSheet : List Datum :=
  [.map [(.text "name", .text "Well"), (.text "value", .int 100),
      (.text "links", .list [
        .map [(.text "to", .text "Pump"), (.text "value", .text "rest")],
        .map [(.text "to", .text "Pond"), (.text "value", .text "30%")],
        .map [(.text "to", .text "Mill"), (.text "value", .text "auto")]])],
    .map [(.text "name", .text "Pump"),
      (.text "links", .list [
        .map [(.text "to", .text "Pond"), (.text "value", .text "50%")],
        .map [(.text "to", .text "Sea"), (.text "value", .text "rest")]])],
    .map [(.text "name", .text "Mill"),
      (.text "links", .list [
        .map [(.text "to", .text "Lake"), (.text "value", .text "auto")]])],
    .map [(.text "name", .text "Lake"),
      (.text "links", .list [.map [(.text "to", .text "Sea"), (.text "value", .int 7)]])]]

/-- In the braided sheet the pump passes on all that it has, and no question goes too deep on a stack with
room for all values. -/
theorem ne_tooDeep_braidedSheet :
    ∃ gs g, buildGraphs {} braidedSheet = .ok gs ∧ g ∈ gs ∧
      (∀ entry ∈ g.links, classify entry.2.value ≠ .plugin) ∧ g.IsWellShaped ∧ g.valueCount < 20 ∧
      g.YieldsOn 20 {} ((Query.outgoing "Pump").read (g.networkOn 20)) (.ok (.int 63)) ∧
      ∀ (q : Query) (answer : Except Failure Datum),
        g.YieldsOn 20 {} (q.read (g.networkOn 20)) answer → answer ≠ .error .tooDeep := by
  have hran : ((buildGraphs {} braidedSheet).toOption.bind fun gs => gs.head?.map fun g =>
      (g.links.all fun entry => decide (classify entry.2.value ≠ .plugin), decide g.IsWellShaped,
        decide (g.valueCount < 20),
        wholeOutcome? (Read.runFresh ((Query.outgoing "Pump").read (g.networkOn 20)) {}).1)) =
      some (true, true, true, some 63) := by
    decide +kernel
  obtain ⟨gs, g, hbuilt, hmem, hfacts⟩ := exists_graph_of_head? hran
  simp only [Prod.mk.injEq, List.all_eq_true, decide_eq_true_eq] at hfacts
  obtain ⟨hplain, hshape, hroom, hpump⟩ := hfacts
  refine ⟨gs, g, hbuilt, hmem, hplain, hshape, hroom, Or.inl (eq_ok_int_of_wholeOutcome? hpump), ?_⟩
  intro q answer h
  exact ((chain_of_tooDeep_of_isWellShaped hbuilt hmem hplain hshape).2 20 {} q answer h).2 hroom

/-- On a stack with room for a part of a cascade the last node goes too deep, although the cascade is well
shaped. -/
theorem tooDeep_cascadeSheet :
    ∃ gs g, buildGraphs {} (cascadeSheet 9) = .ok gs ∧ g ∈ gs ∧
      (∀ entry ∈ g.links, classify entry.2.value ≠ .plugin) ∧ g.IsWellShaped ∧
      g.YieldsOn 12 {} ((Query.node "9").read (g.networkOn 12)) (.error .tooDeep) := by
  have hran : ((buildGraphs {} (cascadeSheet 9)).toOption.bind fun gs => gs.head?.map fun g =>
      (g.links.all fun entry => decide (classify entry.2.value ≠ .plugin), decide g.IsWellShaped,
        (Read.runFresh ((Query.node "9").read (g.networkOn 12)) {}).1.map Datum.number?)) =
      some (true, true, .error .tooDeep) := by
    decide +kernel
  obtain ⟨gs, g, hbuilt, hmem, hfacts⟩ := exists_graph_of_head? hran
  simp only [Prod.mk.injEq, List.all_eq_true, decide_eq_true_eq] at hfacts
  obtain ⟨hplain, hshape, hnode⟩ := hfacts
  exact ⟨gs, g, hbuilt, hmem, hplain, hshape, Or.inl (Outcome.eq_error_of_map hnode)⟩

end Graph

end StockFlow
