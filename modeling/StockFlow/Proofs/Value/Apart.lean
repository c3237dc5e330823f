import StockFlow.Proofs.Sheet.Apart
import StockFlow.Proofs.Value.Flow
import StockFlow.Proofs.Value.Sessions
/-!
# Values in parts of graphs

What is read about a part of a graph has the same outcome in the graph as in the part, at any time
(`Graph.IsPartOf.yields_iff`): the value of an item follows from items that are reached by links, and no
link leads out of the part. The graph is larger, so its readings may go deeper, but more depth than the
number of values finds out nothing new.

So declarations do not interfere with others that they share no names with
(`buildGraphs_append_of_disjoint`).
-/

namespace StockFlow

/-! ## Items of a part -/

/-- Whether an item is a node of a graph or a place among the links that leave one. -/
def Item.IsIn (g : Graph) : Item → Prop
  | .node name => name ∈ g.nodes.map Node.name
  | .link id => id.source ∈ g.nodes.map Node.name

/-- Whether a question is about a node or a link of a graph. -/
def Query.IsAbout (g : Graph) : Query → Prop
  | .node name => name ∈ g.nodes.map Node.name
  | .outgoing name => name ∈ g.nodes.map Node.name
  | .link id => id ∈ g.links.map Prod.fst

/-- A sum of links only reads these links. -/
lemma sumLinks_congr {read read' : Item → Except Failure Datum} {ids : List LinkId}
    (h : ∀ id ∈ ids, read' (.link id) = read (.link id)) : sumLinks read' ids = sumLinks read ids := by
  unfold sumLinks
  generalize Number.int 0 = start
  induction ids generalizing start with
  | nil => rfl
  | cons id ids ih =>
    obtain ⟨hid, hids⟩ := List.forall_mem_cons.mp h
    rw [List.foldlM_cons, List.foldlM_cons, hid]
    exact bind_congr fun total => ih hids total

namespace Graph.IsPartOf

variable {part whole : Graph} (h : part.IsPartOf whole) {id : LinkId} {n : Node}

/-- The links that leave a node of a part are in the part. -/
lemma isIn_of_mem_linkIds (hn : n ∈ part.nodes) (hid : id ∈ n.linkIds) : (Item.link id).IsIn part := by
  change id.source ∈ part.nodes.map Node.name
  rw [(Node.mem_linkIds_iff.mp hid).1]
  exact List.mem_map_of_mem hn

/-- Nodes that are found from a link are nodes of the graph. -/
lemma mem_of_nodeAt?_eq_some {g : Graph} {place : Place} (hn : g.network.nodeAt? id place = some n) :
    n ∈ g.nodes := by
  have hfound : ∃ name, g.node? name = some n := by
    cases place with
    | source => exact ⟨_, hn⟩
    | target =>
      obtain ⟨link, -, hn⟩ := Option.bind_eq_some_iff.mp hn
      exact ⟨_, hn⟩
    | sourceOf place position =>
      obtain ⟨m, -, hn⟩ := Option.bind_eq_some_iff.mp hn
      obtain ⟨entering, -, hn⟩ := Option.bind_eq_some_iff.mp hn
      exact ⟨_, hn⟩
    | targetOf place position =>
      obtain ⟨m, -, hn⟩ := Option.bind_eq_some_iff.mp hn
      obtain ⟨leaving, -, hn⟩ := Option.bind_eq_some_iff.mp hn
      exact ⟨_, hn⟩
  obtain ⟨name, hname⟩ := hfound
  exact List.mem_of_find?_eq_some hname

include h

/-- What is found from a link of a part is found in the part. -/
lemma nodeAt?_eq (hid : (Item.link id).IsIn part) (place : Place) :
    whole.network.nodeAt? id place = part.network.nodeAt? id place := by
  induction place with
  | source => exact h.node?_eq hid
  | target =>
    change (whole.link? id).bind (fun link => whole.node? link.target) =
      (part.link? id).bind fun link => part.node? link.target
    rw [h.link?_eq hid]
    refine Option.bind_congr fun link hlink => h.node?_eq ?_
    obtain ⟨n, hn, -, hget⟩ :=
      mem_links_iff.mp ((link?_eq_some_iff h.linked_part.nodup_names).mp hlink)
    exact h.linked_part.target_mem n hn link (List.mem_of_getElem? hget)
  | sourceOf place position ih =>
    simp only [Network.nodeAt?]
    rw [ih]
    refine Option.bind_congr fun n hn => Option.bind_congr fun entering hentering => h.node?_eq ?_
    exact h.source_mem (mem_of_nodeAt?_eq_some hn) (List.mem_of_getElem? hentering)
  | targetOf place position ih =>
    simp only [Network.nodeAt?]
    rw [ih]
    refine Option.bind_congr fun n hn => Option.bind_congr fun leaving hleaving => h.node?_eq ?_
    exact h.linked_part.target_mem n (mem_of_nodeAt?_eq_some hn) leaving
      (List.mem_of_getElem? hleaving)

section Steps

variable {read read' : Item → Except Failure Datum}
variable (hread : ∀ item : Item, item.IsIn part → read' item = read item)

include hread

/-- Scripts read the same from a link of a part. -/
lemma probe_eq (hid : (Item.link id).IsIn part) :
    whole.network.probe read' id = part.network.probe read id := by
  funext p
  cases p with
  | value place =>
    simp only [Network.probe, h.nodeAt?_eq hid]
    cases hn : part.network.nodeAt? id place with
    | none => rfl
    | some n => exact hread _ (List.mem_map_of_mem (mem_of_nodeAt?_eq_some hn))
  | outgoingValue place =>
    simp only [Network.probe, h.nodeAt?_eq hid]
    cases hn : part.network.nodeAt? id place with
    | none => rfl
    | some n =>
      dsimp only
      rw [sumLinks_congr fun other hother =>
        hread _ (isIn_of_mem_linkIds (mem_of_nodeAt?_eq_some hn) hother)]
  | incomingCount place => simp only [Network.probe, h.nodeAt?_eq hid]
  | outgoingCount place => simp only [Network.probe, h.nodeAt?_eq hid]
  | incomingLink place position =>
    simp only [Network.probe, h.nodeAt?_eq hid]
    cases hentering : (part.network.nodeAt? id place).bind fun n => n.incoming[position]? with
    | none => rfl
    | some entering =>
      obtain ⟨n, hn, hget⟩ := Option.bind_eq_some_iff.mp hentering
      exact hread _ (h.source_mem (mem_of_nodeAt?_eq_some hn) (List.mem_of_getElem? hget))
  | outgoingLink place position =>
    simp only [Network.probe, h.nodeAt?_eq hid]
    cases hleaving : (part.network.nodeAt? id place).bind fun n => n.linkIds[position]? with
    | none => rfl
    | some leaving =>
      obtain ⟨n, hn, hget⟩ := Option.bind_eq_some_iff.mp hleaving
      exact hread _ (isIn_of_mem_linkIds (mem_of_nodeAt?_eq_some hn) (List.mem_of_getElem? hget))

/-- The value of a node of a part follows from items of the part. -/
lemma nodeStep_eq {name : Text} (hname : (Item.node name).IsIn part) :
    whole.network.nodeStep read' name = part.network.nodeStep read name := by
  have hnode : whole.network.node? name = part.network.node? name := h.node?_eq hname
  have hresolver : whole.network.resolver? name = part.network.resolver? name := h.resolver_eq.symm
  unfold Network.nodeStep
  rw [hnode, hresolver]
  cases hn : part.network.node? name with
  | none => rfl
  | some n =>
    have hmem : n ∈ part.nodes := List.mem_of_find?_eq_some hn
    have hsum : sumLinks read' (if n.incoming.isEmpty then n.linkIds else n.incoming) =
        sumLinks read (if n.incoming.isEmpty then n.linkIds else n.incoming) := by
      refine sumLinks_congr fun other hother => hread _ ?_
      split at hother
      · exact isIn_of_mem_linkIds hmem hother
      · exact h.source_mem hmem hother
    cases part.network.resolver? name with
    | none => rfl
    | some resolver =>
      dsimp only
      rw [hsum]

/-- The value of a link of a part follows from items of the part. -/
lemma linkStep_eq (r : Registry) (hid : (Item.link id).IsIn part) :
    whole.network.linkStep r.answer read' id = part.network.linkStep r.answer read id := by
  have hnode : whole.network.node? id.source = part.network.node? id.source := h.node?_eq hid
  have hlink? : whole.network.link? id = part.network.link? id := h.link?_eq hid
  rw [Network.linkStep_eq, Network.linkStep_eq, hnode, hlink?]
  cases hsource : part.network.node? id.source with
  | none => rfl
  | some source =>
    have hmem : source ∈ part.nodes := List.mem_of_find?_eq_some hsource
    have hown : read' (.node source.name) = read (.node source.name) :=
      hread _ (List.mem_map_of_mem hmem)
    cases hlink : part.network.link? id with
    | none => rfl
    | some link =>
      dsimp only
      cases link.demand with
      | constant value => rfl
      | answer params =>
        dsimp only
        rw [h.probe_eq hread hid]
      | rest =>
        dsimp only
        rw [hown, sumLinks_congr fun other hother =>
          hread _ (isIn_of_mem_linkIds hmem (List.mem_of_mem_filter hother))]
      | onward =>
        obtain ⟨n, hn, -, hget⟩ := mem_links_iff.mp (mem_links_of_link?_eq_some hlink)
        have htarget : whole.network.node? link.target = part.network.node? link.target :=
          h.node?_eq (h.linked_part.target_mem n hn link (List.mem_of_getElem? hget))
        dsimp only
        rw [htarget]
        cases hfound : part.network.node? link.target with
        | none => rfl
        | some target =>
          dsimp only
          rw [sumLinks_congr fun other hother =>
            hread _ (isIn_of_mem_linkIds (List.mem_of_find?_eq_some hfound) hother)]
      | share percentage =>
        dsimp only
        rw [hown]

end Steps

/-- To any depth an item of a part is worth the same in the part. -/
lemma valueAt_eq (r : Registry) (depth : Nat) {item : Item} (hitem : item.IsIn part) :
    whole.network.valueAt r depth item = part.network.valueAt r depth item := by
  induction depth generalizing item with
  | zero => rfl
  | succ depth ih =>
    have hresolver : whole.network.itemResolver? item = part.network.itemResolver? item := by
      cases item <;> exact h.resolver_eq.symm
    have hdetached : whole.network.detached item = part.network.detached item := by
      cases item with
      | node name => rfl
      | link id =>
        have hlink? : whole.network.link? id = part.network.link? id := h.link?_eq hitem
        unfold Network.detached
        dsimp only
        rw [hlink?]
    have hstep : whole.network.step r.answer (whole.network.valueAt r depth) item =
        part.network.step r.answer (part.network.valueAt r depth) item := by
      cases item with
      | node name => exact h.nodeStep_eq (fun _ => ih) hitem
      | link id => exact h.linkStep_eq (fun _ => ih) r hitem
    rw [Network.valueAt, Network.valueAt, hresolver, hdetached, hstep]

/-- An item of a part is worth the same in the part. -/
lemma settled_eq {r : Registry} (hr : r.IsPure) {item : Item} (hitem : item.IsIn part) :
    whole.network.settled r item = part.network.settled r item := by
  have hdeep : ∀ g : Graph, ∀ depth, g.network.room ≤ depth →
      g.network.settled r = g.network.valueAt r depth := fun g _ hdepth =>
    (Network.valueAt_of_room_le (hr.isPureFor g.network) g.hasItems hdepth).symm
  rw [hdeep whole (whole.network.room + part.network.room) (by omega),
    hdeep part (whole.network.room + part.network.room) (by omega), h.valueAt_eq r _ hitem]

/-- A question about a part has the same answer in the part. -/
lemma answer_eq {r : Registry} (hr : r.IsPure) {q : Query} (hq : q.IsAbout part) :
    q.answer whole.network r = q.answer part.network r := by
  cases q with
  | node name => exact h.settled_eq hr hq
  | outgoing name =>
    have hnode : whole.network.node? name = part.network.node? name := h.node?_eq hq
    simp only [Query.answer, hnode]
    cases hn : part.network.node? name with
    | none => rfl
    | some n =>
      dsimp only
      rw [sumLinks_congr fun other hother =>
        h.settled_eq hr (isIn_of_mem_linkIds (List.mem_of_find?_eq_some hn) hother)]
  | link id =>
    obtain ⟨⟨other, link⟩, hlink, rfl⟩ := List.mem_map.mp hq
    obtain ⟨n, hn, hname, -⟩ := mem_links_iff.mp hlink
    have hid : (Item.link other).IsIn part := by
      change other.source ∈ part.nodes.map Node.name
      exact hname ▸ List.mem_map_of_mem hn
    exact h.settled_eq hr hid

/-- With pure plugins, what is read about a part has the same outcome in the part, at any time. -/
theorem yields_iff {r : Registry} (hr : r.IsPure) {q : Query} (hq : q.IsAbout part)
    {answer : Except Failure Datum} :
    whole.Yields r (q.read whole.network) answer ↔ part.Yields r (q.read part.network) answer := by
  rw [yields_read_iff hr, yields_read_iff hr, h.answer_eq hr hq]

end Graph.IsPartOf

/-! ## Sheets that share no names -/

/-- A graph that shows in a larger one as it is: its nodes are found there with all that they have, its
links are found there and have their colours, and with pure plugins every question about it has the
same answers at any time. -/
structure Graph.IsUndisturbedIn (part whole : Graph) : Prop where
  node?_eq : ∀ n ∈ part.nodes, whole.node? n.name = some n
  link?_eq : ∀ id link, (id, link) ∈ part.links → whole.link? id = some link
  linkColor_eq : ∀ id link, (id, link) ∈ part.links →
    whole.linkColor id link = part.linkColor id link
  yields_iff : ∀ r : Registry, r.IsPure → ∀ q : Query, q.IsAbout part → ∀ answer,
    whole.Yields r (q.read whole.network) answer ↔ part.Yields r (q.read part.network) answer

/-- A part of a graph shows in it as it is. -/
lemma Graph.IsPartOf.isUndisturbedIn {part whole : Graph} (h : part.IsPartOf whole) :
    part.IsUndisturbedIn whole where
  node?_eq n hn := (node?_eq_some_iff h.linked_whole.nodup_names).mpr ⟨h.nodes_subset hn, rfl⟩
  link?_eq id link hlink := by
    obtain ⟨n, hn, hname, -⟩ := mem_links_iff.mp hlink
    have hsource : id.source ∈ part.nodes.map Node.name := hname ▸ List.mem_map_of_mem hn
    rw [h.link?_eq hsource]
    exact (link?_eq_some_iff h.linked_part.nodup_names).mpr hlink
  linkColor_eq _ _ hlink := h.linkColor_eq hlink
  yields_iff _ hr _ hq _ := h.yields_iff hr hq

/-- **Unrelated declarations do not interfere.**  Let two lists of declarations without alternatives
share no names, neither declared ones nor targets, and let each of them be built on its own. Then both
together are built: the nodes of the one graph stand before those of the other, every node has the same
declared data, links, parent and colour, and every question about values has the same answers. -/
theorem buildGraphs_append_of_disjoint {s : Settings} {ds₁ ds₂ : List Datum} {gs₁ gs₂ : List Graph}
    (hsingle : ∀ d ∈ ds₁ ++ ds₂, Builder.alternativesOf d = none)
    (hdisjoint : (mentionedNames ds₁).Disjoint (mentionedNames ds₂))
    (h₁ : buildGraphs s ds₁ = .ok gs₁) (h₂ : buildGraphs s ds₂ = .ok gs₂) :
    ∃ g₁ g₂ g, gs₁ = [g₁] ∧ gs₂ = [g₂] ∧ buildGraphs s (ds₁ ++ ds₂) = .ok [g] ∧
      g.nodes = g₁.nodes ++ g₂.nodes ∧ g₁.IsUndisturbedIn g ∧ g₂.IsUndisturbedIn g := by
  obtain ⟨g₁, g₂, g, hgs₁, hgs₂, hg, hnodes, hpart₁, hpart₂⟩ :=
    exists_buildGraphs_append hsingle hdisjoint h₁ h₂
  exact ⟨g₁, g₂, g, hgs₁, hgs₂, hg, hnodes, hpart₁.isUndisturbedIn, hpart₂.isUndisturbedIn⟩

/-- A sheet of two stocks, one of them only known as a target. -/
def tarnSheet : List Datum :=
  [.map [(.text "name", .text "Tarn"), (.text "value", .int 10),
    (.text "links", .list [.map [(.text "to", .text "Beck"), (.text "value", .text "rest")]])]]

/-- A sheet of three stocks, in which a plugin decides about one link. -/
def moorSheet : List Datum :=
  [.map [(.text "name", .text "Moor"), (.text "value", .int 4), (.text "color", .text "brown"),
    (.text "links", .list [
      .map [(.text "to", .text "Fen"),
        (.text "value", .map [(.text "plugin", .text "share"), (.text "of", .int 3)])],
      .map [(.text "to", .text "Bog"), (.text "value", .text "rest")]])]]

/-- The tarn and the moor have one graph. The stocks that are only known as targets stand with their own
sheets, and the fen has what it has on the moor alone. -/
theorem buildGraphs_append_tarnSheet_moorSheet :
    (mentionedNames tarnSheet).Disjoint (mentionedNames moorSheet) ∧ shareRegistry.IsPure ∧
      ∃ g, buildGraphs {} (tarnSheet ++ moorSheet) = .ok [g] ∧
        g.nodes.map Node.name = ["Tarn", "Beck", "Moor", "Fen", "Bog"] ∧
        (∃ n, g.node? "Fen" = some n ∧ n.color.display? = some "brown" ∧ n.parent? = some "Moor") ∧
        g.Yields shareRegistry ((Query.node "Fen").read g.network) (.ok (.int 12)) := by
  have hsingle : ∀ d ∈ tarnSheet ++ moorSheet, Builder.alternativesOf d = none := by decide +kernel
  have hapart : ∀ name ∈ mentionedNames tarnSheet, name ∉ mentionedNames moorSheet := by
    decide +kernel
  have hdisjoint : (mentionedNames tarnSheet).Disjoint (mentionedNames moorSheet) :=
    fun name hname hname' => hapart name hname hname'
  have hpure : shareRegistry.IsPure := isPure_shareRegistry
  have htarn : ((buildGraphs {} tarnSheet).toOption.bind fun gs => gs.head?.map fun g =>
      g.nodes.map Node.name) = some (["Tarn", "Beck"] : List Text) := by
    decide +kernel
  have hmoor : ((buildGraphs {} moorSheet).toOption.bind fun gs => gs.head?.map fun g =>
      (g.nodes.map Node.name,
        decide ((g.node? "Fen").map (fun n => (n.color.display?, n.parent?)) =
          some (some ("brown" : Text), some ("Moor" : Text))),
        decide (Graph.wholeOutcome?
          (Read.runFresh (g.network.read (.node "Fen")) shareRegistry).1 = some 12))) =
      some ((["Moor", "Fen", "Bog"] : List Text), true, true) := by
    decide +kernel
  obtain ⟨gs₁, tarn, hgs₁, htarnMem, htarnNames⟩ := exists_graph_of_head? htarn
  obtain ⟨gs₂, moor, hgs₂, hmoorMem, hmoorFacts⟩ := exists_graph_of_head? hmoor
  obtain ⟨g₁, g₂, g, rfl, rfl, hg, hnodes, -, hmoorShown⟩ :=
    buildGraphs_append_of_disjoint hsingle hdisjoint hgs₁ hgs₂
  obtain rfl := List.mem_singleton.mp htarnMem
  obtain rfl := List.mem_singleton.mp hmoorMem
  simp only [Prod.mk.injEq, decide_eq_true_eq] at hmoorFacts
  obtain ⟨hmoorNames, hfen, hvalue⟩ := hmoorFacts
  obtain ⟨n, hn, hfen⟩ := Option.map_eq_some_iff.mp hfen
  have hname : n.name = "Fen" := by simpa using List.find?_some hn
  have hmem : n ∈ moor.nodes := List.mem_of_find?_eq_some hn
  have habout : (Query.node "Fen").IsAbout moor := by
    change ("Fen" : Text) ∈ moor.nodes.map Node.name
    exact hname ▸ List.mem_map_of_mem hmem
  refine ⟨hdisjoint, hpure, g, hg, ?_, ⟨n, ?_, ?_⟩, ?_⟩
  · rw [hnodes, List.map_append, htarnNames, hmoorNames]
    rfl
  · rw [← hname]
    exact hmoorShown.node?_eq n hmem
  · simpa using hfen
  · rw [hmoorShown.yields_iff _ hpure _ habout]
    unfold Graph.wholeOutcome? at hvalue
    split at hvalue
    · next outcome hrun =>
      rw [← Option.some.inj hvalue]
      exact Or.inl hrun
    · cases hvalue

end StockFlow
