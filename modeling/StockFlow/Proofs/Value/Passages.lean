import Mathlib
import StockFlow.Proofs.Sheet.Cycles
import StockFlow.Proofs.Value.Flow
import StockFlow.Proofs.Value.Grounded
/-!
# What links pass on

A link for what its target passes on asks the links that leave the target, and where these ask on, the
links after them. In a graph without cycles this ends in links of other kinds, and the value is the
total of their values, of each of them as often as there are ways to it, unless the stack is too small for
the links that ask on or for what they ask (`Graph.yieldsOn_onward`). A way consists of links that ask on
and a last link that does not (`Graph.Passes`); parallel links and nodes with several links entering them
make several ways, and a node without links leaving it ends none.

The induction goes from the targets to the sources (`Graph.exists_passages`). The ways from a node are
told apart by their first links, so they are the disjoint union of those that begin with each link that
leaves the node. What the stack has room for follows the links that ask on, by an induction on the room
(`Graph.isTooSmall_of_valueAt`).
-/

namespace StockFlow

namespace Graph

/-! ## Ways -/

/-- A way from a node: the links through which it goes, all of which ask for what their targets pass
on, and its last link, which asks for something else. -/
inductive Passes (g : Graph) : Text → List LinkId → LinkId → Prop
  | last {name : Text} {id : LinkId} {link : Link} (hlink : (id, link) ∈ g.links)
      (hsource : id.source = name) (hkind : classify link.value ≠ .auto) : Passes g name [] id
  | onward {name : Text} {id : LinkId} {link : Link} {through : List LinkId} {last : LinkId}
      (hlink : (id, link) ∈ g.links) (hsource : id.source = name)
      (hauto : classify link.value = .auto) (hrest : Passes g link.target through last) :
      Passes g name (id :: through) last

/-- The first link of a way. -/
def firstLink (way : List LinkId × LinkId) : LinkId := way.1.headD way.2

variable {g : Graph} {name : Text} {through : List LinkId} {last : LinkId}

/-- A way ends in a link of another kind. -/
lemma Passes.exists_last (h : g.Passes name through last) :
    ∃ link, (last, link) ∈ g.links ∧ classify link.value ≠ .auto := by
  induction h with
  | last hlink _ hkind => exact ⟨_, hlink, hkind⟩
  | onward _ _ _ _ ih => exact ih

/-- A way from a node begins with a link that leaves the node. -/
lemma Passes.exists_firstLink (h : g.Passes name through last) :
    ∃ link, (firstLink (through, last), link) ∈ g.links ∧
      (firstLink (through, last)).source = name := by
  cases h with
  | last hlink hsource _ => exact ⟨_, hlink, hsource⟩
  | onward hlink hsource _ _ => exact ⟨_, hlink, hsource⟩

section Names

variable (hnames : (g.nodes.map Node.name).Nodup) {id : LinkId} {link : Link}

include hnames

/-- A link has only one declaration. -/
lemma eq_of_mem_links {link' : Link} (hlink : (id, link) ∈ g.links) (hlink' : (id, link') ∈ g.links) :
    link = link' := by
  rw [← link?_eq_some_iff hnames] at hlink hlink'
  exact Option.some.inj (hlink.symm.trans hlink')

/-- The only way that begins with a link of another kind is this link. -/
lemma passes_iff_of_ne_auto (hlink : (id, link) ∈ g.links) (hkind : classify link.value ≠ .auto)
    (way : List LinkId × LinkId) :
    g.Passes id.source way.1 way.2 ∧ firstLink way = id ↔ way = ([], id) := by
  constructor
  · rintro ⟨hpasses, hfirst⟩
    obtain ⟨through, last⟩ := way
    cases hpasses with
    | last _ _ _ => exact congrArg (Prod.mk []) hfirst
    | onward hlink' _ hauto _ =>
      obtain rfl : _ = id := hfirst
      exact absurd (eq_of_mem_links hnames hlink' hlink ▸ hauto) hkind
  · rintro rfl
    exact ⟨.last hlink rfl hkind, rfl⟩

/-- The ways that begin with a link that asks on go on with those from its target. -/
lemma passes_iff_of_auto (hlink : (id, link) ∈ g.links) (hauto : classify link.value = .auto)
    (way : List LinkId × LinkId) :
    g.Passes id.source way.1 way.2 ∧ firstLink way = id ↔
      ∃ rest : List LinkId × LinkId, g.Passes link.target rest.1 rest.2 ∧
        (id :: rest.1, rest.2) = way := by
  constructor
  · rintro ⟨hpasses, hfirst⟩
    obtain ⟨through, last⟩ := way
    cases hpasses with
    | last hlink' _ hkind =>
      obtain rfl : last = id := hfirst
      exact absurd (eq_of_mem_links hnames hlink hlink' ▸ hauto) hkind
    | @onward _ first _ through _ hlink' _ _ hrest =>
      obtain rfl : first = id := hfirst
      obtain rfl := eq_of_mem_links hnames hlink hlink'
      exact ⟨(through, last), hrest, rfl⟩
  · rintro ⟨rest, hrest, rfl⟩
    exact ⟨.onward hlink rfl hauto hrest, rfl⟩

end Names

/-! ## Totals over ways -/

section Totals

variable {r : Registry} {value : LinkId → ℤ}

/-- The last links of all ways from a node have whole values. -/
def HasWholeEnds (g : Graph) (r : Registry) (value : LinkId → ℤ) (name : Text) : Prop :=
  ∀ through last, g.Passes name through last →
    ∃ found, g.network.settled r (.link last) = .ok found ∧ found.operand = .ok (.int (value last))

/-- A set of ways holds those that meet a condition, and a link has the total of their ends. -/
structure IsTotal (g : Graph) (r : Registry) (value : LinkId → ℤ) (id : LinkId)
    (ways : Finset (List LinkId × LinkId)) : Prop where
  mem_iff : ∀ way, way ∈ ways ↔ g.Passes id.source way.1 way.2 ∧ firstLink way = id
  settled : ∃ found, g.network.settled r (.link id) = .ok found ∧
    found.operand = .ok (.int (∑ way ∈ ways, value way.2))

/-- If every link that leaves a node has the total of the ways that begin with it, then together they
have the total of the ways from the node. -/
lemma exists_ways_of_isTotal (hnames : (g.nodes.map Node.name).Nodup) {n : Node} (hn : n ∈ g.nodes)
    (h : ∀ id ∈ n.linkIds, ∃ ways, g.IsTotal r value id ways) :
    ∃ ways : Finset (List LinkId × LinkId), (∀ way, way ∈ ways ↔ g.Passes n.name way.1 way.2) ∧
      sumLinks (g.network.settled r) n.linkIds = .ok (.int (∑ way ∈ ways, value way.2)) := by
  choose! ways hways using h
  have hdisjoint : (n.linkIds.toFinset : Set LinkId).PairwiseDisjoint ways := by
    intro id hid id' hid' hne
    refine Finset.disjoint_left.mpr fun way hway hway' => hne ?_
    obtain ⟨-, hfirst⟩ := ((hways id (List.mem_toFinset.mp hid)).mem_iff way).mp hway
    obtain ⟨-, hfirst'⟩ := ((hways id' (List.mem_toFinset.mp hid')).mem_iff way).mp hway'
    exact hfirst.symm.trans hfirst'
  refine ⟨n.linkIds.toFinset.biUnion ways, fun way => ?_, ?_⟩
  · rw [Finset.mem_biUnion]
    constructor
    · rintro ⟨id, hid, hway⟩
      have hid' := List.mem_toFinset.mp hid
      obtain ⟨hpasses, -⟩ := ((hways id hid').mem_iff way).mp hway
      rwa [(Node.mem_linkIds_iff.mp hid').1] at hpasses
    · intro hpasses
      obtain ⟨link, hlink, hsource⟩ := hpasses.exists_firstLink
      have hid : firstLink way ∈ n.linkIds := by
        obtain ⟨m, hm, hname, hget⟩ := mem_links_iff.mp hlink
        obtain rfl : m = n := List.inj_on_of_nodup_map hnames hm hn (hname.symm.trans hsource)
        exact Node.mem_linkIds_iff.mpr ⟨hname, (List.getElem?_eq_some_iff.mp hget).1⟩
      refine ⟨firstLink way, List.mem_toFinset.mpr hid, ?_⟩
      refine ((hways _ hid).mem_iff way).mpr ⟨?_, rfl⟩
      rw [hsource]
      exact hpasses
  · -- the links that leave a node are all different, so their list adds up as their set
    rw [sumLinks_eq_int_of_operand fun id hid => (hways id hid).settled]
    rw [Finset.sum_biUnion hdisjoint, List.sum_toFinset _ n.nodup_linkIds]

/-- A link of another kind has the total of the one way that begins with it. -/
lemma isTotal_of_ne_auto (hnames : (g.nodes.map Node.name).Nodup) {id : LinkId} {link : Link}
    (hlink : (id, link) ∈ g.links) (hkind : classify link.value ≠ .auto)
    (hends : g.HasWholeEnds r value id.source) : g.IsTotal r value id {([], id)} where
  mem_iff way := by rw [Finset.mem_singleton, passes_iff_of_ne_auto hnames hlink hkind]
  settled := by
    rw [Finset.sum_singleton]
    exact hends [] id (.last hlink rfl hkind)

/-- A link that asks on has what the links that leave its target have together. -/
lemma settled_of_auto (hlinked : g.IsLinked) (hresolver : g.resolver.isSome)
    (hr : r.IsPureFor g.network) {id : LinkId} {link : Link} (hlink : (id, link) ∈ g.links)
    (hauto : classify link.value = .auto) {target : Node} (htarget : target ∈ g.nodes)
    (hname : link.target = target.name) {whole : ℤ}
    (hsum : sumLinks (g.network.settled r) target.linkIds = .ok (.int whole)) :
    g.network.settled r (.link id) = .ok (.int whole) := by
  obtain ⟨source, -, -, m, hm, hmname, hstep⟩ := exists_linkStep_eq hlinked hlink
  obtain rfl : m = target :=
    List.inj_on_of_nodup_map hlinked.nodup_names hm htarget (hmname.trans hname)
  rw [settled_eq_step hr hresolver]
  refine (hstep _ _).trans ?_
  rw [Link.demand_eq_onward_iff.mpr hauto]
  dsimp only
  rw [hsum]
  rfl

/-- A link that asks on has the total of the ways from its target. -/
lemma exists_isTotal_of_auto (hlinked : g.IsLinked) (hresolver : g.resolver.isSome)
    (hr : r.IsPureFor g.network) {id : LinkId} {link : Link} (hlink : (id, link) ∈ g.links)
    (hauto : classify link.value = .auto) {target : Node} (htarget : target ∈ g.nodes)
    (hname : link.target = target.name) {ways : Finset (List LinkId × LinkId)}
    (hways : ∀ way, way ∈ ways ↔ g.Passes target.name way.1 way.2)
    (hsum : sumLinks (g.network.settled r) target.linkIds = .ok (.int (∑ way ∈ ways, value way.2))) :
    ∃ ways, g.IsTotal r value id ways := by
  have hinj : Function.Injective fun rest : List LinkId × LinkId => (id :: rest.1, rest.2) := by
    rintro ⟨through, last⟩ ⟨through', last'⟩ heq
    simpa using heq
  refine ⟨ways.map ⟨_, hinj⟩, fun way => ?_, ?_⟩
  · rw [Finset.mem_map, passes_iff_of_auto hlinked.nodup_names hlink hauto]
    refine exists_congr fun rest => and_congr_left fun _ => ?_
    rw [hways, hname]
  · refine ⟨.int (∑ way ∈ ways, value way.2),
      settled_of_auto hlinked hresolver hr hlink hauto htarget hname hsum, ?_⟩
    rw [Finset.sum_map]
    rfl

/-- From every node whose ways end in whole values there are finitely many ways, and the links that
leave it have together the total of their ends. -/
lemma exists_passages (hlinked : g.IsLinked) (hacyclic : ¬HasCycle (Leads (targetsOf g.nodes)))
    (hresolver : g.resolver.isSome) (hr : r.IsPureFor g.network) :
    ∀ n ∈ g.nodes, g.HasWholeEnds r value n.name →
      ∃ ways : Finset (List LinkId × LinkId), (∀ way, way ∈ ways ↔ g.Passes n.name way.1 way.2) ∧
        sumLinks (g.network.settled r) n.linkIds = .ok (.int (∑ way ∈ ways, value way.2)) := by
  have hnames := hlinked.nodup_names
  refine induction_of_targets hnames hacyclic fun n hn ih hends => ?_
  refine exists_ways_of_isTotal hnames hn fun id hid => ?_
  obtain ⟨hsource, hlt⟩ := Node.mem_linkIds_iff.mp hid
  have hget : n.outgoing[id.position]? = some n.outgoing[id.position] := List.getElem?_eq_getElem hlt
  have hlink : (id, n.outgoing[id.position]) ∈ g.links := mem_links_iff.mpr ⟨n, hn, hsource, hget⟩
  have hleaves := List.mem_of_getElem? hget
  rw [← hsource] at hends
  by_cases hauto : classify n.outgoing[id.position].value = .auto
  · obtain ⟨target, htarget, hname⟩ := List.mem_map.mp (hlinked.target_mem n hn _ hleaves)
    obtain ⟨ways, hways, hsum⟩ := ih target htarget _ hleaves hname.symm fun through last hrest =>
      hends _ last (.onward hlink rfl hauto (hname ▸ hrest))
    exact exists_isTotal_of_auto hlinked hresolver hr hlink hauto htarget hname.symm hways hsum
  · exact ⟨_, isTotal_of_ne_auto hnames hlink hauto hends⟩

end Totals

/-! ## Ways on a stack -/

/-- Whether links follow each other from a node, all of which ask for what their targets pass on. -/
inductive AsksOn (g : Graph) : Text → List LinkId → Prop
  | stop (name : Text) : AsksOn g name []
  | onward {name : Text} {id : LinkId} {link : Link} {through : List LinkId} (hlink : (id, link) ∈ g.links)
      (hsource : id.source = name) (hauto : classify link.value = .auto)
      (hrest : AsksOn g link.target through) : AsksOn g name (id :: through)

/-- Whether a stack is too small for a link that asks for what a node passes on: as many links that ask on
follow each other from the node as there is room for, or a way from the node ends in a link that goes too
deep by itself in the room that is left. -/
def IsTooSmall (g : Graph) (r : Registry) (room : ℕ) (name : Text) : Prop :=
  (∃ through, g.AsksOn name through ∧ room ≤ through.length) ∨
    ∃ through last, g.Passes name through last ∧
      (Read.runFresh ((g.networkOn (room - (through.length + 1))).read (.link last)) r).1 =
        .error .tooDeep

section Room

variable {r : Registry} {id : LinkId} {link : Link}

/-- What a link that asks on depends on are the links that leave its target. -/
lemma exists_of_dependsOn_auto (hnames : (g.nodes.map Node.name).Nodup) (hlink : (id, link) ∈ g.links)
    (hauto : classify link.value = .auto) {other : Item} (h : g.DependsOn (.link id) other) :
    ∃ next link', (next, link') ∈ g.links ∧ next.source = link.target ∧ other = .link next := by
  have hkind : ∀ {link'}, (id, link') ∈ g.links → classify link'.value = .auto := fun hlink' =>
    eq_of_mem_links hnames hlink hlink' ▸ hauto
  cases h with
  | source hlink' hrest => simp [hkind hlink'] at hrest
  | sibling hlink' hrest => simp [hkind hlink'] at hrest
  | share hlink' hshare => simp [hkind hlink'] at hshare
  | @onward _ next link' n hlink' _ hn hname hnext =>
    obtain rfl := eq_of_mem_links hnames hlink hlink'
    obtain ⟨hsource, hlt⟩ := Node.mem_linkIds_iff.mp hnext
    refine ⟨next, n.outgoing[next.position], ?_, hsource.trans hname, rfl⟩
    exact mem_links_iff.mpr ⟨n, hn, hsource, List.getElem?_eq_getElem hlt⟩

/-- A link that asks on goes too deep only on a stack that is too small. -/
lemma isTooSmall_of_valueAt (hlinked : g.IsLinked) (hresolver : g.resolver.isSome)
    (hr : r.IsPureFor g.network) {room : ℕ} (hlink : (id, link) ∈ g.links)
    (hauto : classify link.value = .auto)
    (h : g.network.valueAt r room (.link id) = .error .tooDeep) : g.IsTooSmall r room link.target := by
  induction room generalizing id link with
  | zero => exact .inl ⟨[], .stop _, le_rfl⟩
  | succ room ih =>
    rw [valueAt_succ_eq_step hresolver] at h
    obtain ⟨other, hdepends, hdeep⟩ := exists_tooDeep_of_linkStep_eq_tooDeep hlinked hlink (by simp [hauto]) h
    obtain ⟨next, link', hnext, hsource, rfl⟩ :=
      exists_of_dependsOn_auto hlinked.nodup_names hlink hauto hdepends
    by_cases hauto' : classify link'.value = .auto
    · rcases ih hnext hauto' hdeep with ⟨through, hasks, hlong⟩ | ⟨through, last, hpasses, hlast⟩
      · apply Or.inl
        exact ⟨next :: through, .onward hnext hsource hauto' hasks, Nat.succ_le_succ hlong⟩
      · apply Or.inr
        refine ⟨next :: through, last, .onward hnext hsource hauto' hpasses, ?_⟩
        rw [List.length_cons, Nat.add_sub_add_right]
        exact hlast
    · apply Or.inr
      refine ⟨[], next, .last hnext hsource hauto', ?_⟩
      rw [runFresh_read_networkOn hr]
      exact hdeep

end Room

/-- **What is passed on is the total downstream.** In a graph that is built, where the plugins that links
ask for are pure, let a link ask for what its target passes on, and let every link of another kind that
ends a way from the target have a whole value on some stack. Then there are finitely many ways, and at any
time the link has the total of the values of their last links, every way counted by itself, or it goes too
deep on a stack that is too small for it. On a stack with room for more values than the graph has the link
has the total. -/
theorem yieldsOn_onward {s : Settings} {ds : List Datum} {gs : List Graph}
    (hgs : buildGraphs s ds = .ok gs) (hg : g ∈ gs) {r : Registry} (hr : r.IsPureFor g.network)
    {id : LinkId} {link : Link} (hlink : (id, link) ∈ g.links) (hauto : classify link.value = .auto)
    {value : LinkId → ℤ} (hends : ∀ through last, g.Passes link.target through last →
      ∃ room found, g.YieldsOn room r ((g.networkOn room).read (.link last)) (.ok found) ∧
        found.operand = .ok (.int (value last))) :
    ∃ ways : Finset (List LinkId × LinkId), (∀ way, way ∈ ways ↔ g.Passes link.target way.1 way.2) ∧
      (∀ room answer, g.YieldsOn room r ((g.networkOn room).read (.link id)) answer →
        answer = .ok (.int (∑ way ∈ ways, value way.2)) ∨
          answer = .error .tooDeep ∧ g.IsTooSmall r room link.target) ∧
      ∀ room answer, g.valueCount < room →
        (g.YieldsOn room r ((g.networkOn room).read (.link id)) answer ↔
          answer = .ok (.int (∑ way ∈ ways, value way.2))) := by
  have hlinked := isLinked_of_buildGraphs hgs hg
  have hresolver := isSome_resolver_of_buildGraphs hgs hg
  obtain ⟨source, hsource, -, hget⟩ := mem_links_iff.mp hlink
  obtain ⟨target, htarget, hname⟩ := List.mem_map.mp
    (hlinked.target_mem source hsource link (List.mem_of_getElem? hget))
  have hwhole : g.HasWholeEnds r value target.name := by
    intro through last hpasses
    rw [hname] at hpasses
    obtain ⟨room, found, hfound, hoperand⟩ := hends through last hpasses
    exact ⟨found, (hfound.between_item hr).2.eq_of_ok, hoperand⟩
  obtain ⟨ways, hways, hsum⟩ := exists_passages hlinked (not_hasCycle_of_buildGraphs hgs g hg)
    hresolver hr target htarget hwhole
  have hsettled := settled_of_auto hlinked hresolver hr hlink hauto htarget hname.symm hsum
  refine ⟨ways, fun way => hname ▸ hways way, fun room answer h => ?_, fun room answer hroom => ?_⟩
  · obtain ⟨hlow, hhigh⟩ := h.between_item hr
    rw [hsettled] at hhigh
    rcases hhigh with rfl | rfl
    · have hdeep := hlow.eq_tooDeep
      rw [settled_networkOn] at hdeep
      exact .inr ⟨rfl, isTooSmall_of_valueAt hlinked hresolver hr hlink hauto hdeep⟩
    · exact .inl rfl
  · have henough := settled_networkOn_of_lt hr hroom (.link id)
    rw [← hsettled]
    constructor
    · intro h
      obtain ⟨hlow, hhigh⟩ := h.between_item hr
      rw [henough] at hlow
      exact hhigh.antisymm hlow
    · rintro rfl
      rw [← henough, settled_networkOn]
      exact .inl (runFresh_read_networkOn hr room (.link id))

/-- A sheet in which two links lead the same way, the ways part again after them, and some of them end
in a node without links. -/
def canalSheet : List Datum :=
  [.map [(.text "name", .text "Spring"),
      (.text "links", .list [.map [(.text "to", .text "Lake"), (.text "value", .text "auto")]])],
    .map [(.text "name", .text "Lake"),
      (.text "links", .list [
        .map [(.text "to", .text "Canal"), (.text "value", .text "auto")],
        .map [(.text "to", .text "Canal"), (.text "value", .text "auto")],
        .map [(.text "to", .text "Sea"), (.text "value", .int 5)]])],
    .map [(.text "name", .text "Canal"), (.text "value", .int 20),
      (.text "links", .list [
        .map [(.text "to", .text "Mill"), (.text "value", .text "auto")],
        .map [(.text "to", .text "Sea"), (.text "value", .text "rest")],
        .map [(.text "to", .text "Sea"), (.text "value", .text "30%")]])],
    .map [(.text "name", .text "Mill"),
      (.text "links", .list [
        .map [(.text "to", .text "Sea"), (.text "value", .text " 3 ")],
        .map [(.text "to", .text "Town"), (.text "value", .text "auto")]])]]

/-- The spring passes on what the lake does: twice what the canal does, which is its whole value, and
five. -/
theorem yieldsOn_onward_canalSheet :
    ∃ gs g id link, ∃ value : LinkId → ℤ, ∃ ways : Finset (List LinkId × LinkId),
      buildGraphs {} canalSheet = .ok gs ∧ g ∈ gs ∧ (id, link) ∈ g.links ∧
      classify link.value = .auto ∧ (∀ way, way ∈ ways ↔ g.Passes link.target way.1 way.2) ∧
      ∑ way ∈ ways, value way.2 = 45 ∧ g.valueCount < 16 ∧
      ∀ answer, g.YieldsOn 16 shareRegistry ((g.networkOn 16).read (.link id)) answer ↔
        answer = .ok (.int 45) := by
  have hran : ((buildGraphs {} canalSheet).toOption.bind fun gs => gs.head?.map fun g =>
      ((g.link? ⟨"Spring", 0⟩).map fun link => decide (classify link.value = .auto),
        g.wholeValue? 16 shareRegistry (.link ⟨"Spring", 0⟩),
        g.links.all fun entry => (g.wholeValue? 16 shareRegistry (.link entry.1)).isSome,
        decide (g.valueCount < 16))) =
      some (some true, some 45, true, true) := by
    decide +kernel
  obtain ⟨gs, g, hbuilt, hmem, hfacts⟩ := exists_graph_of_head? hran
  simp only [Prod.mk.injEq, List.all_eq_true, decide_eq_true_eq] at hfacts
  obtain ⟨hauto, htotal, hwhole, hroom⟩ := hfacts
  obtain ⟨link, hlink, hauto⟩ := Option.map_eq_some_iff.mp hauto
  have hmemLink : ((⟨"Spring", 0⟩ : LinkId), link) ∈ g.links :=
    (link?_eq_some_iff (isLinked_of_buildGraphs hbuilt hmem).nodup_names).mp hlink
  have hends : ∀ through last, g.Passes link.target through last →
      ∃ room found, g.YieldsOn room shareRegistry ((g.networkOn room).read (.link last)) (.ok found) ∧
        found.operand = .ok (.int ((g.wholeValue? 16 shareRegistry (.link last)).getD 0)) := by
    intro through last hpasses
    obtain ⟨link', hlink', -⟩ := hpasses.exists_last
    obtain ⟨n, hn⟩ := Option.isSome_iff_exists.mp (hwhole _ hlink')
    rw [hn]
    exact ⟨16, .int n, yieldsOn_of_wholeValue? hn, rfl⟩
  obtain ⟨ways, hways, -, hyields⟩ := yieldsOn_onward hbuilt hmem (isPure_shareRegistry.isPureFor _)
    hmemLink (of_decide_eq_true hauto) hends
  have hread := (hyields 16 _ hroom).mp (yieldsOn_of_wholeValue? htotal)
  have hsum := Atom.int.inj (Datum.atom.inj (Except.ok.inj hread))
  refine ⟨gs, g, _, link, fun id => (g.wholeValue? 16 shareRegistry (.link id)).getD 0, ways, hbuilt,
    hmem, hmemLink, of_decide_eq_true hauto, hways, hsum.symm, hroom, fun answer => ?_⟩
  rw [hyields 16 answer hroom, ← hsum]

/-- A sheet of nodes in a row, each of which passes on what the next one does, but for the last two. -/
def aqueductSheet (length : ℕ) : List Datum :=
  (List.range length).map fun i => .map
    [(.text "name", .int i),
      (.text "links", .list [.map [(.text "to", .int (i + 1)),
        (.text "value", if i + 1 = length then .int 5 else .text "auto")]])]

/-- On a stack with room for a part of an aqueduct its first link goes too deep, although the link at its
end has a whole value. -/
theorem tooDeep_aqueductSheet :
    ∃ gs g link, buildGraphs {} (aqueductSheet 9) = .ok gs ∧ g ∈ gs ∧ Registry.IsPure {} ∧
      ((⟨"0", 0⟩ : LinkId), link) ∈ g.links ∧ classify link.value = .auto ∧
      (∀ through last, g.Passes link.target through last →
        g.YieldsOn 5 {} ((g.networkOn 5).read (.link last)) (.ok (.int 5))) ∧
      g.YieldsOn 5 {} ((g.networkOn 5).read (.link ⟨"0", 0⟩)) (.error .tooDeep) := by
  have hran : ((buildGraphs {} (aqueductSheet 9)).toOption.bind fun gs => gs.head?.map fun g =>
      ((g.link? ⟨"0", 0⟩).map fun link => decide (classify link.value = .auto),
        g.links.all fun entry => decide (classify entry.2.value ≠ .auto →
          g.wholeValue? 5 {} (.link entry.1) = some 5),
        (Read.runFresh ((g.networkOn 5).read (.link ⟨"0", 0⟩)) {}).1.map Datum.number?)) =
      some (some true, true, .error .tooDeep) := by
    decide +kernel
  obtain ⟨gs, g, hbuilt, hmem, hfacts⟩ := exists_graph_of_head? hran
  simp only [Prod.mk.injEq, List.all_eq_true, decide_eq_true_eq] at hfacts
  obtain ⟨hauto, hends, hdeep⟩ := hfacts
  obtain ⟨link, hlink, hauto⟩ := Option.map_eq_some_iff.mp hauto
  have hmemLink : ((⟨"0", 0⟩ : LinkId), link) ∈ g.links :=
    (link?_eq_some_iff (isLinked_of_buildGraphs hbuilt hmem).nodup_names).mp hlink
  refine ⟨gs, g, link, hbuilt, hmem, fun p hp => absurd hp List.not_mem_nil, hmemLink,
    of_decide_eq_true hauto, fun through last hpasses => ?_, Or.inl (Outcome.eq_error_of_map hdeep)⟩
  obtain ⟨link', hlink', hkind⟩ := hpasses.exists_last
  exact yieldsOn_of_wholeValue? (hends _ hlink' hkind)

end Graph

end StockFlow
