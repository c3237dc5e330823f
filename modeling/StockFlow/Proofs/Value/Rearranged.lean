import StockFlow.Proofs.Sheet.Rearranged
import StockFlow.Proofs.Value.Dependency
import StockFlow.Proofs.Value.Flow
/-!
# Values in another order of the declarations

Where no name is declared twice, no link asks for a plugin and all declared numbers are whole, every
value of a sheet is a whole number or cannot be read, and the order of the declarations does not matter
for either (`buildGraphs_perm`).

In another order a node has the same links entering it in another one, so that a sum may fail at another
link, and in another way; but it fails in both orders or in none, and whole numbers have one sum. Hence
two readings are only asked to have the same whole number or to fail both (`WholeAlike`), which passes
through every step and, by induction, through every depth.
-/

namespace StockFlow

/-! ## Outcomes that are alike -/

/-- Outcomes that are the same whole number, or both failures. -/
def WholeAlike {α : Type} (whole : ℤ → α) (x x' : Except Failure α) : Prop :=
  (∃ n, x = .ok (whole n) ∧ x' = .ok (whole n)) ∨
    (∃ failure, x = .error failure) ∧ ∃ failure, x' = .error failure

namespace WholeAlike

variable {α β : Type} {whole : ℤ → α} {whole' : ℤ → β}

/-- A whole number is like itself. -/
lemma found (whole : ℤ → α) (n : ℤ) : WholeAlike whole (.ok (whole n)) (.ok (whole n)) :=
  Or.inl ⟨n, rfl, rfl⟩

/-- Failures are alike, whatever they are. -/
lemma lost (failure failure' : Failure) : WholeAlike whole (.error failure) (.error failure') :=
  Or.inr ⟨⟨failure, rfl⟩, failure', rfl⟩

/-- What goes on alike from every whole number goes on alike from outcomes that are. -/
lemma bind {x x' : Except Failure α} {f f' : α → Except Failure β} (hx : WholeAlike whole x x')
    (hf : ∀ n, WholeAlike whole' (f (whole n)) (f' (whole n))) :
    WholeAlike whole' (x >>= f) (x' >>= f') := by
  rcases hx with ⟨n, rfl, rfl⟩ | ⟨⟨failure, rfl⟩, failure', rfl⟩
  · exact hf n
  · exact lost failure failure'

/-- A computation that gives whole numbers only is like itself. -/
lemma refl_of_whole {x : Except Failure α} (h : ∀ a, x = .ok a → ∃ n, a = whole n) :
    WholeAlike whole x x := by
  cases x with
  | error failure => exact lost failure failure
  | ok a =>
    obtain ⟨n, rfl⟩ := h a rfl
    exact found whole n

end WholeAlike

/-- A percentage is a whole number. -/
lemma wholeAlike_percentOf (value : Datum) (percentage : Number) :
    WholeAlike Datum.int (percentOf value percentage) (percentOf value percentage) := by
  refine .refl_of_whole fun result h => ?_
  obtain ⟨number, -, h⟩ := Outcome.bind_eq_ok_iff.mp h
  obtain ⟨product, -, h⟩ := Outcome.bind_eq_ok_iff.mp h
  obtain ⟨share, -, h⟩ := Outcome.bind_eq_ok_iff.mp h
  obtain ⟨n, -, h⟩ := Outcome.bind_eq_ok_iff.mp h
  exact ⟨n, (Except.ok.inj h).symm⟩

section Sums

variable {read read' : Item → Except Failure Datum} {ids ids' : List LinkId}

/-- The sum of links with whole numbers is their sum. -/
lemma sumLinks_eq_int {value : Item → ℤ}
    (h : ∀ id ∈ ids, read (.link id) = .ok (.int (value (.link id)))) :
    sumLinks read ids = .ok (.int (ids.map fun id => value (.link id)).sum) :=
  Graph.sumLinks_eq_int_of_operand fun id hid => ⟨_, h id hid, rfl⟩

/-- A sum of links fails if one of them does. -/
lemma exists_sumLinks_eq_error {id : LinkId} (hid : id ∈ ids) {failure : Failure}
    (h : read (.link id) = .error failure) : ∃ failure, sumLinks read ids = .error failure := by
  cases hsum : sumLinks read ids with
  | error failure' => exact ⟨failure', rfl⟩
  | ok total =>
    obtain ⟨value, hvalue⟩ := exists_ok_of_sumLinks_eq_ok hsum id hid
    rw [h] at hvalue
    cases hvalue

/-- The sums of the same links in two orders are alike if the links are. -/
lemma wholeAlike_sumLinks (hperm : ids.Perm ids')
    (h : ∀ id ∈ ids, WholeAlike Datum.int (read (.link id)) (read' (.link id))) :
    WholeAlike Number.int (sumLinks read ids) (sumLinks read' ids') := by
  by_cases hfails : ∃ id ∈ ids, ∃ failure, read (.link id) = .error failure
  · obtain ⟨id, hid, failure, hfailure⟩ := hfails
    obtain ⟨failure', hfailure'⟩ : ∃ failure', read' (.link id) = .error failure' := by
      rcases h id hid with ⟨n, hn, -⟩ | ⟨-, hlost⟩
      · rw [hn] at hfailure
        cases hfailure
      · exact hlost
    exact Or.inr ⟨exists_sumLinks_eq_error hid hfailure,
      exists_sumLinks_eq_error (hperm.mem_iff.mp hid) hfailure'⟩
  · let value : Item → ℤ := fun item => (Graph.wholeOutcome? (read item)).getD 0
    have hvalue : ∀ id ∈ ids, read (.link id) = .ok (.int (value (.link id))) ∧
        read' (.link id) = .ok (.int (value (.link id))) := by
      intro id hid
      obtain ⟨n, hn, hn'⟩ := (h id hid).resolve_right fun hlost => hfails ⟨id, hid, hlost.1⟩
      have hsame : value (.link id) = n := by
        simp only [value, hn, Graph.wholeOutcome?, Option.getD_some]
      rw [hsame]
      exact ⟨hn, hn'⟩
    rw [sumLinks_eq_int fun id hid => (hvalue id hid).1,
      sumLinks_eq_int fun id hid => (hvalue id (hperm.mem_iff.mpr hid)).2, (hperm.map _).sum_eq]
    exact .found Number.int _

end Sums

/-! ## Numbers that are whole -/

/-- A value that stands for no number but a whole one. -/
def Datum.StandsForWhole (d : Datum) : Prop :=
  ∀ number, toNumber d = some number → ∃ n, number = .int n

/-- A link that asks for no plugin, and that declares no number but a whole one. -/
def Link.DeclaresWhole (link : Link) : Prop :=
  classify link.value ≠ .plugin ∧ link.value.StandsForWhole

/-- A value that is classified as a number is the number that it stands for. -/
lemma exists_number_of_classify {d : Datum} (h : classify d = .number) :
    ∃ number, toNumber d = some number ∧ d = number.toDatum := by
  unfold classify at h
  split at h
  · cases h
  · exact ⟨_, rfl, rfl⟩
  · exact ⟨_, rfl, rfl⟩
  · next s =>
    unfold classifyText at h
    dsimp only at h
    split_ifs at h
  · split at h <;> cases h

/-- A text that is classified as a numeral stands for a number. -/
lemma exists_number_of_classifyText {s : Text} (h : classifyText s = .numericString) :
    ∃ number, parseNumber s = some number := by
  unfold classifyText at h
  dsimp only at h
  split_ifs at h
  · next hsome => exact Option.isSome_iff_exists.mp hsome

/-- A link that asks for nothing and declares no number but a whole one has a whole number. -/
lemma Link.DeclaresWhole.exists_int {link : Link} (h : link.DeclaresWhole) {value : Datum}
    (hdemand : link.demand = .constant value) : ∃ n : ℤ, value = .int n := by
  have hwhole := h.2
  unfold Link.demand at hdemand
  split at hdemand
  · next hkind =>
    cases hdemand
    obtain ⟨number, hnumber, hvalue⟩ := exists_number_of_classify hkind
    obtain ⟨n, rfl⟩ := hwhole number hnumber
    exact ⟨n, hvalue⟩
  · cases hdemand
  · cases hdemand
  · cases hdemand
  · split at hdemand
    · cases hdemand
      exact ⟨0, rfl⟩
    · cases hdemand
  · next s hkind htext =>
    rw [htext] at hkind hwhole
    obtain ⟨number, hnumber⟩ := exists_number_of_classifyText hkind
    obtain ⟨n, rfl⟩ := hwhole number hnumber
    rw [hnumber] at hdemand
    cases hdemand
    exact ⟨n, rfl⟩
  · cases hdemand
    exact ⟨0, rfl⟩

/-- A graph whose links ask for no plugin, and in which all declared numbers are whole. -/
structure Graph.DeclaresWhole (g : Graph) : Prop where
  nodes : ∀ n ∈ g.nodes, n.value.StandsForWhole
  links : ∀ entry ∈ g.links, entry.2.DeclaresWhole

/-- Where no link asks for a plugin, no plugin matters. -/
lemma Graph.DeclaresWhole.isPureFor {g : Graph} (h : g.DeclaresWhole) (r : Registry) :
    r.IsPureFor g.network :=
  isPureFor_of_plain r fun entry hentry => (h.links entry hentry).1

/-- A number that counts as declared for a node is the number that its value stands for. -/
lemma Graph.toNumber_of_declaredNumber? {g : Graph} {n : Node} {number : Number}
    (h : g.declaredNumber? n = some number) : toNumber n.value = some number := by
  obtain ⟨resolver, -, h⟩ := Option.bind_eq_some_iff.mp h
  unfold Resolver.declaredNumber? at h
  split at h
  · next found hfound =>
    split at h
    · cases h
    · cases h
      exact hfound
  · cases h

/-! ## Rearranged graphs -/

/-- Linked graphs with the same resolver whose nodes have the same of their own declarations, in
different orders perhaps. -/
structure Graph.Rearranges (g g' : Graph) : Prop where
  linked : g.IsLinked
  linked' : g'.IsLinked
  resolver : g.resolver = g'.resolver
  cores : (g.nodes.map Node.core).Perm (g'.nodes.map Node.core)

namespace Graph.Rearranges

variable {g g' : Graph} {n n' : Node}

lemma symm (h : g.Rearranges g') : g'.Rearranges g where
  linked := h.linked'
  linked' := h.linked
  resolver := h.resolver.symm
  cores := h.cores.symm

/-- Every node is a node of the other graph, as far as its own declaration goes. -/
lemma exists_core_eq (h : g.Rearranges g') (hn : n ∈ g.nodes) :
    ∃ n' ∈ g'.nodes, n'.core = n.core :=
  List.mem_map.mp (h.cores.mem_iff.mp (List.mem_map_of_mem hn))

/-- Nodes of the same name have the same of their own declarations. -/
lemma core_eq_of_name_eq (h : g.Rearranges g') (hn : n ∈ g.nodes) (hn' : n' ∈ g'.nodes)
    (hname : n'.name = n.name) : n'.core = n.core := by
  obtain ⟨m, hm, hcore⟩ := h.exists_core_eq hn
  obtain rfl : n' = m := List.inj_on_of_nodup_map h.linked'.nodup_names hn' hm
    (hname.trans (Node.core_eq_iff.mp hcore).1.symm)
  exact hcore

/-- The graphs have the same links. -/
lemma mem_links (h : g.Rearranges g') {id : LinkId} {link : Link} (hlink : (id, link) ∈ g.links) :
    (id, link) ∈ g'.links := by
  obtain ⟨n, hn, hsource, hget⟩ := mem_links_iff.mp hlink
  obtain ⟨n', hn', hcore⟩ := h.exists_core_eq hn
  obtain ⟨hname, -, houtgoing⟩ := Node.core_eq_iff.mp hcore
  exact mem_links_iff.mpr ⟨n', hn', hsource.trans hname.symm, houtgoing ▸ hget⟩

/-- What has no node has none in the other graph either. -/
lemma node?_eq_none (h : g.Rearranges g') {name : Text} (hnone : g.node? name = none) :
    g'.node? name = none := by
  refine Option.eq_none_iff_forall_ne_some.mpr fun n' hfound => ?_
  obtain ⟨hn', rfl⟩ := (node?_eq_some_iff h.linked'.nodup_names).mp hfound
  obtain ⟨n, hn, hcore⟩ := h.symm.exists_core_eq hn'
  have hsome := (node?_eq_some_iff h.linked.nodup_names).mpr ⟨hn, (Node.core_eq_iff.mp hcore).1⟩
  rw [hnone] at hsome
  cases hsome

/-- What has no link has none in the other graph either. -/
lemma link?_eq_none (h : g.Rearranges g') {id : LinkId} (hnone : g.link? id = none) :
    g'.link? id = none := by
  refine Option.eq_none_iff_forall_ne_some.mpr fun link hfound => ?_
  have hlink := h.symm.mem_links ((link?_eq_some_iff h.linked'.nodup_names).mp hfound)
  rw [← link?_eq_some_iff h.linked.nodup_names, hnone] at hlink
  cases hlink

/-- The graphs have the same items. -/
lemma mem_items (h : g.Rearranges g') : ∀ item ∈ g.items, item ∈ g'.items := by
  obtain ⟨hnodes, hlinks⟩ := (forall_mem_items_iff (P := (· ∈ g'.items))).mp fun _ hitem => hitem
  refine forall_mem_items_iff.mpr ⟨fun n hn => ?_, fun id hid => ?_⟩
  · obtain ⟨n', hn', hcore⟩ := h.exists_core_eq hn
    rw [← (Node.core_eq_iff.mp hcore).1]
    exact hnodes n' hn'
  · obtain ⟨entry, hentry, rfl⟩ := List.mem_map.mp hid
    exact hlinks _ (List.mem_map_of_mem (h.mem_links hentry))

section Nodes

variable (h : g.Rearranges g') (hn : n ∈ g.nodes) (hn' : n' ∈ g'.nodes) (hcore : n'.core = n.core)

omit hn hn' h in
include hcore in
/-- The links that leave a node are the same in both graphs. -/
lemma linkIds_eq : n'.linkIds = n.linkIds := by
  obtain ⟨hname, -, houtgoing⟩ := Node.core_eq_iff.mp hcore
  unfold Node.linkIds
  rw [hname, houtgoing]

include h hn hn' hcore

/-- The links that enter a node are the same in both graphs, in different orders perhaps. -/
lemma incoming_perm : n.incoming.Perm n'.incoming := by
  refine (List.perm_ext_iff_of_nodup (h.linked.nodup_incoming n hn)
    (h.linked'.nodup_incoming n' hn')).mpr fun id => ?_
  rw [h.linked.mem_incoming_iff n hn, h.linked'.mem_incoming_iff n' hn',
    (Node.core_eq_iff.mp hcore).1]
  exact exists_congr fun link => and_congr_left fun _ => ⟨h.mem_links, h.symm.mem_links⟩

/-- The links whose sum is the value of a node are the same in both graphs, in different orders
perhaps. -/
lemma summands_perm : n.summands.Perm n'.summands := by
  have hincoming := h.incoming_perm hn hn' hcore
  unfold Node.summands
  rw [hincoming.isEmpty_eq, linkIds_eq hcore]
  split
  · exact .refl _
  · exact hincoming

end Nodes

/-! ## Steps, depths and readings -/

section Steps

variable (h : g.Rearranges g') (hwhole : g.DeclaresWhole)

include h

/-- A node counts as declared in both graphs or in none, and with the same number. -/
lemma declaredNumber?_eq (hcore : n'.core = n.core) :
    g'.declaredNumber? n' = g.declaredNumber? n := by
  unfold declaredNumber?
  rw [(Node.core_eq_iff.mp hcore).2.1, h.resolver]

/-- The declaration that rearranged graphs share is whole in both or in none. -/
lemma declaresWhole (hwhole : g.DeclaresWhole) : g'.DeclaresWhole where
  nodes n' hn' := by
    obtain ⟨n, hn, hcore⟩ := h.symm.exists_core_eq hn'
    rw [← (Node.core_eq_iff.mp hcore).2.1]
    exact hwhole.nodes n hn
  links entry hentry := hwhole.links entry (h.symm.mem_links hentry)

variable {read read' : Item → Except Failure Datum}
variable (hread : ∀ item, WholeAlike Datum.int (read item) (read' item))

include hwhole hread

/-- The value of a node follows alike from values that are alike. -/
lemma wholeAlike_nodeStep (hresolver : g.resolver.isSome) (name : Text) :
    WholeAlike Datum.int (g.network.nodeStep read name) (g'.network.nodeStep read' name) := by
  cases hfound : g.node? name with
  | none =>
    have hnone : g.network.node? name = none := hfound
    have hnone' : g'.network.node? name = none := h.node?_eq_none hfound
    rw [Network.nodeStep_of_node?_eq_none hnone, Network.nodeStep_of_node?_eq_none hnone']
    exact .lost .wrongType .wrongType
  | some n =>
    obtain ⟨hn, rfl⟩ := (node?_eq_some_iff h.linked.nodup_names).mp hfound
    obtain ⟨n', hn', hcore⟩ := h.exists_core_eq hn
    have hstep' := nodeStep_eq h.linked' (h.resolver ▸ hresolver) hn' read'
    rw [(Node.core_eq_iff.mp hcore).1, h.declaredNumber?_eq hcore] at hstep'
    rw [nodeStep_eq h.linked hresolver hn, hstep']
    cases hnumber : g.declaredNumber? n with
    | some number =>
      obtain ⟨k, rfl⟩ := hwhole.nodes n hn number (toNumber_of_declaredNumber? hnumber)
      exact .found Datum.int k
    | none =>
      have hsum := wholeAlike_sumLinks (h.summands_perm hn hn' hcore) fun id _ => hread (.link id)
      exact hsum.bind fun total => .found Datum.int total

/-- The value of a link follows alike from values that are alike. -/
lemma wholeAlike_linkStep
    (call call' : LinkId → (Probe → Except Failure Datum) → Entries → Except Failure Datum)
    (id : LinkId) :
    WholeAlike Datum.int (g.network.linkStep call read id) (g'.network.linkStep call' read' id) := by
  cases hfound : g.link? id with
  | none =>
    have hnone : g.network.link? id = none := hfound
    have hnone' : g'.network.link? id = none := h.link?_eq_none hfound
    rw [Network.linkStep_of_link?_eq_none hnone, Network.linkStep_of_link?_eq_none hnone']
    exact .lost .wrongType .wrongType
  | some link =>
    have hlink := (link?_eq_some_iff h.linked.nodup_names).mp hfound
    obtain ⟨source, hsource, hname, target, htarget, htname, hstep⟩ :=
      exists_linkStep_eq h.linked hlink
    obtain ⟨source', hsource', hname', target', htarget', htname', hstep'⟩ :=
      exists_linkStep_eq h.linked' (h.mem_links hlink)
    have hcore := h.core_eq_of_name_eq hsource hsource' (hname'.trans hname.symm)
    have htcore := h.core_eq_of_name_eq htarget htarget' (htname'.trans htname.symm)
    rw [hstep, hstep']
    cases hdemand : link.demand with
    | constant value =>
      obtain ⟨k, rfl⟩ := (hwhole.links _ hlink).exists_int hdemand
      exact .found Datum.int k
    | answer params =>
      exact absurd (Link.demand_eq_answer_iff.mp hdemand).1 (hwhole.links _ hlink).1
    | rest =>
      dsimp only
      rw [linkIds_eq hcore, (Node.core_eq_iff.mp hcore).1]
      have hothers := wholeAlike_sumLinks
        (List.Perm.refl (source.linkIds.filter fun other => other != id))
        fun other _ => hread (.link other)
      exact hothers.bind fun others => (hread (.node source.name)).bind fun own =>
        .found Datum.int (own - others)
    | onward =>
      dsimp only
      rw [linkIds_eq htcore]
      have hsum := wholeAlike_sumLinks (List.Perm.refl target.linkIds)
        fun other _ => hread (.link other)
      exact hsum.bind fun total => .found Datum.int total
    | share percentage =>
      dsimp only
      rw [(Node.core_eq_iff.mp hcore).1]
      exact (hread (.node source.name)).bind fun own => wholeAlike_percentOf (.int own) percentage

/-- The value of an item follows alike from values that are alike. -/
lemma wholeAlike_step (hresolver : g.resolver.isSome)
    (call call' : LinkId → (Probe → Except Failure Datum) → Entries → Except Failure Datum)
    (item : Item) :
    WholeAlike Datum.int (g.network.step call read item) (g'.network.step call' read' item) := by
  cases item with
  | node name => exact h.wholeAlike_nodeStep hwhole hread hresolver name
  | link id => exact h.wholeAlike_linkStep hwhole hread call call' id

omit hread

variable (hresolver : g.resolver.isSome) (r r' : Registry)

include hresolver

/-- What an item is worth to a depth is alike. -/
lemma wholeAlike_valueAt (depth : Nat) (item : Item) :
    WholeAlike Datum.int (g.network.valueAt r depth item) (g'.network.valueAt r' depth item) := by
  induction depth generalizing item with
  | zero => exact .lost .tooDeep .tooDeep
  | succ depth ih =>
    have hitem : ∀ {g : Graph}, g.resolver.isSome → ∃ resolver,
        g.network.itemResolver? item = some resolver := by
      intro g hresolver
      obtain ⟨resolver, hsome⟩ := Option.isSome_iff_exists.mp hresolver
      cases item <;> exact ⟨resolver, hsome⟩
    obtain ⟨resolver, hsome⟩ := hitem hresolver
    obtain ⟨resolver', hsome'⟩ := hitem (h.resolver ▸ hresolver : g'.resolver.isSome)
    rw [Network.valueAt, Network.valueAt, hsome, hsome']
    exact h.wholeAlike_step hwhole ih hresolver r.answer r'.answer item

/-- What an item is worth is alike: a depth that is enough for one graph may not be enough for the
other, but there is one that is enough for both. -/
lemma wholeAlike_settled (item : Item) :
    WholeAlike Datum.int (g.network.settled r item) (g'.network.settled r' item) := by
  have hr := hwhole.isPureFor r
  have hr' := (h.declaresWhole hwhole).isPureFor r'
  have halike := h.wholeAlike_valueAt hwhole hresolver r r'
    (max g.network.room g'.network.room) item
  rw [Network.valueAt_of_room_le hr g.hasItems (le_max_left _ _),
    Network.valueAt_of_room_le hr' g'.hasItems (le_max_right _ _)] at halike
  exact halike

/-- Readings of an item are alike, at whatever times they are made. -/
lemma wholeAlike_of_yields {item : Item} {found found' : Except Failure Datum}
    (hfound : g.Yields r (g.network.read item) found)
    (hfound' : g'.Yields r' (g'.network.read item) found') :
    WholeAlike Datum.int found found' := by
  have hr := hwhole.isPureFor r
  have hr' := (h.declaresWhole hwhole).isPureFor r'
  rw [hfound.eq hr (Read.Between.read hr g.hasItems item),
    hfound'.eq hr' (Read.Between.read hr' g'.hasItems item)]
  exact h.wholeAlike_settled hwhole hresolver r r' item

end Steps

end Graph.Rearranges

/-! ## Sheets -/

instance (d : Datum) : Decidable d.StandsForWhole :=
  match h : toNumber d with
  | none => .isTrue fun number hnumber => by rw [h] at hnumber; cases hnumber
  | some (.int n) => .isTrue fun number hnumber => by
      rw [h] at hnumber
      exact ⟨n, (Option.some.inj hnumber).symm⟩
  | some (.float x) => .isFalse fun hwhole => by
      obtain ⟨n, hn⟩ := hwhole _ h
      cases hn

/-- A declaration whose links ask for no plugin, and in which all declared numbers are whole. -/
structure Datum.DeclaresWhole (d : Datum) : Prop where
  value : (Entries.get (d.fields?.getD []) "value").StandsForWhole
  links : ∀ fields ∈ d.linkFields, classify (Entries.get fields "value") ≠ .plugin ∧
    (Entries.get fields "value").StandsForWhole

instance (d : Datum) : Decidable d.DeclaresWhole :=
  decidable_of_iff ((Entries.get (d.fields?.getD []) "value").StandsForWhole ∧
      ∀ fields ∈ d.linkFields, classify (Entries.get fields "value") ≠ .plugin ∧
        (Entries.get fields "value").StandsForWhole)
    ⟨fun h => ⟨h.1, h.2⟩, fun h => ⟨h.value, h.links⟩⟩

section Sheets

variable {s : Settings} {ds ds' : List Datum} {gs gs' : List Graph}

/-- What the declarations of a sheet declare whole, its graph does. -/
lemma declaresWhole_of_buildGraphs (hds : AreDistinct ds) (hwhole : ∀ d ∈ ds, d.DeclaresWhole)
    (hgs : buildGraphs s ds = .ok gs) {g : Graph} (hg : g ∈ gs) : g.DeclaresWhole := by
  have hcore := forall_core_of_buildGraphs (P := fun value outgoing =>
    value.StandsForWhole ∧ ∀ link ∈ outgoing, link.DeclaresWhole) hds hgs ?_ ?_ g hg
  · refine ⟨fun n hn => (hcore n hn).1, ?_⟩
    rintro ⟨id, link⟩ hentry
    obtain ⟨n, hn, -, hget⟩ := Graph.mem_links_iff.mp hentry
    exact (hcore n hn).2 link (List.mem_of_getElem? hget)
  · exact ⟨fun number hnumber => (by cases hnumber), List.forall_mem_nil _⟩
  · intro d hd name links outgoing hlinks houtgoing
    refine ⟨(hwhole d hd).value, fun link hlink => ?_⟩
    obtain ⟨link', hlink', hdeclared⟩ := Outcome.exists_of_mem_of_mapM_eq_ok houtgoing hlink
    obtain ⟨fields, hfields, hdeclared⟩ := Outcome.bind_eq_ok_iff.mp hdeclared
    obtain ⟨target, -, hdeclared⟩ := Outcome.bind_eq_ok_iff.mp hdeclared
    cases hdeclared
    have hsome : link'.fields? = some fields := by
      unfold declaredFields at hfields
      split at hfields
      · next hsome =>
        cases hfields
        exact hsome
      · cases hfields
    exact (hwhole d hd).links fields (Datum.mem_linkFields hlinks hlink' hsome)

/-- **The order of declarations does not matter.**  Let declarations have different names and no
alternatives, let no link ask for a plugin, and let all declared numbers be whole. Where all names and
targets can be encoded and no declaration has the key that no attribute can have, the sheet is built in
any order of the declarations or reports a cycle in any order. And where it is built in two orders, the
two graphs have the same nodes and links, and at whatever times a value is read in both, the readings
give the same whole number or both fail. -/
theorem buildGraphs_perm (hperm : ds.Perm ds') (hds : AreDistinct ds)
    (hwhole : ∀ d ∈ ds, d.DeclaresWhole) :
    ((∀ d ∈ ds, d.IsAdmissible) →
      (∃ path path', buildGraphs s ds = .error (.cycle path) ∧
        buildGraphs s ds' = .error (.cycle path')) ∨
      ∃ gs gs', buildGraphs s ds = .ok gs ∧ buildGraphs s ds' = .ok gs') ∧
    ∀ gs gs', buildGraphs s ds = .ok gs → buildGraphs s ds' = .ok gs' →
      ∃ g g', gs = [g] ∧ gs' = [g'] ∧ (∀ item, item ∈ g.items ↔ item ∈ g'.items) ∧
        ∀ (r r' : Registry) item found found', g.Yields r (g.network.read item) found →
          g'.Yields r' (g'.network.read item) found' → WholeAlike Datum.int found found' := by
  refine ⟨buildGraphs_of_perm hperm hds, fun gs gs' hgs hgs' => ?_⟩
  obtain ⟨g, g', rfl, rfl, hcores⟩ := exists_graphs_of_perm hperm hds hgs hgs'
  have hg := List.mem_singleton_self g
  have hg' := List.mem_singleton_self g'
  have hrearranges : g.Rearranges g' :=
    { linked := isLinked_of_buildGraphs hgs hg
      linked' := isLinked_of_buildGraphs hgs' hg'
      resolver := (resolver_of_buildGraphs hgs hg).trans (resolver_of_buildGraphs hgs' hg').symm
      cores := hcores }
  refine ⟨g, g', rfl, rfl, fun item => ⟨hrearranges.mem_items item, hrearranges.symm.mem_items item⟩,
    fun r r' item found found' => ?_⟩
  exact hrearranges.wholeAlike_of_yields (declaresWhole_of_buildGraphs hds hwhole hgs hg)
    (isSome_resolver_of_buildGraphs hgs hg) r r'

end Sheets

/-- A sheet whose streams meet in a node that is not declared, so that the links that enter it stand in
the order of the declarations. -/
def confluentSheet : List Datum :=
  [.map [(.text "name", .text "Well"), (.text "value", .int 100),
      (.text "links", .list [
        .map [(.text "to", .text "Pond"), (.text "value", .text "rest")],
        .map [(.text "to", .text "Pump"), (.text "value", .text "30%")]])],
    .map [(.text "name", .text "Pump"),
      (.text "links", .list [
        .map [(.text "to", .text "Pond"), (.text "value", .text "rest")],
        .map [(.text "to", .text "Mill"), (.text "value", .text "auto")]])]]

/-- The confluent sheet and its reverse are built, and in both the pond has what comes out of the
well. -/
theorem buildGraphs_perm_confluentSheet :
    confluentSheet.Perm confluentSheet.reverse ∧ AreDistinct confluentSheet ∧
      (∀ d ∈ confluentSheet, d.DeclaresWhole) ∧ (∀ d ∈ confluentSheet, d.IsAdmissible) ∧
      ∃ g g', buildGraphs {} confluentSheet = .ok [g] ∧
        buildGraphs {} confluentSheet.reverse = .ok [g'] ∧ .node "Pond" ∈ g'.items ∧
        g.Yields {} (g.network.read (.node "Pond")) (.ok (.int 100)) ∧
        ∀ found, g'.Yields {} (g'.network.read (.node "Pond")) found → found = .ok (.int 100) := by
  have hperm : confluentSheet.Perm confluentSheet.reverse := (List.reverse_perm _).symm
  have hdistinct : AreDistinct confluentSheet := by
    refine ⟨fun d hd => ?_, fun d hd => ?_, by decide +kernel, by decide +kernel⟩
    · rcases List.mem_pair.mp hd with rfl | rfl
      · exact ⟨_, rfl, fun h => by cases h⟩
      · exact ⟨_, rfl, fun h => by cases h⟩
    · rcases List.mem_pair.mp hd with rfl | rfl
      all_goals
        refine Or.inr ⟨_, rfl, fun link hlink => ?_⟩
        rcases List.mem_pair.mp hlink with rfl | rfl
        · exact ⟨_, rfl, fun h => by cases h⟩
        · exact ⟨_, rfl, fun h => by cases h⟩
  have hwhole : ∀ d ∈ confluentSheet, d.DeclaresWhole := by decide +kernel
  have hadmissible : ∀ d ∈ confluentSheet, d.IsAdmissible := by decide +kernel
  obtain ⟨hbuilt, hvalues⟩ := buildGraphs_perm (s := {}) hperm hdistinct hwhole
  have hran : ((buildGraphs {} confluentSheet).toOption.bind fun gs => gs.head?.map fun g =>
      (decide (.node "Pond" ∈ g.items),
        Graph.wholeOutcome? (Read.runFresh (g.network.read (.node "Pond")) {}).1)) =
      some (true, some 100) := by
    decide +kernel
  obtain ⟨gs, g, hgs, hg, hfacts⟩ := exists_graph_of_head? hran
  simp only [Prod.mk.injEq, decide_eq_true_eq] at hfacts
  obtain ⟨hpond, hread⟩ := hfacts
  have hyields : g.Yields {} (g.network.read (.node "Pond")) (.ok (.int 100)) := by
    unfold Graph.wholeOutcome? at hread
    split at hread
    · next n hn =>
      rw [← Option.some.inj hread]
      exact Or.inl hn
    · cases hread
  obtain ⟨gs', hgs'⟩ : ∃ gs', buildGraphs {} confluentSheet.reverse = .ok gs' := by
    rcases hbuilt hadmissible with ⟨path, -, hpath, -⟩ | ⟨-, gs', -, hgs'⟩
    · rw [hgs] at hpath
      cases hpath
    · exact ⟨gs', hgs'⟩
  obtain ⟨g₀, g', rfl, rfl, hitems, halike⟩ := hvalues gs gs' hgs hgs'
  obtain rfl : g = g₀ := List.mem_singleton.mp hg
  refine ⟨hperm, hdistinct, hwhole, hadmissible, g, g', hgs, hgs', (hitems _).mp hpond, hyields,
    fun found hfound => ?_⟩
  rcases halike {} {} _ _ found hyields hfound with ⟨n, hn, rfl⟩ | ⟨⟨failure, hfailure⟩, -⟩
  · exact hn.symm
  · cases hfailure

/-- The key that no attribute can have is enough for a sheet to be built in no order and to report no
cycle, although its one declaration is a mapping with a name and without links and numbers. -/
theorem not_buildGraphs_perm_selfishSheet :
    AreDistinct selfishSheet ∧ (∀ d ∈ selfishSheet, d.DeclaresWhole) ∧
      ∀ ds, selfishSheet.Perm ds →
        ¬((∃ path path', buildGraphs {} selfishSheet = .error (.cycle path) ∧
            buildGraphs {} ds = .error (.cycle path')) ∨
          ∃ gs gs', buildGraphs {} selfishSheet = .ok gs ∧ buildGraphs {} ds = .ok gs') := by
  have hfails : buildGraphs {} selfishSheet = .error .wrongType := rfl
  refine ⟨?_, by decide +kernel, fun ds _ => ?_⟩
  · refine ⟨fun d hd => ?_, fun d hd => ?_, by decide +kernel, by decide +kernel⟩
    · rw [List.mem_singleton.mp hd]
      exact ⟨_, rfl, fun h => by cases h⟩
    · rw [List.mem_singleton.mp hd]
      exact Or.inl rfl
  · rw [hfails]
    rintro (⟨path, path', hpath, -⟩ | ⟨gs, gs', hgs, -⟩)
    · cases hpath
    · cases hgs

/-- A sheet whose links lead to a name without an encoding, one with a colour and one with the random
colour. -/
def duskSheet : List Datum :=
  [.map [(.text "name", .text "A"), (.text "links", .list
      [.map [(.text "to", .text [.surrogate 0]), (.text "color", .text "red")]])],
    .map [(.text "name", .text "B"), (.text "links", .list
      [.map [(.text "to", .text [.surrogate 0]), (.text "color", .text "random")]])]]

-- a name without an encoding can take a colour from the first link, but cannot pick one
example : (buildGraphs {} duskSheet).isOk = true ∧
    (buildGraphs {} duskSheet.reverse).isOk = false := by
  decide +kernel

end StockFlow
