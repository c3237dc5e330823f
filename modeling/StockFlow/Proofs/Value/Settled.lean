import Mathlib.Data.Finset.Card
import StockFlow.Proofs.Value.Step
/-!
# Settled values

With pure plugins every item of a network has one value, or one failure, whatever has been read
before. `Network.valueAt` is what an item is worth to a given depth, computed without any state, and
`Network.settled` is what it is worth to the depth for which the stack has room.

Two facts make the depth immaterial where there is room for all values. A step from better
approximations gives a better approximation (`Network.step_mono`), so more depth never changes an
outcome that did not go too deep. And an approximation that improves at one depth improves for an item
that had no outcome before; as there are fewer items than the stack has room for, nothing improves
behind that room (`Network.valueAt_of_room_le`). So settled values are a solution of the equations that
the steps state (`Network.settled_eq`), and readings with or without a memo find them
(`Read.Between.read`).
-/

namespace StockFlow

/-! ## Values to a depth -/

namespace Network

/-- What an item is worth to a depth: a step from what the items that it depends on are worth to
one less. -/
def valueAt (net : Network) (r : Registry) : (depth : Nat) → Item → Except Failure Datum
  | 0, _ => .error .tooDeep
  | depth + 1, item =>
    match net.itemResolver? item with
    | none => .error (net.detached item)
    | some _ => net.step r.answer (net.valueAt r depth) item

/-- What an item is worth. -/
def settled (net : Network) (r : Registry) (item : Item) : Except Failure Datum :=
  net.valueAt r net.room item

variable {net : Network} {r : Registry}

/-- A step from better approximations is a better approximation. -/
lemma step_mono (hr : r.IsPureFor net) {low high : Item → Except Failure Datum}
    (h : ∀ item, Approximates (low item) (high item)) (item : Item) :
    Approximates (net.step r.answer low item) (net.step r.answer high item) := by
  have hread : ∀ item, Read.Between r high (low item) (high item) (Read.ofExcept (high item)) :=
    fun item => (Read.Between.ofExcept _).mono (h item) (.refl _)
  have hstart : Reading.IsSound ⟨none, r, []⟩ r high :=
    Reading.isSound_of_memo?_eq_none rfl rfl
  obtain ⟨-, hl, hh⟩ := Read.Between.step hr hread item _ hstart
  exact hl.trans hh

/-- What more depth finds out is what less depth has found out, if that was anything. -/
lemma valueAt_succ (hr : r.IsPureFor net) (depth : Nat) (item : Item) :
    Approximates (net.valueAt r depth item) (net.valueAt r (depth + 1) item) := by
  induction depth generalizing item with
  | zero => exact .bot _
  | succ depth ih =>
    rw [valueAt, valueAt]
    cases net.itemResolver? item with
    | none => exact .refl _
    | some _ => exact step_mono hr ih item

lemma valueAt_mono (hr : r.IsPureFor net) {d d' : Nat} (hd : d ≤ d') (item : Item) :
    Approximates (net.valueAt r d item) (net.valueAt r d' item) := by
  induction d', hd using Nat.le_induction with
  | base => exact .refl _
  | succ n _ ih => exact ih.trans (valueAt_succ hr n item)

/-- Once depth adds nothing to any item, further depth adds nothing either. -/
lemma valueAt_eq_of_eq_succ {d d' : Nat} (h : net.valueAt r d = net.valueAt r (d + 1))
    (hd : d ≤ d') : net.valueAt r d' = net.valueAt r d := by
  induction d', hd using Nat.le_induction with
  | base => rfl
  | succ n _ ih =>
    have hstep : net.valueAt r (n + 1) = net.valueAt r (d + 1) := by
      funext item
      rw [valueAt, valueAt, ih]
    rw [hstep, ← h]

/-! ## The depth that is enough -/

/-- Whether the items of a list are all that have values, and the stack has room for more than those:
no step from another item reads anything. -/
structure HasItems (net : Network) (items : List Item) : Prop where
  length_lt : items.length < net.room
  step_eq : ∀ item ∉ items, ∀ (call : LinkId → (Probe → Except Failure Datum) → Entries →
    Except Failure Datum) (f g : Item → Except Failure Datum), net.step call f item =
      net.step call g item

open Classical in
/-- The items that a depth finds an outcome for. -/
noncomputable def reached (net : Network) (r : Registry) (items : List Item) (depth : Nat) :
    Finset Item :=
  items.toFinset.filter fun item => net.valueAt r depth item ≠ .error .tooDeep

variable {items : List Item}

lemma mem_reached {depth : Nat} {item : Item} :
    item ∈ net.reached r items depth ↔
      item ∈ items ∧ net.valueAt r depth item ≠ .error .tooDeep := by
  simp [reached]

lemma card_reached_le (depth : Nat) : (net.reached r items depth).card ≤ items.length := by
  classical
  exact (Finset.card_filter_le _ _).trans (List.toFinset_card_le items)

/-- More depth finds outcomes for more items. -/
lemma reached_subset_succ (hr : r.IsPureFor net) (depth : Nat) :
    net.reached r items depth ⊆ net.reached r items (depth + 1) := by
  intro item hitem
  rw [mem_reached] at hitem ⊢
  rw [← (valueAt_succ hr depth item).eq_of_ne hitem.2]
  exact hitem

/-- A depth that finds outcomes for no more items finds out nothing more at all. -/
lemma valueAt_eq_of_reached_eq (hr : r.IsPureFor net) (hitems : net.HasItems items) {depth : Nat}
    (h : net.reached r items (depth + 1) = net.reached r items (depth + 2)) :
    net.valueAt r (depth + 1) = net.valueAt r (depth + 2) := by
  funext item
  by_cases hitem : item ∈ items
  · by_cases hdeep : net.valueAt r (depth + 1) item = .error .tooDeep
    · have hnot : item ∉ net.reached r items (depth + 2) := by
        rw [← h, mem_reached]
        exact fun hmem => hmem.2 hdeep
      have hdeep' : net.valueAt r (depth + 2) item = .error .tooDeep := by
        by_contra hne
        exact hnot (mem_reached.mpr ⟨hitem, hne⟩)
      rw [hdeep, hdeep']
    · exact (valueAt_succ hr (depth + 1) item).eq_of_ne hdeep
  · rw [valueAt, valueAt]
    cases net.itemResolver? item with
    | none => rfl
    | some _ => exact hitems.step_eq item hitem _ _ _

/-- A depth that improves anything reaches another item. -/
lemma card_reached_lt (hr : r.IsPureFor net) (hitems : net.HasItems items) {depth : Nat}
    (h : net.valueAt r (depth + 1) ≠ net.valueAt r (depth + 2)) :
    (net.reached r items (depth + 1)).card < (net.reached r items (depth + 2)).card :=
  Finset.card_lt_card ((reached_subset_succ hr (depth + 1)).ssubset_of_ne
    fun heq => h (valueAt_eq_of_reached_eq hr hitems heq))

/-- Up to any depth, either nothing improves any more or every step has reached one more item. -/
lemma valueAt_eq_or_lt_card_reached (hr : r.IsPureFor net) (hitems : net.HasItems items)
    (depth : Nat) :
    net.valueAt r (depth + 1) = net.valueAt r (depth + 2) ∨
      depth + 1 ≤ (net.reached r items (depth + 2)).card := by
  induction depth with
  | zero =>
    by_cases h : net.valueAt r 1 = net.valueAt r 2
    · exact Or.inl h
    · have hlt := card_reached_lt hr hitems h
      exact Or.inr (by omega)
  | succ depth ih =>
    by_cases h : net.valueAt r (depth + 2) = net.valueAt r (depth + 3)
    · exact Or.inl h
    · have hlt : (net.reached r items (depth + 2)).card < (net.reached r items (depth + 3)).card :=
        card_reached_lt hr hitems h
      rcases ih with heq | hcard
      · have h₂ := valueAt_eq_of_eq_succ heq (Nat.le_succ (depth + 1))
        have h₃ := valueAt_eq_of_eq_succ heq (Nat.le_add_right (depth + 1) 2)
        exact absurd (h₂.trans h₃.symm) h
      · exact Or.inr (Nat.lt_of_le_of_lt hcard hlt)

/-- Behind a room that is enough for all items nothing improves. -/
lemma valueAt_of_room_le (hr : r.IsPureFor net) (hitems : net.HasItems items) {depth : Nat}
    (hd : net.room ≤ depth) : net.valueAt r depth = net.valueAt r net.room := by
  obtain ⟨last, hlast⟩ := Nat.exists_eq_succ_of_ne_zero (Nat.ne_zero_of_lt hitems.length_lt)
  rw [hlast] at hd ⊢
  rcases valueAt_eq_or_lt_card_reached hr hitems last with h | h
  · exact valueAt_eq_of_eq_succ h hd
  · have hcard : (net.reached r items (last + 2)).card ≤ items.length := card_reached_le (last + 2)
    have hlength := hitems.length_lt
    omega

/-- Settled values are a solution of the equations that the steps state. -/
theorem settled_eq (hr : r.IsPureFor net) (hitems : net.HasItems items) (item : Item) :
    net.settled r item =
      match net.itemResolver? item with
      | none => .error (net.detached item)
      | some _ => net.step r.answer (net.settled r) item := by
  change net.valueAt r net.room item = _
  rw [← valueAt_of_room_le hr hitems (Nat.le_succ net.room), valueAt]
  rfl

/-- No depth finds out anything else than what an item is worth. -/
lemma valueAt_approximates_settled (hr : r.IsPureFor net) (hitems : net.HasItems items)
    (depth : Nat) (item : Item) : Approximates (net.valueAt r depth item) (net.settled r item) := by
  rcases Nat.le_total depth net.room with hd | hd
  · exact valueAt_mono hr hd item
  · rw [valueAt_of_room_le hr hitems hd]
    exact .refl _

end Network

/-! ## Readings find settled values -/

namespace Read.Between

variable {net : Network} {r : Registry} {items : List Item}

/-- A visit looks the item up, and else computes it and remembers what it has found. -/
lemma run_visit {item : Item} {resolver : Resolver}
    (hresolver : net.itemResolver? item = some resolver) (depth : Nat) (s : Reading) :
    (net.visit (depth + 1) item).run.run s =
      match s.memo?.bind fun memo => memo.lookup item with
      | some value => (.ok value, s)
      | none =>
        match (net.step StockFlow.callForLink (net.visit depth) item).run.run s with
        | (.ok value, s') =>
          (.ok value, { s' with memo? := s'.memo?.map fun memo => (item, value) :: memo })
        | (.error failure, s') => (.error failure, s') := by
  rw [Network.visit, hresolver]
  change ((Pure.pure (s.memo?.bind fun memo => memo.lookup item) : Read (Option Datum)) >>=
    fun known? => _ : Read Datum).run.run s = _
  cases s.memo?.bind fun memo => memo.lookup item with
  | some value => rfl
  | none =>
    change (net.step StockFlow.callForLink (net.visit depth) item >>= fun value => _ :
      Read Datum).run.run s = _
    rw [run_bind]
    rcases (net.step StockFlow.callForLink (net.visit depth) item).run.run s with
      ⟨failure | value, s'⟩ <;> rfl

/-- Remembering what an item is worth keeps a state sound. -/
lemma isSound_remember {truth : Item → Except Failure Datum} {s : Reading}
    (hs : s.IsSound r truth) {item : Item} {value : Datum} (hvalue : truth item = .ok value) :
    Reading.IsSound { s with memo? := s.memo?.map fun memo => (item, value) :: memo } r truth := by
  refine ⟨hs.table, fun memo hmemo other found hfound => ?_⟩
  obtain ⟨old, hold, rfl⟩ := Option.map_eq_some_iff.mp hmemo
  rw [List.lookup_cons] at hfound
  by_cases hother : other = item
  · subst hother
    simp only [beq_self_eq_true, Option.some.injEq] at hfound
    rw [← hfound]
    exact hvalue
  · rw [beq_false_of_ne hother] at hfound
    exact hs.memo old hold other found hfound

/-- Computing a value, looking it up or remembering it, a reading to a depth finds out no less than
that depth does without a memo, and nothing else than what the item is worth. -/
lemma visit (hr : r.IsPureFor net) (hitems : net.HasItems items) (depth : Nat) (item : Item) :
    Between r (net.settled r) (net.valueAt r depth item) (net.settled r item)
      (net.visit depth item) := by
  induction depth generalizing item with
  | zero => exact (throw _).mono (.refl _) (.bot _)
  | succ depth ih =>
    have hsettled := Network.settled_eq hr hitems item
    have hbelow := Network.valueAt_approximates_settled hr hitems (depth + 1) item
    cases hresolver : net.itemResolver? item with
    | none =>
      rw [hresolver] at hsettled
      rw [hsettled, Network.valueAt, Network.visit, hresolver]
      exact throw _
    | some resolver =>
      intro s hs
      rw [run_visit hresolver]
      simp only [hresolver] at hsettled
      split
      · next value hfound =>
        -- what the memo holds is what the item is worth
        obtain ⟨memo, hmemo, hlookup⟩ := Option.bind_eq_some_iff.mp hfound
        have hvalue := hs.memo memo hmemo item value hlookup
        rw [hvalue] at hbelow ⊢
        exact ⟨hs, hbelow, .refl _⟩
      · obtain ⟨hs', hl, hh⟩ := step hr ih item s hs
        rw [Network.valueAt, hresolver]
        rw [← hsettled] at hh
        split
        · next value s' hrun =>
          rw [hrun] at hs' hl hh
          exact ⟨isSound_remember hs' hh.eq_of_ok, hl, hh⟩
        · next failure s' hrun =>
          rw [hrun] at hs' hl hh
          exact ⟨hs', hl, hh⟩

/-- A reading finds exactly what the item is worth. -/
theorem read (hr : r.IsPureFor net) (hitems : net.HasItems items) (item : Item) :
    Between r (net.settled r) (net.settled r item) (net.settled r item) (net.read item) :=
  visit hr hitems net.room item

end Read.Between

/-! ## The items of a graph -/

namespace Graph

/-- The items of a graph: its nodes and its links. -/
def items (g : Graph) : List Item :=
  (g.nodes.map fun n => .node n.name) ++ g.links.map fun entry => .link entry.1

/-- A graph has as many items as values. -/
lemma length_items (g : Graph) : g.items.length = g.valueCount := by
  simp [items, valueCount, length_links]

/-- What holds of all items holds of all nodes and of all links. -/
lemma forall_mem_items_iff {g : Graph} {P : Item → Prop} :
    (∀ item ∈ g.items, P item) ↔
      (∀ n ∈ g.nodes, P (.node n.name)) ∧ ∀ id ∈ g.links.map Prod.fst, P (.link id) := by
  unfold items
  rw [List.forall_mem_append, List.forall_mem_map, List.forall_mem_map, List.forall_mem_map]

/-- A link that is found is listed. -/
lemma mem_links_of_link?_eq_some {g : Graph} {id : LinkId} {link : Link}
    (h : g.network.link? id = some link) : (id, link) ∈ g.links := by
  obtain ⟨n, hn, hlink⟩ := Option.bind_eq_some_iff.mp h
  have hmem : n ∈ g.nodes := List.mem_of_find?_eq_some hn
  have hname : n.name = id.source := by simpa using List.find?_some hn
  obtain ⟨hlt, hget⟩ := List.getElem?_eq_some_iff.mp hlink
  refine List.mem_flatMap.mpr ⟨n, hmem, ?_⟩
  have hzip : (n.linkIds.zip n.outgoing)[id.position]? = some (id, link) := by
    rw [List.getElem?_zip_eq_some]
    refine ⟨?_, hlink⟩
    simp [Node.linkIds, hlt, hname]
  exact List.mem_of_getElem? hzip

/-- No item of the network of a graph is missing among its items. -/
lemma hasItems (g : Graph) : g.network.HasItems g.items where
  length_lt := by
    rw [length_items]
    exact Nat.lt_succ_self g.valueCount
  step_eq := by
    intro item hitem call f g'
    cases item with
    | node name =>
      have hnone : g.network.node? name = none := by
        rw [Option.eq_none_iff_forall_ne_some]
        intro n hn
        have hmem : n ∈ g.nodes := List.mem_of_find?_eq_some hn
        have hname : n.name = name := by simpa using List.find?_some hn
        exact hitem (List.mem_append_left _ (List.mem_map.mpr ⟨n, hmem, by rw [hname]⟩))
      simp only [Network.step, Network.nodeStep, hnone]
    | link id =>
      have hnone : g.network.link? id = none := by
        rw [Option.eq_none_iff_forall_ne_some]
        intro link hlink
        exact hitem (List.mem_append_right _
          (List.mem_map.mpr ⟨(id, link), mem_links_of_link?_eq_some hlink, rfl⟩))
      simp only [Network.step, Network.linkStep, hnone]
      cases g.network.node? id.source <;> rfl

/-- In a graph with a resolver, an item is worth to a depth what its step finds to one less. -/
lemma valueAt_succ_eq_step {g : Graph} {r : Registry} (hresolver : g.resolver.isSome) (depth : ℕ)
    (item : Item) :
    g.network.valueAt r (depth + 1) item = g.network.step r.answer (g.network.valueAt r depth) item := by
  obtain ⟨resolver, hsome⟩ := Option.isSome_iff_exists.mp hresolver
  have hitem : g.network.itemResolver? item = some resolver := by
    cases item <;> exact hsome
  rw [Network.valueAt, hitem]

/-- In a graph with a resolver, settled values solve the equations that the steps state. -/
lemma settled_eq_step {g : Graph} {r : Registry} (hr : r.IsPureFor g.network)
    (hresolver : g.resolver.isSome) (item : Item) :
    g.network.settled r item = g.network.step r.answer (g.network.settled r) item := by
  change g.network.valueAt r g.network.room item = _
  rw [← Network.valueAt_of_room_le hr g.hasItems (Nat.le_succ g.network.room)]
  exact valueAt_succ_eq_step hresolver g.network.room item

end Graph

end StockFlow
