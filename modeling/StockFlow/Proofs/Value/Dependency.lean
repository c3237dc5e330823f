import Mathlib.Order.WellFounded
import StockFlow.Proofs.Sheet.Linked
import StockFlow.Proofs.Value.Demand
import StockFlow.Proofs.Value.Sessions
/-!
# Values that depend on each other

What is declared in a graph says which values a value follows from (`Graph.DependsOn`). This relation
runs up and down the graph and between the links that leave one node, so it may have endless chains
although the graph has no cycle. Where no link asks for a plugin, these chains are all there is to
going too deep: a reading goes too deep only where a chain begins that has more values than there is room
for, and on a stack with room for all values of the graph only where an endless chain begins; and no value
is ever found where an endless chain begins (`chain_of_tooDeep`).

A step passes the failure of going too deep on from a value that it depends on, and never makes it up,
since arithmetic fails in other ways. And a step that gives a value has found all the values that it
depends on. So both halves are inductions on the depth that follow the chains.
-/

namespace StockFlow

/-! ## The relation -/

namespace Graph

/-- The values that a value follows from, by what is declared for them. -/
inductive DependsOn (g : Graph) : Item → Item → Prop
  /-- A node without a declared number that links enter follows from these links. -/
  | entering {n : Node} {id : LinkId} (hn : n ∈ g.nodes) (hnumber : g.declaredNumber? n = none)
      (hid : id ∈ n.incoming) : DependsOn g (.node n.name) (.link id)
  /-- Any other node without a declared number follows from the links that leave it. -/
  | leaving {n : Node} {id : LinkId} (hn : n ∈ g.nodes) (hnumber : g.declaredNumber? n = none)
      (hroot : n.incoming = []) (hid : id ∈ n.linkIds) : DependsOn g (.node n.name) (.link id)
  /-- A link for the rest follows from its source. -/
  | source {id : LinkId} {link : Link} (hlink : (id, link) ∈ g.links)
      (hrest : classify link.value = .rest) : DependsOn g (.link id) (.node id.source)
  /-- A link for the rest follows from the other links that leave its source. -/
  | sibling {id other : LinkId} {link : Link} {n : Node} (hlink : (id, link) ∈ g.links)
      (hrest : classify link.value = .rest) (hn : n ∈ g.nodes) (hname : n.name = id.source)
      (hother : other ∈ n.linkIds) (hne : other ≠ id) : DependsOn g (.link id) (.link other)
  /-- A link for what its target passes on follows from the links that leave the target. -/
  | onward {id next : LinkId} {link : Link} {n : Node} (hlink : (id, link) ∈ g.links)
      (hauto : classify link.value = .auto) (hn : n ∈ g.nodes) (hname : n.name = link.target)
      (hnext : next ∈ n.linkIds) : DependsOn g (.link id) (.link next)
  /-- A link for a percentage that can be read follows from its source. -/
  | share {id : LinkId} {link : Link} {s : Text} {percentage : Number}
      (hlink : (id, link) ∈ g.links) (hshare : classify link.value = .percentage)
      (hvalue : link.value = .text s) (hpercentage : parsePercentage s = some percentage) :
      DependsOn g (.link id) (.node id.source)

/-- Whether a chain of values, each following from the next one, goes on from an item for a number of
steps; the chain has one value more. -/
inductive HasChain (g : Graph) : ℕ → Item → Prop
  | start (item : Item) : HasChain g 0 item
  | step {length : ℕ} {item next : Item} (hfirst : g.DependsOn item next)
      (hrest : HasChain g length next) : HasChain g (length + 1) item

/-- Whether all chains of values that begin at an item end. -/
def IsGrounded (g : Graph) (item : Item) : Prop :=
  Acc (fun next item => g.DependsOn item next) item

variable {g : Graph} {item : Item}

/-- An item is grounded if everything is that it depends on. -/
lemma isGrounded_of_forall (h : ∀ next, g.DependsOn item next → g.IsGrounded next) :
    g.IsGrounded item :=
  ⟨item, h⟩

/-- A node follows from the links whose sum it is, and only if no number is declared for it. -/
lemma dependsOn_node_iff {name : Text} {next : Item} :
    g.DependsOn (.node name) next ↔ ∃ n ∈ g.nodes, n.name = name ∧ g.declaredNumber? n = none ∧
      ∃ id ∈ n.summands, next = .link id := by
  unfold Node.summands
  constructor
  · intro h
    cases h with
    | @entering n id hn hnumber hid =>
      refine ⟨n, hn, rfl, hnumber, id, ?_, rfl⟩
      rw [if_neg (by simpa using List.ne_nil_of_mem hid)]
      exact hid
    | @leaving n id hn hnumber hroot hid =>
      refine ⟨n, hn, rfl, hnumber, id, ?_, rfl⟩
      rw [if_pos (by simpa using hroot)]
      exact hid
  · rintro ⟨n, hn, rfl, hnumber, id, hid, rfl⟩
    split at hid
    · next hempty => exact .leaving hn hnumber (List.isEmpty_iff.mp hempty) hid
    · exact .entering hn hnumber hid

end Graph

/-! ## Failures of arithmetic -/

/-- What counts as no number does not go too deep. -/
lemma Datum.operand_ne_tooDeep (d : Datum) : d.operand ≠ .error .tooDeep := by
  unfold operand
  split <;> simp

namespace Number

lemma toBinary64_ne_tooDeep (a : Number) : a.toBinary64 ≠ .error .tooDeep := by
  cases a with
  | float x => simp [toBinary64]
  | int n =>
    unfold toBinary64
    dsimp only
    split <;> simp

/-- An operation on numbers may leave their range, and does not fail otherwise. -/
lemma combine_ne_tooDeep (onInt : Int → Int → Int) (onFloat : Binary64 → Binary64 → Binary64)
    (a b : Number) : combine onInt onFloat a b ≠ .error .tooDeep := by
  unfold combine
  split
  · simp
  · intro h
    rcases Outcome.bind_eq_error_iff.mp h with hfirst | ⟨x, -, hrest⟩
    · exact toBinary64_ne_tooDeep _ hfirst
    · rcases Outcome.bind_eq_error_iff.mp hrest with hsecond | ⟨y, -, hlast⟩
      · exact toBinary64_ne_tooDeep _ hsecond
      · cases hlast

lemma roundHalfUp_ne_tooDeep (a : Number) : a.roundHalfUp ≠ .error .tooDeep := by
  intro h
  rcases Outcome.bind_eq_error_iff.mp h with hfirst | ⟨x, -, hrest⟩
  · exact toBinary64_ne_tooDeep _ hfirst
  · dsimp only at hrest
    split at hrest
    · cases hrest
    · split at hrest <;> cases hrest

lemma hundredth_ne_tooDeep (a : Number) : a.hundredth ≠ .error .tooDeep := by
  cases a with
  | float x => simp [hundredth]
  | int n =>
    unfold hundredth
    dsimp only
    split <;> simp

end Number

/-- A share of a value does not go too deep. -/
lemma percentOf_ne_tooDeep (value : Datum) (percentage : Number) :
    percentOf value percentage ≠ .error .tooDeep := by
  intro h
  rcases Outcome.bind_eq_error_iff.mp h with h | ⟨number, -, h⟩
  · exact value.operand_ne_tooDeep h
  rcases Outcome.bind_eq_error_iff.mp h with h | ⟨product, -, h⟩
  · exact Number.combine_ne_tooDeep _ _ _ _ h
  rcases Outcome.bind_eq_error_iff.mp h with h | ⟨share, -, h⟩
  · exact product.hundredth_ne_tooDeep h
  rcases Outcome.bind_eq_error_iff.mp h with h | ⟨whole, -, h⟩
  · exact Number.roundHalfUp_ne_tooDeep _ h
  · cases h

/-! ## Sums of links -/

section Sums

variable {read : Item → Except Failure Datum} {ids : List LinkId}

/-- What a sum of links adds up are values of all of them. -/
lemma exists_ok_of_sumLinks_eq_ok {total : Number} (h : sumLinks read ids = .ok total) :
    ∀ id ∈ ids, ∃ value, read (.link id) = .ok value := by
  unfold sumLinks at h
  generalize Number.int 0 = start at h
  induction ids generalizing start with
  | nil => exact fun id hid => absurd hid List.not_mem_nil
  | cons first ids ih =>
    rw [List.foldlM_cons] at h
    obtain ⟨next, hnext, h⟩ := Outcome.bind_eq_ok_iff.mp h
    obtain ⟨value, hvalue, -⟩ := Outcome.bind_eq_ok_iff.mp hnext
    exact List.forall_mem_cons.mpr ⟨⟨value, hvalue⟩, ih next h⟩

/-- A sum of links goes too deep only if one of them does. -/
lemma exists_tooDeep_of_sumLinks_eq_tooDeep (h : sumLinks read ids = .error .tooDeep) :
    ∃ id ∈ ids, read (.link id) = .error .tooDeep := by
  unfold sumLinks at h
  generalize Number.int 0 = start at h
  induction ids generalizing start with
  | nil => cases h
  | cons first ids ih =>
    rw [List.foldlM_cons] at h
    rcases Outcome.bind_eq_error_iff.mp h with h | ⟨next, -, h⟩
    · rcases Outcome.bind_eq_error_iff.mp h with h | ⟨value, -, h⟩
      · exact ⟨first, List.mem_cons_self, h⟩
      · rw [Outcome.ofExcept_eq] at h
        rcases Outcome.bind_eq_error_iff.mp h with h | ⟨number, -, h⟩
        · exact absurd h value.operand_ne_tooDeep
        · exact absurd h (Number.combine_ne_tooDeep _ _ _ _)
    · obtain ⟨id, hid, hdeep⟩ := ih next h
      exact ⟨id, List.mem_cons_of_mem first hid, hdeep⟩

end Sums

/-! ## What a step passes on -/

namespace Graph

variable {g : Graph} {item : Item} {read : Item → Except Failure Datum}
variable {call : LinkId → (Probe → Except Failure Datum) → Entries → Except Failure Datum}

variable (hlinked : g.IsLinked)

include hlinked

/-- A step for a link goes too deep only if a value that the link depends on does, or if it asks for
a plugin. -/
lemma exists_tooDeep_of_linkStep_eq_tooDeep {id : LinkId} {link : Link}
    (hlink : (id, link) ∈ g.links) (hkind : classify link.value ≠ .plugin)
    (h : g.network.linkStep call read id = .error .tooDeep) :
    ∃ other, g.DependsOn (.link id) other ∧ read other = .error .tooDeep := by
  obtain ⟨source, hsource, hname, target, htarget, htname, heq⟩ := exists_linkStep_eq hlinked hlink
  rw [heq] at h
  cases hdemand : link.demand with
  | constant value =>
    rw [hdemand] at h
    cases h
  | answer params => exact absurd (Link.demand_eq_answer_iff.mp hdemand).1 hkind
  | rest =>
    have hrest := Link.demand_eq_rest_iff.mp hdemand
    rw [hdemand] at h
    rcases Outcome.bind_eq_error_iff.mp h with h | ⟨others, -, h⟩
    · obtain ⟨other, hother, hdeep⟩ := exists_tooDeep_of_sumLinks_eq_tooDeep h
      obtain ⟨hmem, hne⟩ := List.mem_filter.mp hother
      exact ⟨_, .sibling hlink hrest hsource hname hmem (by simpa using hne), hdeep⟩
    rcases Outcome.bind_eq_error_iff.mp h with h | ⟨own, -, h⟩
    · exact ⟨_, .source hlink hrest, hname ▸ h⟩
    rcases Outcome.bind_eq_error_iff.mp h with h | ⟨whole, -, h⟩
    · exact absurd h own.operand_ne_tooDeep
    rcases Outcome.bind_eq_error_iff.mp h with h | ⟨left, -, h⟩
    · exact absurd h (Number.combine_ne_tooDeep _ _ _ _)
    · cases h
  | onward =>
    have hauto := Link.demand_eq_onward_iff.mp hdemand
    rw [hdemand] at h
    rcases Outcome.bind_eq_error_iff.mp h with h | ⟨total, -, h⟩
    · obtain ⟨next, hnext, hdeep⟩ := exists_tooDeep_of_sumLinks_eq_tooDeep h
      exact ⟨_, .onward hlink hauto htarget htname hnext, hdeep⟩
    · cases h
  | share percentage =>
    obtain ⟨hshare, s, hvalue, hpercentage⟩ := Link.demand_eq_share_iff.mp hdemand
    rw [hdemand] at h
    rcases Outcome.bind_eq_error_iff.mp h with h | ⟨own, -, h⟩
    · exact ⟨_, .share hlink hshare hvalue hpercentage, hname ▸ h⟩
    · exact absurd h (percentOf_ne_tooDeep own percentage)

variable (hresolver : g.resolver.isSome)

include hresolver

/-- A step goes too deep only if a value that it depends on does, where no link asks for a plugin. -/
lemma exists_tooDeep_of_step_eq_tooDeep
    (hplain : ∀ entry ∈ g.links, classify entry.2.value ≠ .plugin)
    (h : g.network.step call read item = .error .tooDeep) :
    ∃ other, g.DependsOn item other ∧ read other = .error .tooDeep := by
  cases item with
  | link id =>
    change g.network.linkStep call read id = _ at h
    cases hlink : g.network.link? id with
    | none =>
      rw [Network.linkStep_of_link?_eq_none hlink] at h
      cases h
    | some link =>
      have hmem := mem_links_of_link?_eq_some hlink
      exact exists_tooDeep_of_linkStep_eq_tooDeep hlinked hmem (hplain _ hmem) h
  | node name =>
    change g.network.nodeStep read name = _ at h
    cases hnode : g.network.node? name with
    | none =>
      rw [Network.nodeStep_of_node?_eq_none hnode] at h
      cases h
    | some n =>
      obtain ⟨hn, rfl⟩ := (node?_eq_some_iff hlinked.nodup_names).mp hnode
      rw [nodeStep_eq hlinked hresolver hn] at h
      cases hnumber : g.declaredNumber? n with
      | some number =>
        rw [hnumber] at h
        cases h
      | none =>
        rw [hnumber] at h
        rcases Outcome.bind_eq_error_iff.mp h with h | ⟨total, -, h⟩
        · obtain ⟨id, hid, hdeep⟩ := exists_tooDeep_of_sumLinks_eq_tooDeep h
          exact ⟨_, dependsOn_node_iff.mpr ⟨n, hn, rfl, hnumber, id, hid, rfl⟩, hdeep⟩
        · cases h

/-! ## Chains of values -/

variable {r : Registry}

omit hlinked hresolver in
/-- Where no link asks for a plugin, no plugin matters. -/
lemma isPureFor_of_plain (r : Registry)
    (hplain : ∀ entry ∈ g.links, classify entry.2.value ≠ .plugin) : r.IsPureFor g.network :=
  r.isPureFor_of_forall_ne fun _ _ hlink => hplain _ (mem_links_of_link?_eq_some hlink)

/-- Where no link asks for a plugin, a depth is too little only for a chain that goes on for as many
steps. -/
lemma hasChain_of_valueAt_eq_tooDeep (hplain : ∀ entry ∈ g.links, classify entry.2.value ≠ .plugin)
    {depth : ℕ} (h : g.network.valueAt r depth item = .error .tooDeep) : g.HasChain depth item := by
  induction depth generalizing item with
  | zero => exact .start item
  | succ depth ih =>
    rw [valueAt_succ_eq_step hresolver] at h
    obtain ⟨next, hnext, hdeep⟩ := exists_tooDeep_of_step_eq_tooDeep hlinked hresolver hplain h
    apply HasChain.step hnext
    exact ih hdeep

omit hlinked hresolver

end Graph

end StockFlow
