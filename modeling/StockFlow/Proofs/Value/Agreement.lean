import StockFlow.Proofs.Value.Demand
/-!
# Values that agree with each other

What is declared in a graph states equations between the values of its nodes and links, apart from
the links that ask for plugins (`Graph.IsValuedBy`). The step that computes a value computes the
other side of its equation, so values that their own steps reproduce satisfy all of them
(`Graph.isValuedBy_of_step`).
-/

namespace StockFlow

/-- The sum of the values of links from the left, starting at the whole number zero. -/
def linkTotal (value : Item → Datum) (ids : List LinkId) : Except Failure Number :=
  Number.sum (ids.map fun id => value (.link id))

namespace Graph

/-- Values of nodes and links that agree with what is declared for them and with each other. Nothing
is said about links that ask for plugins. -/
structure IsValuedBy (g : Graph) (value : Item → Datum) : Prop where
  /-- A node for which a number is declared has that number. -/
  declared : ∀ n ∈ g.nodes, ∀ number, g.declaredNumber? n = some number →
    value (.node n.name) = number.toDatum
  /-- Any other node that links enter has their sum. -/
  entered : ∀ n ∈ g.nodes, g.declaredNumber? n = none → n.incoming ≠ [] →
    ∃ total, linkTotal value n.incoming = .ok total ∧ value (.node n.name) = total.toDatum
  /-- Any other node has the sum of the links that leave it. -/
  root : ∀ n ∈ g.nodes, g.declaredNumber? n = none → n.incoming = [] →
    ∃ total, linkTotal value n.linkIds = .ok total ∧ value (.node n.name) = total.toDatum
  /-- A link for the rest has the value of its source less the sum of its other links. -/
  rest : ∀ id link, (id, link) ∈ g.links → classify link.value = .rest →
    ∃ n ∈ g.nodes, n.name = id.source ∧ ∃ own others left,
      (value (.node n.name)).operand = .ok own ∧
      linkTotal value (n.linkIds.filter fun other => other != id) = .ok others ∧
      own.sub others = .ok left ∧ value (.link id) = left.toDatum
  /-- A link for what its target passes on has the sum of the links that leave the target. -/
  onward : ∀ id link, (id, link) ∈ g.links → classify link.value = .auto →
    ∃ n ∈ g.nodes, n.name = link.target ∧ ∃ total,
      linkTotal value n.linkIds = .ok total ∧ value (.link id) = total.toDatum
  /-- A link for a share has that percentage of the value of its source, rounded half up. -/
  share : ∀ id link s percentage, (id, link) ∈ g.links → classify link.value = .percentage →
    link.value = .text s → parsePercentage s = some percentage →
    percentOf (value (.node id.source)) percentage = .ok (value (.link id))

/-! ## Steps that reproduce values -/

variable {g : Graph} {read : Item → Except Failure Datum} {value : Item → Datum}

/-- The sum of links that have values is the sum of the values. -/
lemma sumLinks_eq_linkTotal {ids : List LinkId}
    (hread : ∀ id ∈ ids, read (.link id) = .ok (value (.link id))) :
    sumLinks read ids = linkTotal value ids := by
  unfold sumLinks linkTotal Number.sum
  rw [List.foldlM_map]
  simp only [Outcome.ofExcept_eq]
  generalize Number.int 0 = start
  induction ids generalizing start with
  | nil => rfl
  | cons id ids ih =>
    rw [List.forall_mem_cons] at hread
    rw [List.foldlM_cons, List.foldlM_cons, hread.1]
    exact bind_congr fun total => ih hread.2 total

/-- The step that computes the value of a node says the equation of the node. -/
lemma nodeStep_eq_ok (hlinked : g.IsLinked) (hresolver : g.resolver.isSome) {n : Node}
    (hn : n ∈ g.nodes)
    (hlinks : ∀ id ∈ g.links.map Prod.fst, read (.link id) = .ok (value (.link id)))
    (hstep : g.network.nodeStep read n.name = .ok (value (.node n.name))) :
    match g.declaredNumber? n with
    | some number => value (.node n.name) = number.toDatum
    | none => ∃ total, linkTotal value n.summands = .ok total ∧
        value (.node n.name) = total.toDatum := by
  rw [nodeStep_eq hlinked hresolver hn] at hstep
  cases hdeclared : g.declaredNumber? n with
  | some number =>
    rw [hdeclared] at hstep
    exact (Except.ok.inj hstep).symm
  | none =>
    rw [hdeclared] at hstep
    have hsum : sumLinks read n.summands = linkTotal value n.summands :=
      sumLinks_eq_linkTotal fun id hid => hlinks id (mem_links_of_mem_summands hlinked hn hid)
    obtain ⟨total, htotal, hvalue⟩ := Outcome.bind_eq_ok_iff.mp hstep
    exact ⟨total, hsum ▸ htotal, (Except.ok.inj hvalue).symm⟩

/-- The step that computes the value of a link says the equation that its demand states. -/
lemma linkStep_eq_ok (hlinked : g.IsLinked) {id : LinkId} {link : Link}
    (hlink : (id, link) ∈ g.links)
    (hlinks : ∀ id ∈ g.links.map Prod.fst, read (.link id) = .ok (value (.link id)))
    (hnodes : ∀ n ∈ g.nodes, read (.node n.name) = .ok (value (.node n.name)))
    {call : LinkId → (Probe → Except Failure Datum) → Entries → Except Failure Datum}
    (hstep : g.network.linkStep call read id = .ok (value (.link id))) :
    ∃ source ∈ g.nodes, source.name = id.source ∧ ∃ target ∈ g.nodes, target.name = link.target ∧
      match link.demand with
      | .constant declared => value (.link id) = declared
      | .answer _ => True
      | .rest => ∃ own others left, (value (.node source.name)).operand = .ok own ∧
          linkTotal value (source.linkIds.filter fun other => other != id) = .ok others ∧
          own.sub others = .ok left ∧ value (.link id) = left.toDatum
      | .onward => ∃ total, linkTotal value target.linkIds = .ok total ∧
          value (.link id) = total.toDatum
      | .share percentage =>
          percentOf (value (.node source.name)) percentage = .ok (value (.link id)) := by
  obtain ⟨source, hsource, hname, target, htarget, htname, heq⟩ := exists_linkStep_eq hlinked hlink
  rw [heq] at hstep
  have hsum : ∀ {n : Node} {ids : List LinkId}, n ∈ g.nodes → ids ⊆ n.linkIds →
      sumLinks read ids = linkTotal value ids := by
    intro n ids hn hids
    exact sumLinks_eq_linkTotal fun other hother =>
      hlinks other (mem_map_fst_links hn (hids hother))
  refine ⟨source, hsource, hname, target, htarget, htname, ?_⟩
  cases hdemand : link.demand with
  | constant declared =>
    rw [hdemand] at hstep
    exact (Except.ok.inj hstep).symm
  | answer params => trivial
  | rest =>
    rw [hdemand] at hstep
    obtain ⟨others, hothers, hstep⟩ := Outcome.bind_eq_ok_iff.mp hstep
    obtain ⟨own, hown, hstep⟩ := Outcome.bind_eq_ok_iff.mp hstep
    obtain rfl : value (.node source.name) = own :=
      Except.ok.inj ((hnodes source hsource).symm.trans hown)
    obtain ⟨whole, hwhole, hstep⟩ := Outcome.bind_eq_ok_iff.mp hstep
    obtain ⟨left, hleft, hvalue⟩ := Outcome.bind_eq_ok_iff.mp hstep
    rw [hsum hsource (List.filter_subset_self _)] at hothers
    exact ⟨whole, others, left, hwhole, hothers, hleft, (Except.ok.inj hvalue).symm⟩
  | onward =>
    rw [hdemand] at hstep
    obtain ⟨total, htotal, hvalue⟩ := Outcome.bind_eq_ok_iff.mp hstep
    rw [hsum htarget (List.Subset.refl _)] at htotal
    exact ⟨total, htotal, (Except.ok.inj hvalue).symm⟩
  | share percentage =>
    rw [hdemand] at hstep
    obtain ⟨own, hown, hshare⟩ := Outcome.bind_eq_ok_iff.mp hstep
    obtain rfl : value (.node source.name) = own :=
      Except.ok.inj ((hnodes source hsource).symm.trans hown)
    exact hshare

/-- Values that their own steps reproduce, apart from those of links that ask for plugins, agree with
each other. -/
theorem isValuedBy_of_step (hlinked : g.IsLinked) (hresolver : g.resolver.isSome)
    (call : LinkId → (Probe → Except Failure Datum) → Entries → Except Failure Datum)
    (hnodes : ∀ n ∈ g.nodes, read (.node n.name) = .ok (value (.node n.name)))
    (hlinks : ∀ id ∈ g.links.map Prod.fst, read (.link id) = .ok (value (.link id)))
    (hnodeStep : ∀ n ∈ g.nodes,
      g.network.nodeStep read n.name = .ok (value (.node n.name)))
    (hlinkStep : ∀ id link, (id, link) ∈ g.links → classify link.value ≠ .plugin →
      g.network.linkStep call read id = .ok (value (.link id))) :
    g.IsValuedBy value := by
  have hsum : ∀ n ∈ g.nodes, g.declaredNumber? n = none →
      ∃ total, linkTotal value n.summands = .ok total ∧ value (.node n.name) = total.toDatum := by
    intro n hn hnumber
    have h := nodeStep_eq_ok hlinked hresolver hn hlinks (hnodeStep n hn)
    rw [hnumber] at h
    exact h
  have hequation : ∀ id link, (id, link) ∈ g.links → classify link.value ≠ .plugin → _ :=
    fun id link hlink hplugin =>
      linkStep_eq_ok hlinked hlink hlinks hnodes (hlinkStep id link hlink hplugin)
  constructor
  case declared =>
    intro n hn number hnumber
    have h := nodeStep_eq_ok hlinked hresolver hn hlinks (hnodeStep n hn)
    rw [hnumber] at h
    exact h
  case entered =>
    intro n hn hnumber hincoming
    have h := hsum n hn hnumber
    rw [Node.summands, if_neg (by simpa using hincoming)] at h
    exact h
  case root =>
    intro n hn hnumber hincoming
    have h := hsum n hn hnumber
    rw [Node.summands, if_pos (by simpa using hincoming)] at h
    exact h
  case rest =>
    intro id link hlink hkind
    have hdemand := Link.demand_eq_rest_iff.mpr hkind
    obtain ⟨n, hn, hname, _, _, _, h⟩ := hequation id link hlink (by simp [hkind])
    rw [hdemand] at h
    exact ⟨n, hn, hname, h⟩
  case onward =>
    intro id link hlink hkind
    have hdemand := Link.demand_eq_onward_iff.mpr hkind
    obtain ⟨_, _, _, n, hn, hname, h⟩ := hequation id link hlink (by simp [hkind])
    rw [hdemand] at h
    exact ⟨n, hn, hname, h⟩
  case share =>
    intro id link s percentage hlink hkind hvalue hpercentage
    have hdemand := Link.demand_eq_share_iff.mpr ⟨hkind, s, hvalue, hpercentage⟩
    obtain ⟨n, hn, hname, _, _, _, h⟩ := hequation id link hlink (by simp [hkind])
    rw [hdemand, hname] at h
    exact h

end Graph

end StockFlow
