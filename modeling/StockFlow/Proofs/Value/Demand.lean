import StockFlow.Proofs.Graph.Links
import StockFlow.Proofs.Outcome
import StockFlow.Value.Reading
/-!
# What links ask for

The declared value of a link is a constant, or it asks for a plugin, for the rest of its source, for
what its target passes on, or for a share of its source. `Link.demand` sorts declared values this
way, and `Network.linkStep_eq` says how the value of a link follows from its demand, so that proofs
about links have one case for each demand. In a linked graph no look-up of a node or link of the graph
fails, and the steps read as what is declared there (`Graph.nodeStep_eq` and
`Graph.exists_linkStep_eq`).
-/

namespace StockFlow

/-- What the value of a link follows from. -/
inductive Demand where
  /-- Nothing: the value is declared, or it is zero because nothing sensible is. -/
  | constant (value : Datum)
  /-- The answer of a plugin. -/
  | answer (params : Entries)
  /-- The value of the source less its other links. -/
  | rest
  /-- The links that leave the target. -/
  | onward
  /-- A percentage of the value of the source. -/
  | share (percentage : Number)

/-- What a link asks for. -/
def Link.demand (link : Link) : Demand :=
  match classify link.value, link.value with
  | .number, value => .constant value
  | .plugin, value => .answer (value.fields?.getD [])
  | .rest, _ => .rest
  | .auto, _ => .onward
  | .percentage, .text s =>
    match parsePercentage s with
    | none => .constant (.int 0)
    | some percentage => .share percentage
  | .numericString, .text s => .constant (((parseNumber s).map Number.toDatum).getD .null)
  | _, _ => .constant (.int 0)

namespace Link

variable {link : Link}

/-- A link whose value is the word for the rest asks for the rest, and no other link does. -/
lemma demand_eq_rest_iff : link.demand = .rest ↔ classify link.value = .rest := by
  unfold demand
  split <;> simp_all
  split <;> simp

/-- A link whose value is the word for what the target passes on asks for that, and no other link
does. -/
lemma demand_eq_onward_iff : link.demand = .onward ↔ classify link.value = .auto := by
  unfold demand
  split <;> simp_all
  split <;> simp

/-- A link asks for a share if its value is a percentage that can be read. -/
lemma demand_eq_share_iff {percentage : Number} :
    link.demand = .share percentage ↔ classify link.value = .percentage ∧
      ∃ s, link.value = .text s ∧ parsePercentage s = some percentage := by
  unfold demand
  split <;> simp_all
  split <;> simp_all

/-- Only links with plugin values ask for plugins. -/
lemma demand_eq_answer_iff {params : Entries} :
    link.demand = .answer params ↔
      classify link.value = .plugin ∧ link.value.fields?.getD [] = params := by
  unfold demand
  split <;> simp_all
  split <;> simp

end Link

/-- How the value of a link follows from its demand. -/
lemma Network.linkStep_eq {m : Type → Type} [Monad m] [MonadExceptOf Failure m] (net : Network)
    (call : LinkId → (Probe → m Datum) → Entries → m Datum) (read : Item → m Datum)
    (id : LinkId) :
    net.linkStep call read id =
      match net.node? id.source, net.link? id with
      | some source, some link =>
        match link.demand with
        | .constant value => return value
        | .answer params => call id (net.probe read id) params
        | .rest => do
          let others ← sumLinks read (source.linkIds.filter fun other => other != id)
          let own ← read (.node source.name)
          return (← MonadExcept.ofExcept do (← own.operand).sub others).toDatum
        | .onward =>
          match net.node? link.target with
          | some target => do return (← sumLinks read target.linkIds).toDatum
          | none => throw .wrongType
        | .share percentage => do
          let value ← read (.node source.name)
          MonadExcept.ofExcept (percentOf value percentage)
      | _, _ => throw .wrongType := by
  unfold linkStep
  cases net.node? id.source with
  | none => rfl
  | some source =>
    cases net.link? id with
    | none => rfl
    | some link =>
      dsimp only
      split
      · next h => simp only [Link.demand, h]
      · next h => simp only [Link.demand, h]
      · next h => simp only [Link.demand, h]
      · next h =>
        cases net.node? link.target <;> simp only [Link.demand, h]
      · next s h hvalue =>
        rw [hvalue] at h
        simp only [Link.demand, hvalue, h]
        cases parsePercentage s <;> rfl
      · next s h hvalue =>
        rw [hvalue] at h
        simp only [Link.demand, hvalue, h]
      · simp_all [Link.demand]

/-- The value of a link that asks for a plugin is its answer. -/
lemma Network.step_eq_call {m : Type → Type} [Monad m] [MonadExceptOf Failure m] {net : Network}
    {id : LinkId} {link : Link} {params : Entries} (hlink : net.link? id = some link)
    (hdemand : link.demand = .answer params)
    (call : LinkId → (Probe → m Datum) → Entries → m Datum) (read : Item → m Datum) :
    net.step call read (.link id) = call id (net.probe read id) params := by
  obtain ⟨source, hsource, -⟩ := Option.bind_eq_some_iff.mp hlink
  rw [step, linkStep_eq, hsource, hlink]
  dsimp only
  rw [hdemand]

section Missing

variable {m : Type → Type} [Monad m] [MonadExceptOf Failure m] {net : Network}

/-- What is not a link has no value. -/
lemma Network.linkStep_of_link?_eq_none {id : LinkId} (h : net.link? id = none)
    (call : LinkId → (Probe → m Datum) → Entries → m Datum) (read : Item → m Datum) :
    net.linkStep call read id = throw .wrongType := by
  unfold linkStep
  rw [h]
  cases net.node? id.source <;> rfl

/-- What is not a node has no value. -/
lemma Network.nodeStep_of_node?_eq_none {name : Text} (h : net.node? name = none)
    (read : Item → m Datum) : net.nodeStep read name = throw .wrongType := by
  unfold nodeStep
  rw [h]

end Missing

/-! ## Steps in linked graphs -/

/-- The links whose sum is the value of a node for which no number is declared. -/
def Node.summands (n : Node) : List LinkId := if n.incoming.isEmpty then n.linkIds else n.incoming

namespace Graph

/-- The number that is declared for a node of a graph, if it counts. -/
def declaredNumber? (g : Graph) (n : Node) : Option Number :=
  g.resolver.bind fun resolver => resolver.declaredNumber? n.value

variable {g : Graph} (hlinked : g.IsLinked)

include hlinked

/-- The links that leave or enter a node of a linked graph are links of the graph. -/
lemma mem_links_of_mem_summands {n : Node} (hn : n ∈ g.nodes) {id : LinkId}
    (hid : id ∈ n.summands) : id ∈ g.links.map Prod.fst := by
  unfold Node.summands at hid
  split at hid
  · exact mem_map_fst_links hn hid
  · obtain ⟨link, hlink, -⟩ := (hlinked.mem_incoming_iff n hn id).mp hid
    exact List.mem_map_of_mem hlink

/-- The value of a node of a linked graph with a resolver. -/
lemma nodeStep_eq (hresolver : g.resolver.isSome) {n : Node} (hn : n ∈ g.nodes)
    (read : Item → Except Failure Datum) :
    g.network.nodeStep read n.name =
      match g.declaredNumber? n with
      | some number => .ok number.toDatum
      | none => do return (← sumLinks read n.summands).toDatum := by
  have hnode : g.network.node? n.name = some n :=
    (node?_eq_some_iff hlinked.nodup_names).mpr ⟨hn, rfl⟩
  obtain ⟨resolver, hsome⟩ := Option.isSome_iff_exists.mp hresolver
  have hsome' : g.network.resolver? n.name = some resolver := hsome
  unfold Network.nodeStep declaredNumber?
  rw [hnode, hsome', hsome, Option.bind_some]
  rfl

/-- The value of a link of a linked graph. -/
lemma exists_linkStep_eq {id : LinkId} {link : Link} (hlink : (id, link) ∈ g.links) :
    ∃ source ∈ g.nodes, source.name = id.source ∧ ∃ target ∈ g.nodes, target.name = link.target ∧
      ∀ (call : LinkId → (Probe → Except Failure Datum) → Entries → Except Failure Datum)
        (read : Item → Except Failure Datum), g.network.linkStep call read id =
          match link.demand with
          | .constant value => .ok value
          | .answer params => call id (g.network.probe read id) params
          | .rest => do
            let others ← sumLinks read (source.linkIds.filter fun other => other != id)
            let own ← read (.node source.name)
            let whole ← own.operand
            return (← whole.sub others).toDatum
          | .onward => do return (← sumLinks read target.linkIds).toDatum
          | .share percentage => (do percentOf (← read (.node source.name)) percentage) := by
  obtain ⟨source, hsource, hname, hget⟩ := mem_links_iff.mp hlink
  obtain ⟨target, htarget, htname⟩ := List.mem_map.mp
    (hlinked.target_mem source hsource link (List.mem_of_getElem? hget))
  have hfound : g.network.node? id.source = some source :=
    (node?_eq_some_iff hlinked.nodup_names).mpr ⟨hsource, hname.symm⟩
  have hfound' : g.network.node? link.target = some target :=
    (node?_eq_some_iff hlinked.nodup_names).mpr ⟨htarget, htname⟩
  have hlink? : g.network.link? id = some link := (link?_eq_some_iff hlinked.nodup_names).mpr hlink
  refine ⟨source, hsource, hname.symm, target, htarget, htname, fun call read => ?_⟩
  rw [Network.linkStep_eq, hfound, hlink?]
  dsimp only
  cases link.demand with
  | constant value => rfl
  | answer params => rfl
  | rest =>
    simp only [Outcome.ofExcept_eq, bind_assoc]
  | onward =>
    dsimp only
    rw [hfound']
  | share percentage =>
    simp only [Outcome.ofExcept_eq]

end Graph

end StockFlow
