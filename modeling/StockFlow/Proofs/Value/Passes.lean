import Mathlib.Data.List.Perm.Basic
import StockFlow.Plugin.Catalogue
import StockFlow.Proofs.Sheet.Outline
import StockFlow.Proofs.Value.Stack
import StockFlow.Sheet.Collection
/-!
# Reading in passes

Inside a pass a value is computed once and looked up afterwards, and a value that could not be
computed is computed anew. With pure plugins this shows in one way only: a value that has been
remembered takes no further room on the stack, so a pass may answer where a question by itself goes too
deep. Any other answer is the one that the question gets by itself, and where the stack is enough for the
questions by themselves nothing of the pass shows at all, whatever the order of the questions
(`answers_openPass`). The reason is that a memo holds nothing but settled values, however the
readings that filled it have ended.
-/

namespace StockFlow

/-! ## Questions -/

/-- A question about the values of a graph: the value of a node, the sum of the links that leave a
node, or the value of a link. -/
inductive Query where
  | node (name : Text)
  | outgoing (name : Text)
  | link (id : LinkId)

namespace Query

/-- The reading that a question asks for. -/
def read (net : Network) : Query → Read Datum
  | .node name => net.nodeValue name
  | .outgoing name => net.outgoingValue name
  | .link id => net.linkValue id

/-- The values of a graph that a question reads. -/
def items (g : Graph) : Query → List Item
  | .node name => [.node name]
  | .outgoing name => ((g.node? name).elim [] Node.linkIds).map .link
  | .link id => [.link id]

/-- The answer to a question by settled values. -/
def answer (net : Network) (r : Registry) : Query → Except Failure Datum
  | .node name => net.settled r (.node name)
  | .outgoing name =>
    match net.node? name with
    | some n => do return (← sumLinks (net.settled r) n.linkIds).toDatum
    | none => .error .wrongType
  | .link id => net.settled r (.link id)

/-- What is judged of the values is judged of the questions about them. -/
lemma exists_holds {ι : Type} {J : Read.Judgement ι} {net : Network}
    {v : ι → Item → Except Failure Datum}
    (h : ∀ item, J.Holds (fun i => v i item) (net.read item)) (q : Query) :
    ∃ e, J.Holds e (q.read net) := by
  cases q with
  | node name => exact ⟨_, h (.node name)⟩
  | link id => exact ⟨_, h (.link id)⟩
  | outgoing name =>
    simp only [read, Network.outgoingValue]
    cases net.node? name with
    | none => exact ⟨fun _ => .error .wrongType, J.throw _⟩
    | some n => exact ⟨_, J.map Number.toDatum (Read.Judgement.sumLinks h n.linkIds)⟩

/-- A reading finds the answer by settled values, if the plugins that links ask for are pure. -/
lemma between {net : Network} {r : Registry} {items : List Item} (hr : r.IsPureFor net)
    (hitems : net.HasItems items) (q : Query) :
    Read.Between r (net.settled r) (q.answer net r) (q.answer net r) (q.read net) := by
  cases q with
  | node name => exact Read.Between.read hr hitems (.node name)
  | link id => exact Read.Between.read hr hitems (.link id)
  | outgoing name =>
    simp only [answer, read, Network.outgoingValue]
    cases net.node? name with
    | none => exact Read.Between.throw _
    | some n => exact (Read.Between.sumLinks (Read.Between.read hr hitems) _).map _

/-- A reading finds the answer by settled values, if all plugins are pure. -/
lemma between_read {net : Network} {r : Registry} {items : List Item} (hr : r.IsPure)
    (hitems : net.HasItems items) (q : Query) :
    Read.Between r (net.settled r) (q.answer net r) (q.answer net r) (q.read net) :=
  q.between (hr.isPureFor net) hitems

/-- On any stack and with any memo a reading finds no less than the stack has room for without a memo, and
nothing else than the answer by settled values. -/
lemma between_networkOn {g : Graph} {r : Registry} (hr : r.IsPureFor g.network) (room : ℕ) (q : Query) :
    Read.Between r (g.network.settled r) (q.answer (g.networkOn room) r) (q.answer g.network r)
      (q.read (g.networkOn room)) := by
  have hread := Read.Between.read_networkOn hr room
  cases q with
  | node name => exact hread (.node name)
  | link id => exact hread (.link id)
  | outgoing name =>
    have hnode : (g.networkOn room).node? name = g.network.node? name := rfl
    simp only [answer, read, Network.outgoingValue, hnode]
    cases g.network.node? name with
    | none => exact Read.Between.throw _
    | some n => exact (Read.Between.sumLinks hread _).map _

/-- Without a memo a reading finds exactly what the stack has room for. -/
lemma alone_read {net : Network} {r : Registry} (hr : r.IsPureFor net) (q : Query) :
    Read.Alone r (q.answer net r) (q.read net) := by
  cases q with
  | node name => exact Read.Alone.read hr (.node name)
  | link id => exact Read.Alone.read hr (.link id)
  | outgoing name =>
    simp only [answer, read, Network.outgoingValue]
    cases net.node? name with
    | none => exact Read.Alone.throw _
    | some n =>
      have hsum : Read.Alone r (sumLinks (net.settled r) n.linkIds) (sumLinks net.read n.linkIds) :=
        Read.Judgement.sumLinks (J := Read.Alone.judgement r) (v := fun _ => net.settled r)
          (Read.Alone.read hr) n.linkIds
      exact hsum.bind fun total => .pure total.toDatum

/-- All stacks with room for more values than a graph has give the same answers. -/
lemma answer_networkOn_of_lt {g : Graph} {r : Registry} (hr : r.IsPureFor g.network) {room : ℕ}
    (h : g.valueCount < room) (q : Query) : q.answer (g.networkOn room) r = q.answer g.network r := by
  have hsettled : (g.networkOn room).settled r = g.network.settled r :=
    funext (Graph.settled_networkOn_of_lt hr h)
  unfold answer
  rw [hsettled]
  rfl

end Query

/-! ## Readings by themselves -/

/-- A reading with exact bounds has that outcome outside any pass. -/
lemma Read.Between.runFresh {α : Type} {r : Registry} {truth : Item → Except Failure Datum}
    {e : Except Failure α} {x : Read α} (hx : Read.Between r truth e e x) :
    (Read.runFresh x r).1 = e := by
  obtain ⟨-, hl, hh⟩ := hx ⟨none, r, []⟩ (Reading.isSound_of_memo?_eq_none rfl rfl)
  exact (hl.antisymm hh).symm

/-- The answer that a question gets by itself, outside any pass, on a stack with a given room. -/
def Graph.answerAlone (g : Graph) (r : Registry) (room : ℕ) (q : Query) : Except Failure Datum :=
  (Read.runFresh (q.read (g.networkOn room)) r).1

/-- By itself a question gets the answer by the values for which the stack has room. -/
lemma Graph.answerAlone_eq {g : Graph} {r : Registry} (hr : r.IsPureFor g.network) (room : ℕ)
    (q : Query) : g.answerAlone r room q = q.answer (g.networkOn room) r :=
  have hpure : r.IsPureFor (g.networkOn room) := hr
  (q.alone_read hpure).runFresh

/-- Outcomes between bounds that meet are the bounds. -/
lemma eq_map_of_forall₂_approximates {α β : Type} {low high : α → Except Failure β} {as : List α}
    {outcomes : List (Except Failure β)}
    (h : List.Forall₂ (fun a outcome => Approximates (low a) outcome ∧ Approximates outcome (high a))
      as outcomes) (hmeet : ∀ a ∈ as, low a = high a) : outcomes = as.map low := by
  induction h with
  | nil => rfl
  | @cons a outcome as outcomes hbounds _ ih =>
    rw [List.forall_mem_cons] at hmeet
    have houtcome : outcome = low a := (hmeet.1 ▸ hbounds.2).antisymm hbounds.1
    rw [List.map_cons, houtcome, ih hmeet.2]

/-! ## Sessions -/

namespace LiveGraph

/-- The answers to questions that are asked of a live graph one after the other, on a stack with a given
room. When one cannot be answered, the next one is asked all the same. -/
def answers (l : LiveGraph) (room : ℕ) (r : Registry) : List Query → List (Except Failure Datum)
  | [] => []
  | q :: rest =>
    let (outcome, l', r') := l.run r (q.read (l.graph.networkOn room))
    outcome :: l'.answers room r' rest

/-- While the memo holds nothing but settled values, every answer lies between the one that the question
gets by itself and the settled one. -/
lemma forall₂_answers {r : Registry} (room : ℕ) (queries : List Query) {l : LiveGraph}
    (hr : r.IsPureFor l.graph.network) {r' : Registry} (htable : r'.table = r.table)
    (hmemo : ∀ memo, l.memo? = some memo → Memo.IsSound memo (l.graph.network.settled r)) :
    List.Forall₂ (fun q answer => Approximates (l.graph.answerAlone r room q) answer ∧
      Approximates answer (q.answer l.graph.network r)) queries (l.answers room r' queries) := by
  induction queries generalizing l r' with
  | nil => exact .nil
  | cons q rest ih =>
    obtain ⟨hs, hl, hh⟩ := q.between_networkOn hr room ⟨l.memo?, r', []⟩ ⟨htable, hmemo⟩
    rw [← Graph.answerAlone_eq hr] at hl
    exact .cons ⟨hl, hh⟩ (ih (l := (l.run r' (q.read (l.graph.networkOn room))).2.1) hr hs.table hs.memo)

end LiveGraph

/-- **Passes do not show, but for the stack.**  With pure plugins, whatever questions are asked of a graph
inside a pass, on a stack with whatever room, each of them gets the answer that it gets by itself outside
any pass, unless by itself it goes too deep; and it gets no other answer than going too deep or the one
that it gets by itself on every stack with room for more values than the graph has. So where the stack is
enough for each of the questions by itself, all of them get the answers that they get by themselves, when
they are asked one after the other while the pass is open and when they are parts of one reading, and the
answers do not depend on the order of the questions. A stack with room for more values than the graph has
is enough. -/
theorem answers_openPass (g : Graph) {r : Registry} (hr : r.IsPure) (room : ℕ) (queries : List Query) :
    List.Forall₂ (fun q answer => Approximates (g.answerAlone r room q) answer ∧
        ∀ more, g.valueCount < more → Approximates answer (g.answerAlone r more q))
      queries ((LiveGraph.openPass { graph := g }).1.answers room r queries) ∧
    ((∀ q ∈ queries, g.answerAlone r room q = g.answerAlone r (g.valueCount + 1) q) →
      (LiveGraph.openPass { graph := g }).1.answers room r queries =
          queries.map (g.answerAlone r room) ∧
        (Read.runFresh (Read.inPass
          (queries.mapM fun q => Read.attempt (q.read (g.networkOn room)))) r).1 =
          .ok (queries.map (g.answerAlone r room)) ∧
        ∀ reordered, queries.Perm reordered →
          (queries.zip ((LiveGraph.openPass { graph := g }).1.answers room r queries)).Perm
            (reordered.zip ((LiveGraph.openPass { graph := g }).1.answers room r reordered))) ∧
    (g.valueCount < room → ∀ q, g.answerAlone r room q = g.answerAlone r (g.valueCount + 1) q) := by
  have hpure : r.IsPureFor g.network := hr.isPureFor g.network
  have halone : ∀ more, g.valueCount < more → ∀ q, g.answerAlone r more q = q.answer g.network r := by
    intro more hmore q
    rw [Graph.answerAlone_eq hpure, Query.answer_networkOn_of_lt hpure hmore]
  have hempty : ∀ memo, (LiveGraph.openPass { graph := g }).1.memo? = some memo →
      Memo.IsSound memo (g.network.settled r) := by
    intro memo hmemo item value hlookup
    cases hmemo
    simp at hlookup
  have hsession : ∀ qs : List Query, List.Forall₂ (fun q answer =>
      Approximates (g.answerAlone r room q) answer ∧ Approximates answer (q.answer g.network r))
      qs ((LiveGraph.openPass { graph := g }).1.answers room r qs) :=
    fun qs => LiveGraph.forall₂_answers room qs hpure rfl hempty
  refine ⟨(hsession queries).imp ?_, ?_, ?_⟩
  · rintro q answer ⟨hlow, hhigh⟩
    refine ⟨hlow, fun more hmore => ?_⟩
    rw [halone more hmore]
    exact hhigh
  · intro henough
    have hmeet : ∀ q ∈ queries, g.answerAlone r room q = q.answer g.network r := fun q hq =>
      (henough q hq).trans (halone _ (Nat.lt_succ_self _) q)
    have hexact : ∀ qs : List Query, qs.Perm queries →
        (LiveGraph.openPass { graph := g }).1.answers room r qs = qs.map (g.answerAlone r room) :=
      fun qs hqs => eq_map_of_forall₂_approximates (hsession qs) fun q hq =>
        hmeet q (hqs.mem_iff.mp hq)
    refine ⟨hexact queries (.refl _), ?_, fun reordered hperm => ?_⟩
    · have htried : ∀ q ∈ queries, Read.Between r (g.network.settled r)
          (.ok (g.answerAlone r room q)) (.ok (g.answerAlone r room q))
          (Read.attempt (q.read (g.networkOn room))) := by
        intro q hq
        have hbounds := q.between_networkOn hpure room
        rw [← Graph.answerAlone_eq hpure, ← hmeet q hq] at hbounds
        exact hbounds.attempt
      rw [(Read.Between.mapM queries htried).inPass.runFresh]
      exact List.mapM_pure
    · have hzip : ∀ qs : List Query, qs.zip (qs.map (g.answerAlone r room)) =
          qs.map fun q => (q, g.answerAlone r room q) := by
        intro qs
        simpa using List.zip_map' (l := qs) (f := id) (g := g.answerAlone r room)
      rw [hexact queries (.refl _), hexact reordered hperm.symm, hzip, hzip]
      exact hperm.map _
  · intro hroom q
    rw [halone room hroom, halone _ (Nat.lt_succ_self _)]

/-- A graph in which a stock keeps the rest for one link beside the share that a plugin takes for
another, and a second stock asks for the rest twice, which has no answer. -/
def forkedGraph : Graph where
  nodes :=
    [{ bareNode "S" with
        value := .int 10
        outgoing :=
          [⟨"A", .text "rest", .null, .null⟩,
            ⟨"B", .map [(.text "plugin", .text "share"), (.text "of", .int 3)], .null, .null⟩] },
      { bareNode "T" with
        outgoing := [⟨"A", .text "rest", .null, .null⟩, ⟨"A", .text "rest", .null, .null⟩] },
      { bareNode "A" with incoming := [⟨"S", 0⟩, ⟨"T", 0⟩, ⟨"T", 1⟩] },
      { bareNode "B" with incoming := [⟨"S", 1⟩] }]
  suffix := []
  resolver := some ⟨false⟩

/-- The registry of the plugin that takes shares. -/
def shareRegistry : Registry := { plugins := [⟨"share", Catalogue.share, 0⟩] }

lemma isPure_shareRegistry : shareRegistry.IsPure := by
  intro p hp
  rw [List.mem_singleton.mp hp]
  trivial

/-- A link that depends on itself, asked first, spoils nothing for the links that do not, and the
node that both kinds enter fails like it. -/
theorem answers_openPass_forkedGraph :
    shareRegistry.IsPure ∧ forkedGraph.valueCount < 9 ∧
      (LiveGraph.openPass { graph := forkedGraph }).1.answers 9 shareRegistry
          [.link ⟨"T", 0⟩, .link ⟨"S", 0⟩, .node "B", .node "A", .outgoing "S"] =
        [.error .tooDeep, .ok (.int (-20)), .ok (.int 30), .error .tooDeep, .ok (.int 10)] := by
  refine ⟨isPure_shareRegistry, by decide, ?_⟩
  obtain ⟨-, hexact, henough⟩ := answers_openPass forkedGraph isPure_shareRegistry 9
    [.link ⟨"T", 0⟩, .link ⟨"S", 0⟩, .node "B", .node "A", .outgoing "S"]
  rw [(hexact fun q _ => henough (by decide) q).1]
  rfl

/-- A sheet of nodes in a row, each of which passes the rest of what it has on to the next one. -/
def cascadeSheet (length : ℕ) : List Datum :=
  (List.range length).map fun i => .map
    [(.text "name", .int i), (.text "value", if i = 0 then .int 1 else .null),
      (.text "links", .list [.map [(.text "to", .int (i + 1)), (.text "value", .text "rest")]])]

/-- On a stack with room for a part of a cascade, its nodes all have their value when they are asked in
order inside a pass, and the last ones go too deep when each of them is asked by itself. -/
theorem answers_ne_answerAlone_cascadeSheet :
    ∃ gs g queries, buildGraphs {} (cascadeSheet 9) = .ok gs ∧ g ∈ gs ∧ Registry.IsPure {} ∧
      ((LiveGraph.openPass { graph := g }).1.answers 12 {} queries).map (Except.map Datum.number?) =
        List.replicate 10 (.ok (some (.int 1))) ∧
      (queries.map (g.answerAlone {} 12)).map (Except.map Datum.number?) =
        List.replicate 6 (.ok (some (.int 1))) ++ List.replicate 4 (.error .tooDeep) ∧
      (LiveGraph.openPass { graph := g }).1.answers 12 {} queries ≠
        queries.map (g.answerAlone {} 12) := by
  have hran : ((buildGraphs {} (cascadeSheet 9)).toOption.bind fun gs => gs.head?.map fun g =>
      (((LiveGraph.openPass { graph := g }).1.answers 12 {}
          (g.nodes.map fun n => .node n.name)).map (Except.map Datum.number?),
        ((g.nodes.map fun n => Query.node n.name).map (g.answerAlone {} 12)).map
          (Except.map Datum.number?))) =
      some (List.replicate 10 (.ok (some (.int 1))),
        List.replicate 6 (.ok (some (.int 1))) ++ List.replicate 4 (.error .tooDeep)) := by
    decide +kernel
  obtain ⟨gs, g, hbuilt, hmem, hfacts⟩ := exists_graph_of_head? hran
  simp only [Prod.mk.injEq] at hfacts
  obtain ⟨hpass, halone⟩ := hfacts
  refine ⟨gs, g, _, hbuilt, hmem, fun p hp => absurd hp List.not_mem_nil, hpass, halone, fun heq => ?_⟩
  rw [heq, halone] at hpass
  cases hpass

end StockFlow
