import StockFlow.Proofs.Graph.Hidden
import StockFlow.Proofs.Value.Passes
/-!
# Values and hidden fields

A value is computed from declared values, names and links, and from no other field. So graphs that agree
but for colours and descriptions compute the same values: every step of the computation is the same
(`Network.AgreesBut.step_eq`), and so are all readings, whatever has been remembered before, and the answers
to all questions (`Graph.AgreesBut.answers_eq`).
-/

namespace StockFlow

variable {hidden : List Field}

namespace Network

/-- Networks whose nodes agree under every name but for hidden fields. -/
structure AgreesBut (hidden : List Field) (net net' : Network) : Prop where
  node? : ∀ name, Option.Rel (Node.AgreesBut hidden) (net.node? name) (net'.node? name)
  resolver? : net.resolver? = net'.resolver?
  room : net.room = net'.room

variable {net net' : Network}

/-- Networks that agree have links that agree. -/
lemma AgreesBut.link? (h : net.AgreesBut hidden net') (id : LinkId) :
    Option.Rel (Link.AgreesBut hidden) (net.link? id) (net'.link? id) :=
  Outcome.rel_option_bind (h.node? id.source) fun _ _ hn => Outcome.rel_getElem? hn.links id.position

/-- Networks that agree have nodes that agree at every place. -/
lemma AgreesBut.nodeAt? (h : net.AgreesBut hidden net') (id : LinkId) (place : Place) :
    Option.Rel (Node.AgreesBut hidden) (net.nodeAt? id place) (net'.nodeAt? id place) := by
  induction place with
  | source => exact h.node? id.source
  | target =>
    refine Outcome.rel_option_bind (h.link? id) fun l l' hl => ?_
    rw [hl.target]
    exact h.node? l'.target
  | sourceOf place position ih =>
    refine Outcome.rel_option_bind ih fun n n' hn => ?_
    rw [hn.incoming]
    change Option.Rel _ (n'.incoming[position]?.bind _) (n'.incoming[position]?.bind _)
    cases n'.incoming[position]? with
    | none => exact .none
    | some entering => exact h.node? entering.source
  | targetOf place position ih =>
    refine Outcome.rel_option_bind ih fun n n' hn => ?_
    refine Outcome.rel_option_bind (Outcome.rel_getElem? hn.links position) fun l l' hl => ?_
    rw [hl.target]
    exact h.node? l'.target

section Steps

variable {m : Type → Type} [Monad m] [MonadExceptOf Failure m]
variable (call : LinkId → (Probe → m Datum) → Entries → m Datum) (read : Item → m Datum)

/-- Scripts read the same in networks that agree. -/
lemma AgreesBut.probe_eq (h : net.AgreesBut hidden net') (id : LinkId) :
    net.probe read id = net'.probe read id := by
  funext p
  cases p with
  | value place =>
    have hnode := h.nodeAt? id place
    simp only [probe]
    generalize net.nodeAt? id place = n?, net'.nodeAt? id place = n'? at hnode
    cases hnode with
    | none => rfl
    | some hn => simp only [hn.name]
  | outgoingValue place =>
    have hnode := h.nodeAt? id place
    simp only [probe]
    generalize net.nodeAt? id place = n?, net'.nodeAt? id place = n'? at hnode
    cases hnode with
    | none => rfl
    | some hn => simp only [hn.linkIds_eq]
  | incomingCount place =>
    have hnode := h.nodeAt? id place
    simp only [probe]
    generalize net.nodeAt? id place = n?, net'.nodeAt? id place = n'? at hnode
    cases hnode with
    | none => rfl
    | some hn => simp only [hn.incoming]
  | outgoingCount place =>
    have hnode := h.nodeAt? id place
    simp only [probe]
    generalize net.nodeAt? id place = n?, net'.nodeAt? id place = n'? at hnode
    cases hnode with
    | none => rfl
    | some hn => simp only [hn.links.length_eq]
  | incomingLink place position =>
    have hnode := h.nodeAt? id place
    simp only [probe]
    generalize net.nodeAt? id place = n?, net'.nodeAt? id place = n'? at hnode
    cases hnode with
    | none => rfl
    | some hn => simp only [Option.bind_some, hn.incoming]
  | outgoingLink place position =>
    have hnode := h.nodeAt? id place
    simp only [probe]
    generalize net.nodeAt? id place = n?, net'.nodeAt? id place = n'? at hnode
    cases hnode with
    | none => rfl
    | some hn => simp only [Option.bind_some, hn.linkIds_eq]

/-- The value of a node does not depend on hidden fields. -/
lemma AgreesBut.nodeStep_eq (h : net.AgreesBut hidden net') (hvalue : .value ∉ hidden) (name : Text) :
    net.nodeStep read name = net'.nodeStep read name := by
  have hnode := h.node? name
  unfold nodeStep
  rw [h.resolver?]
  generalize net.node? name = n?, net'.node? name = n'? at hnode
  cases hnode with
  | none => rfl
  | @some n n' hn =>
    have hdeclared : n.value = n'.value := hn.field .value hvalue
    cases net'.resolver? name with
    | none => rfl
    | some resolver => simp only [hdeclared, hn.linkIds_eq, hn.incoming]

/-- The value of a link does not depend on hidden fields. -/
lemma AgreesBut.linkStep_eq (h : net.AgreesBut hidden net') (hvalue : .value ∉ hidden) (id : LinkId) :
    net.linkStep call read id = net'.linkStep call read id := by
  have hsource := h.node? id.source
  have hlink := h.link? id
  unfold linkStep
  rw [h.probe_eq]
  generalize net.node? id.source = n?, net'.node? id.source = n'? at hsource
  generalize net.link? id = l?, net'.link? id = l'? at hlink
  cases hsource with
  | none => rfl
  | some hn =>
    cases hlink with
    | none => rfl
    | @some l l' hl =>
      have htarget := h.node? l.target
      have hdeclared : l.value = l'.value := hl.field .value hvalue
      simp only [hdeclared, hn.linkIds_eq, hn.name]
      rw [hl.target] at htarget ⊢
      generalize net.node? l'.target = t?, net'.node? l'.target = t'? at htarget
      cases htarget with
      | none => rfl
      | some ht => simp only [ht.linkIds_eq]

/-- The value of an item does not depend on hidden fields. -/
theorem AgreesBut.step_eq (h : net.AgreesBut hidden net') (hvalue : .value ∉ hidden) :
    net.step call read = net'.step call read := by
  funext item
  cases item with
  | node name => exact h.nodeStep_eq read hvalue name
  | link id => exact h.linkStep_eq call read hvalue id

end Steps

/-- Items have the same resolvers in networks that agree. -/
lemma AgreesBut.itemResolver?_eq (h : net.AgreesBut hidden net') (item : Item) :
    net.itemResolver? item = net'.itemResolver? item := by
  cases item with
  | node name => exact congrFun h.resolver? name
  | link id => exact congrFun h.resolver? id.source

/-- Items are detached in the same way from networks that agree. -/
lemma AgreesBut.detached_eq (h : net.AgreesBut hidden net') (item : Item) :
    net.detached item = net'.detached item := by
  cases item with
  | node name => rfl
  | link id =>
    have hlink := h.link? id
    simp only [detached]
    generalize net.link? id = l?, net'.link? id = l'? at hlink
    cases hlink with
    | none => rfl
    | some hl => simp only [Option.map_some, hl.target]

/-- To every depth, items are read alike. -/
lemma AgreesBut.visit_eq (h : net.AgreesBut hidden net') (hvalue : .value ∉ hidden) (depth : ℕ) :
    net.visit depth = net'.visit depth := by
  induction depth with
  | zero => rfl
  | succ depth ih =>
    funext item
    rw [visit, visit, h.itemResolver?_eq, h.detached_eq, ih, h.step_eq _ _ hvalue]

/-- To every depth, items have the same values. -/
lemma AgreesBut.valueAt_eq (h : net.AgreesBut hidden net') (hvalue : .value ∉ hidden) (r : Registry)
    (depth : ℕ) : net.valueAt r depth = net'.valueAt r depth := by
  induction depth with
  | zero => rfl
  | succ depth ih =>
    funext item
    rw [valueAt, valueAt, h.itemResolver?_eq, h.detached_eq, ih, h.step_eq _ _ hvalue]

/-- Items are worth the same in networks that agree. -/
theorem AgreesBut.settled_eq (h : net.AgreesBut hidden net') (hvalue : .value ∉ hidden) (r : Registry) :
    net.settled r = net'.settled r := by
  unfold settled
  rw [h.valueAt_eq hvalue, h.room]

/-- Questions are the same readings in networks that agree. -/
theorem AgreesBut.read_eq (h : net.AgreesBut hidden net') (hvalue : .value ∉ hidden) (q : Query) :
    q.read net = q.read net' := by
  have hread : net.read = net'.read := by
    funext item
    unfold read
    rw [h.visit_eq hvalue, h.room]
  cases q with
  | node name => exact congrFun hread (.node name)
  | link id => exact congrFun hread (.link id)
  | outgoing name =>
    have hnode := h.node? name
    simp only [Query.read, outgoingValue]
    rw [hread]
    generalize net.node? name = n?, net'.node? name = n'? at hnode
    cases hnode with
    | none => rfl
    | some hn => simp only [hn.linkIds_eq]

end Network

namespace Graph

variable {g g' : Graph}

/-- Graphs whose nodes agree in pairs have networks that agree, on any stack. -/
lemma networkOn_agreesBut (hresolver : g.resolver = g'.resolver)
    (hnodes : List.Forall₂ (Node.AgreesBut hidden) g.nodes g'.nodes) (room : ℕ) :
    (g.networkOn room).AgreesBut hidden (g'.networkOn room) where
  node? := rel_node? Node.AgreesBut.name hnodes
  resolver? := by
    unfold networkOn
    rw [hresolver]
  room := rfl

/-- Graphs whose nodes agree in pairs have as many values. -/
lemma valueCount_eq_of_forall₂ (hnodes : List.Forall₂ (Node.AgreesBut hidden) g.nodes g'.nodes) :
    g.valueCount = g'.valueCount := by
  unfold valueCount linkCount
  rw [hnodes.length_eq]
  refine congrArg _ ?_
  generalize g.nodes = ns, g'.nodes = ns' at hnodes
  induction hnodes with
  | nil => rfl
  | cons hn _ ih => rw [List.foldr_cons, List.foldr_cons, ih, hn.links.length_eq]

/-- Graphs whose nodes agree in pairs have networks that agree. -/
lemma network_agreesBut (hresolver : g.resolver = g'.resolver)
    (hnodes : List.Forall₂ (Node.AgreesBut hidden) g.nodes g'.nodes) :
    g.network.AgreesBut hidden g'.network := by
  unfold network
  rw [valueCount_eq_of_forall₂ hnodes]
  exact networkOn_agreesBut hresolver hnodes _

/-- Whatever has been remembered, and on whatever stack, graphs that agree give the same answers to all
questions. -/
theorem AgreesBut.answers_eq (h : g.AgreesBut hidden g') (hvalue : .value ∉ hidden)
    (memo? : Option Memo) (room : ℕ) (r : Registry) (queries : List Query) :
    LiveGraph.answers ⟨g, memo?⟩ room r queries = LiveGraph.answers ⟨g', memo?⟩ room r queries := by
  induction queries generalizing memo? r with
  | nil => rfl
  | cons q queries ih =>
    have hread : q.read (g.networkOn room) = q.read (g'.networkOn room) :=
      (networkOn_agreesBut h.resolver h.nodes room).read_eq hvalue q
    unfold LiveGraph.answers LiveGraph.run
    dsimp only
    rw [hread]
    exact congrArg (List.cons _) (ih _ _)

end Graph

end StockFlow
