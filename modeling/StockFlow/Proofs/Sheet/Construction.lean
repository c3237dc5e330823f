import StockFlow.Proofs.Graph.Coloring
import StockFlow.Proofs.Graph.Walk
import StockFlow.Proofs.Sheet.Alike
/-!
# Nodes out of declarations

Which declarations become nodes, and which nodes they become, as far as their outlines tell. A
declaration whose outline is acceptable becomes a node (`exists_declaredNode_iff`), the node realizes
the outline (`realizes_of_declaredNode`), and collections of the same outline have graphs that are
coloured alike (`Collection.exists_colored`).
-/

namespace StockFlow

/-! ## Acceptable outlines -/

/-- A link has a target if what it declares for it stands for a name. -/
lemma linkTarget_eq_ok_iff {node : Text} {fields : Entries} {t : Text} :
    linkTarget node fields = .ok t ↔ (Entries.get fields "to").nameText? = some t := by
  unfold linkTarget Datum.nameText?
  generalize Entries.get fields "to" = target
  cases target with
  | atom a =>
    cases a with
    | null =>
      constructor
      · intro hok
        cases hok
      · intro hsome
        cases hsome
    | _ => exact Datum.displayed_eq_ok_iff
  | _ => exact Datum.displayed_eq_ok_iff

/-- An outline that can become a node: it lacks the key that no attribute can have, and its links are
mappings with targets. -/
def NodeOutline.IsAcceptable (o : NodeOutline) : Prop :=
  o.forbidden = false ∧ ∃ links, o.links? = some links ∧
    ∀ link ∈ links, ∃ l, link = some l ∧ l.target.nameText?.isSome

/-- A link that is as its outline says. -/
structure Link.Realizes (l : Link) (o : LinkOutline) : Prop where
  target : o.target.nameText? = some l.target
  given : l.color.isTruthy = o.given
  random : l.color.isRandom = o.random

/-- A node that is as its outline says. -/
structure Node.Realizes (n : Node) (name : Text) (o : NodeOutline) : Prop where
  name : n.name = name
  incoming : n.incoming = []
  given : n.color.isTruthy = o.given
  random : n.color.isRandom = o.random
  links : ∃ links, o.links? = some links ∧
    List.Forall₂ (fun link (l : Link) => ∃ lo, link = some lo ∧ l.Realizes lo) links n.outgoing

/-- A declared link is as its outline says. -/
lemma declaredLink_eq_ok {node : Text} {link : Datum} {l : Link}
    (h : declaredLink node link = .ok l) : ∃ o, linkOutline? link = some o ∧ l.Realizes o := by
  unfold declaredLink at h
  obtain ⟨fields, hfields, h⟩ := Outcome.bind_eq_ok_iff.mp h
  obtain ⟨target, htarget, h⟩ := Outcome.bind_eq_ok_iff.mp h
  cases h
  unfold declaredFields at hfields
  unfold linkOutline?
  split at hfields
  · next fields' hfields' =>
    cases hfields
    rw [hfields']
    exact ⟨_, rfl, linkTarget_eq_ok_iff.mp htarget, rfl, rfl⟩
  · cases hfields

/-- A link whose outline stands for one can be declared. -/
lemma exists_declaredLink {node : Text} {link : Datum} {o : LinkOutline}
    (h : linkOutline? link = some o) (htarget : o.target.nameText?.isSome) :
    ∃ l, declaredLink node link = .ok l := by
  unfold linkOutline? at h
  obtain ⟨fields, hfields, rfl⟩ := Option.map_eq_some_iff.mp h
  obtain ⟨t, ht⟩ := Option.isSome_iff_exists.mp htarget
  have htarget' : linkTarget node fields = .ok t := linkTarget_eq_ok_iff.mpr ht
  unfold declaredLink declaredFields
  rw [hfields]
  simp only [bind, Except.bind, htarget']
  exact ⟨_, rfl⟩

/-! ## Declared nodes -/

/-- The key that no attribute can have is among the other keys if it is among the keys. -/
lemma isSome_find?_extraFields (fields : Entries) :
    (Entries.find? (extraFields fields) (.text forbiddenAttribute)).isSome =
      (Entries.find? fields (.text forbiddenAttribute)).isSome := by
  unfold Entries.find? extraFields
  rw [List.find?_filter, Option.isSome_map, Option.isSome_map]
  congr 2
  funext entry
  by_cases hkey : entry.1.sameKey (.text forbiddenAttribute)
  · have htext := Atom.sameKey_text_iff.mp hkey
    rw [htext]
    decide
  · simp [hkey]

/-- The node that is declared under a name with its links attached. -/
def declaredNode (name : Text) (fields : Entries) : Except Failure Node := do
  let sketch ← sketchNode name fields
  return { sketch.node with outgoing := ← sketch.links.mapM (declaredLink sketch.node.name) }

/-- The declared nodes are those of the declarations one by one. -/
lemma Collection.declaredNodes_eq_ok_iff {c : Collection} {nodes : List Node} :
    c.declaredNodes = .ok nodes ↔
      List.Forall₂ (fun (d : Declared) n => declaredNode d.name d.fields = .ok n) c.declarations
        nodes := by
  rw [← Outcome.mapM_eq_ok_iff]
  unfold declaredNodes declaredNode
  constructor
  · intro h
    obtain ⟨sketches, hsketches, hnodes⟩ := Outcome.bind_eq_ok_iff.mp h
    rw [Outcome.mapM_bind hsketches]
    exact hnodes
  · intro h
    obtain ⟨sketches, hsketches⟩ : ∃ sketches,
        c.declarations.mapM (fun d => sketchNode d.name d.fields) = .ok sketches := by
      rw [Outcome.exists_mapM_eq_ok_iff]
      intro d hd
      obtain ⟨n, hn⟩ := Outcome.exists_mapM_eq_ok_iff.mp ⟨nodes, h⟩ d hd
      obtain ⟨sketch, hsketch, -⟩ := Outcome.bind_eq_ok_iff.mp hn
      exact ⟨sketch, hsketch⟩
    rw [Outcome.mapM_bind hsketches] at h
    exact Outcome.bind_eq_ok_iff.mpr ⟨sketches, hsketches, h⟩

/-- A declaration of a node succeeds in two steps. -/
lemma declaredNode_eq_ok_iff {name : Text} {fields : Entries} {n : Node} :
    declaredNode name fields = .ok n ↔
      (nodeOutline fields).forbidden = false ∧ ∃ links outgoing, declaredLinks fields = .ok links ∧
        links.mapM (declaredLink name) = .ok outgoing ∧
        n = { name
              displayName := name
              description := Entries.get fields "description"
              color := Entries.get fields "color"
              value := Entries.get fields "value"
              attributes := extraFields fields
              outgoing
              incoming := [] } := by
  unfold declaredNode sketchNode nodeOutline
  dsimp only
  rw [isSome_find?_extraFields]
  cases (Entries.find? fields (.text forbiddenAttribute)).isSome with
  | true =>
    constructor
    · intro h
      cases h
    · intro h
      cases h.1
  | false =>
    constructor
    · intro h
      obtain ⟨sketch, hsketch, h⟩ := Outcome.bind_eq_ok_iff.mp h
      obtain ⟨links, hlinks, hsketch⟩ := Outcome.bind_eq_ok_iff.mp hsketch
      cases hsketch
      obtain ⟨outgoing, houtgoing, h⟩ := Outcome.bind_eq_ok_iff.mp h
      cases h
      exact ⟨rfl, links, outgoing, hlinks, houtgoing, rfl⟩
    · rintro ⟨-, links, outgoing, hlinks, houtgoing, rfl⟩
      rw [hlinks]
      refine Outcome.bind_eq_ok_iff.mpr ⟨_, rfl, ?_⟩
      exact Outcome.bind_eq_ok_iff.mpr ⟨outgoing, houtgoing, rfl⟩

/-- A declared node is as its outline says. -/
lemma realizes_of_declaredNode {name : Text} {fields : Entries} {n : Node}
    (h : declaredNode name fields = .ok n) : n.Realizes name (nodeOutline fields) := by
  obtain ⟨-, links, outgoing, hlinks, houtgoing, rfl⟩ := declaredNode_eq_ok_iff.mp h
  refine ⟨rfl, rfl, rfl, rfl, links.map linkOutline?, ?_, ?_⟩
  · unfold nodeOutline
    rw [hlinks]
    rfl
  · rw [List.forall₂_map_left_iff]
    exact (Outcome.mapM_eq_ok_iff.mp houtgoing).imp fun _ _ => declaredLink_eq_ok

/-- The declarations that become nodes are those with acceptable outlines. -/
theorem exists_declaredNode_iff {name : Text} {fields : Entries} :
    (∃ n, declaredNode name fields = .ok n) ↔ (nodeOutline fields).IsAcceptable := by
  constructor
  · rintro ⟨n, hn⟩
    obtain ⟨hforbidden, links, outgoing, hlinks, houtgoing, -⟩ := declaredNode_eq_ok_iff.mp hn
    refine ⟨hforbidden, links.map linkOutline?, ?_, ?_⟩
    · unfold nodeOutline
      rw [hlinks]
      rfl
    · intro link hlink
      obtain ⟨d, hd, rfl⟩ := List.mem_map.mp hlink
      obtain ⟨l, hl⟩ := Outcome.exists_mapM_eq_ok_iff.mp ⟨outgoing, houtgoing⟩ d hd
      obtain ⟨o, ho, hrealizes⟩ := declaredLink_eq_ok hl
      refine ⟨o, ho, ?_⟩
      rw [hrealizes.target]
      rfl
  · rintro ⟨hforbidden, links?, hlinks?, hlinks⟩
    obtain ⟨links, hok, rfl⟩ : ∃ links, declaredLinks fields = .ok links ∧
        links.map linkOutline? = links? := by
      unfold nodeOutline at hlinks?
      cases hlinks : declaredLinks fields with
      | error failure =>
        rw [hlinks] at hlinks?
        cases hlinks?
      | ok links =>
        rw [hlinks] at hlinks?
        cases hlinks?
        exact ⟨links, rfl, rfl⟩
    obtain ⟨outgoing, houtgoing⟩ : ∃ outgoing,
        links.mapM (declaredLink name) = .ok outgoing := by
      rw [Outcome.exists_mapM_eq_ok_iff]
      intro d hd
      obtain ⟨o, ho, htarget⟩ := hlinks _ (List.mem_map_of_mem hd)
      exact exists_declaredLink ho htarget
    exact ⟨_, declaredNode_eq_ok_iff.mpr ⟨hforbidden, links, outgoing, hok, houtgoing, rfl⟩⟩

namespace Collection

/-- The declarations of a collection become nodes if all of its outlines are acceptable. -/
lemma exists_declaredNodes_iff {c : Collection} :
    (∃ nodes, c.declaredNodes = .ok nodes) ↔ ∀ entry ∈ c.outline, entry.2.IsAcceptable := by
  simp only [declaredNodes_eq_ok_iff, ← Outcome.mapM_eq_ok_iff]
  rw [Outcome.exists_mapM_eq_ok_iff]
  unfold outline
  rw [List.forall_mem_map]
  exact forall₂_congr fun d _ => exists_declaredNode_iff

/-- The nodes of a collection are as its outline says. -/
lemma realizes_of_declaredNodes {c : Collection} {nodes : List Node}
    (h : c.declaredNodes = .ok nodes) :
    List.Forall₂ (fun (entry : Text × NodeOutline) n => n.Realizes entry.1 entry.2) c.outline
      nodes := by
  unfold outline
  rw [List.forall₂_map_left_iff]
  exact (declaredNodes_eq_ok_iff.mp h).imp fun _ _ => realizes_of_declaredNode

end Collection

/-! ## Nodes that are alike -/

/-- Colours that are given alike and random alike. -/
structure ColorAlike (c c' : Datum) : Prop where
  truthy : c.isTruthy = c'.isTruthy
  random : c.isRandom = c'.isRandom

/-- Nodes with the same name and the same links, and with colours that are given alike. -/
structure NodeAlike (n n' : Node) : Prop where
  name : n.name = n'.name
  incoming : n.incoming = n'.incoming
  color : ColorAlike n.color n'.color
  links : List.Forall₂ (fun l l' : Link => l.target = l'.target ∧ ColorAlike l.color l'.color)
    n.outgoing n'.outgoing

/-- Nodes that are alike are coloured alike. -/
lemma recoloring_nodeAlike : Recoloring ColorAlike NodeAlike where
  truthy := ColorAlike.truthy
  random := ColorAlike.random
  null := ⟨rfl, rfl⟩
  text := fun _ => ⟨rfl, rfl⟩
  name := NodeAlike.name
  incoming := NodeAlike.incoming
  color := NodeAlike.color
  links := fun h => h.links.imp fun _ _ hl => hl.2
  setColor := fun h hc => ⟨h.name, h.incoming, hc, h.links⟩

/-- Links that are as the same outline says are alike. -/
lemma Link.Realizes.alike {l l' : Link} {o : LinkOutline} (h : l.Realizes o)
    (h' : l'.Realizes o) : l.target = l'.target ∧ ColorAlike l.color l'.color := by
  refine ⟨?_, h.given.trans h'.given.symm, h.random.trans h'.random.symm⟩
  have htarget := h.target.symm.trans h'.target
  exact Option.some.inj htarget

/-- Nodes that are as the same outline says are alike. -/
lemma Node.Realizes.alike {n n' : Node} {name : Text} {o : NodeOutline} (h : n.Realizes name o)
    (h' : n'.Realizes name o) : NodeAlike n n' := by
  obtain ⟨links, hlinks, hrealize⟩ := h.links
  obtain ⟨links', hlinks', hrealize'⟩ := h'.links
  obtain rfl : links = links' := Option.some.inj (hlinks.symm.trans hlinks')
  refine ⟨h.name.trans h'.name.symm, h.incoming.trans h'.incoming.symm,
    ⟨h.given.trans h'.given.symm, h.random.trans h'.random.symm⟩, ?_⟩
  clear hlinks hlinks'
  generalize n.outgoing = ls, n'.outgoing = ls' at hrealize hrealize'
  induction hrealize generalizing ls' with
  | nil =>
    cases hrealize'
    exact .nil
  | cons hl _ ih =>
    cases hrealize' with
    | cons hl' hrest' =>
      obtain ⟨lo, hlo, hl⟩ := hl
      obtain ⟨lo', hlo', hl'⟩ := hl'
      obtain rfl : lo = lo' := Option.some.inj (hlo.symm.trans hlo')
      exact .cons (hl.alike hl') (ih _ hrest')

/-- Nodes that are as the same outlines say are alike in pairs. -/
lemma forall₂_nodeAlike {o : Outline} {nodes nodes' : List Node}
    (h : List.Forall₂ (fun (entry : Text × NodeOutline) n => n.Realizes entry.1 entry.2) o nodes)
    (h' : List.Forall₂ (fun (entry : Text × NodeOutline) n => n.Realizes entry.1 entry.2) o
      nodes') : List.Forall₂ NodeAlike nodes nodes' := by
  induction h generalizing nodes' with
  | nil =>
    cases h'
    exact .nil
  | cons hn _ ih =>
    cases h' with
    | cons hn' hrest' => exact .cons (hn.alike hn') (ih hrest')

/-! ## The skeleton of nodes -/

/-- The name of a node and the targets of its links, which decide how nodes are connected. -/
def Node.skeleton (n : Node) : Text × List Text := (n.name, n.outgoing.map Link.target)

/-- Nodes that are alike have the same skeleton. -/
lemma NodeAlike.skeleton {n n' : Node} (h : NodeAlike n n') : n.skeleton = n'.skeleton := by
  have htargets : n.outgoing.map Link.target = n'.outgoing.map Link.target := by
    rw [← List.forall₂_eq_eq_eq, List.forall₂_map_left_iff, List.forall₂_map_right_iff]
    exact h.links.imp fun _ _ hl => hl.1
  unfold Node.skeleton
  rw [h.name, htargets]

/-- The names of nodes in terms of their skeletons. -/
lemma map_name_eq (nodes : List Node) :
    nodes.map Node.name = (nodes.map Node.skeleton).map Prod.fst := by
  rw [List.map_map]
  rfl

/-- The targets that are not declared in terms of skeletons. -/
lemma undeclaredTargets_eq (nodes : List Node) :
    undeclaredTargets nodes =
      (((nodes.map Node.skeleton).flatMap Prod.snd).filter fun target =>
        !((nodes.map Node.skeleton).map Prod.fst).contains target).eraseDups := by
  unfold undeclaredTargets
  rw [← map_name_eq, List.flatMap_map]
  rfl

/-- The identities of the links that leave a node in terms of its skeleton. -/
lemma linkIds_eq (n : Node) :
    n.linkIds = (List.range n.skeleton.2.length).map fun position => ⟨n.skeleton.1, position⟩ := by
  unfold Node.linkIds Node.skeleton
  rw [List.length_map]

/-- The links that enter a node in terms of skeletons. -/
lemma incomingOf_eq (nodes : List Node) (name : Text) :
    incomingOf nodes name = (nodes.map Node.skeleton).flatMap fun skeleton =>
      (((List.range skeleton.2.length).map fun position => LinkId.mk skeleton.1 position).zip
        skeleton.2).filterMap fun (id, target) => if target == name then some id else none := by
  unfold incomingOf
  rw [List.flatMap_map]
  refine List.flatMap_congr fun n _ => ?_
  rw [← linkIds_eq]
  unfold Node.skeleton
  rw [List.zip_map_right, List.filterMap_map]
  rfl

/-- The targets of a node in terms of skeletons. -/
lemma targetsOf_eq (nodes : List Node) (name : Text) :
    targetsOf nodes name =
      (((nodes.map Node.skeleton).find? fun skeleton => skeleton.1 == name).map
        Prod.snd).getD [] := by
  have hfind : (nodes.map Node.skeleton).find? (fun skeleton => skeleton.1 == name) =
      (nodes.find? fun n => n.name == name).map Node.skeleton := by
    rw [List.find?_map]
    rfl
  unfold targetsOf
  rw [hfind]
  cases nodes.find? fun n => n.name == name with
  | none => rfl
  | some n => rfl

/-! ## Graphs that are alike -/

/-- Declared nodes and the nodes that are only known as targets, with every link attached at both
ends. -/
def linkedNodes (declared : List Node) : List Node :=
  attachIncoming (declared ++ (undeclaredTargets declared).map bareNode)

/-- Relations of nodes that connecting them keeps: related nodes have the same skeleton and stay related
when the same links enter them, and nodes that are only known as targets are related to themselves. -/
structure Connecting (rel : Node → Node → Prop) : Prop where
  skeleton : ∀ {n n'}, rel n n' → n.skeleton = n'.skeleton
  incoming : ∀ {n n'}, rel n n' → ∀ ids, rel { n with incoming := ids } { n' with incoming := ids }
  bare : ∀ name, rel (bareNode name) (bareNode name)

/-- Nodes that are alike can be connected alike. -/
lemma connecting_nodeAlike : Connecting NodeAlike where
  skeleton := NodeAlike.skeleton
  incoming h _ := ⟨h.name, rfl, h.color, h.links⟩
  bare _ := ⟨rfl, rfl, ⟨rfl, rfl⟩, .nil⟩

namespace Connecting

variable {rel : Node → Node → Prop} {nodes nodes' : List Node}

/-- Related nodes have the same skeletons. -/
lemma map_skeleton_eq (h : Connecting rel) (hnodes : List.Forall₂ rel nodes nodes') :
    nodes.map Node.skeleton = nodes'.map Node.skeleton := by
  rw [← List.forall₂_eq_eq_eq, List.forall₂_map_left_iff, List.forall₂_map_right_iff]
  exact hnodes.imp fun _ _ => h.skeleton

/-- Related nodes become related nodes when links are attached. -/
lemma linkedNodes (h : Connecting rel) (hnodes : List.Forall₂ rel nodes nodes') :
    List.Forall₂ rel (linkedNodes nodes) (StockFlow.linkedNodes nodes') := by
  have hbare : ∀ names : List Text, List.Forall₂ rel (names.map bareNode) (names.map bareNode) :=
    fun names => List.forall₂_same.mpr fun n hn => by
      obtain ⟨name, -, rfl⟩ := List.mem_map.mp hn
      exact h.bare name
  have htargets : undeclaredTargets nodes = undeclaredTargets nodes' := by
    rw [undeclaredTargets_eq, undeclaredTargets_eq, h.map_skeleton_eq hnodes]
  have hall := List.rel_append hnodes (hbare (undeclaredTargets nodes'))
  unfold StockFlow.linkedNodes
  rw [attachIncoming_eq, attachIncoming_eq, htargets, List.forall₂_map_left_iff,
    List.forall₂_map_right_iff]
  refine hall.imp fun n n' hn => ?_
  have hincoming : incomingOf (nodes ++ (undeclaredTargets nodes').map bareNode) n.name =
      incomingOf (nodes' ++ (undeclaredTargets nodes').map bareNode) n'.name := by
    have hname : n.name = n'.name := congrArg Prod.fst (h.skeleton hn)
    rw [incomingOf_eq, incomingOf_eq, h.map_skeleton_eq hall, hname]
  rw [hincoming]
  exact h.incoming hn _

/-- Related nodes lead to the same targets. -/
lemma targetsOf_eq (h : Connecting rel) (hnodes : List.Forall₂ rel nodes nodes') :
    targetsOf nodes = targetsOf nodes' := by
  funext name
  rw [StockFlow.targetsOf_eq, StockFlow.targetsOf_eq, h.map_skeleton_eq hnodes]

/-- Related nodes are visited in the same order, or their links form the same cycle. -/
lemma walkOrder_eq (h : Connecting rel) (hnodes : List.Forall₂ rel nodes nodes') :
    walkOrder (nodes.map Node.name) (targetsOf nodes) =
      walkOrder (nodes'.map Node.name) (targetsOf nodes') := by
  rw [map_name_eq, map_name_eq, h.map_skeleton_eq hnodes, h.targetsOf_eq hnodes]

end Connecting

/-- The graph of nodes in an order. -/
def orderedGraph (nodes : List Node) (order : List Text) (suffix : Text)
    (resolver : Option Resolver) : Graph where
  nodes := order.filterMap fun name => nodes.find? fun n => n.name == name
  suffix := suffix
  resolver := resolver

/-- Related nodes are related in any order. -/
lemma Connecting.orderedGraph {rel : Node → Node → Prop} (h : Connecting rel) {nodes nodes' : List Node}
    (hnodes : List.Forall₂ rel nodes nodes') (order : List Text) (suffix suffix' : Text)
    (resolver resolver' : Option Resolver) :
    List.Forall₂ rel (orderedGraph nodes order suffix resolver).nodes
      (StockFlow.orderedGraph nodes' order suffix' resolver').nodes := by
  have hname : ∀ {n n'}, rel n n' → n.name = n'.name := fun hn => congrArg Prod.fst (h.skeleton hn)
  have hrel : Relator.LiftFun Eq (Option.Rel rel) (fun name => nodes.find? fun n => n.name == name)
      (fun name => nodes'.find? fun n => n.name == name) := by
    rintro name _ rfl
    have hnode : Option.Rel rel (Graph.node? ⟨nodes, suffix, resolver⟩ name)
        (Graph.node? ⟨nodes', suffix', resolver'⟩ name) := Graph.rel_node? hname hnodes name
    exact hnode
  exact List.rel_filterMap hrel (List.forall₂_same.mpr fun _ _ => rfl)

/-- Nodes have an order if the walk along their links has one. -/
lemma orderNodes_eq_ok_iff {nodes ordered : List Node} :
    orderNodes nodes = .ok ordered ↔ ∃ order,
      walkOrder (nodes.map Node.name) (targetsOf nodes) = .ok order ∧
      ordered = order.filterMap fun name => nodes.find? fun n => n.name == name := by
  unfold orderNodes
  rw [visitOrder_eq_walkOrder, Outcome.bind_eq_ok_iff]
  refine exists_congr fun order => and_congr_right fun _ => ?_
  constructor
  · intro h
    cases h
    rfl
  · rintro rfl
    rfl

/-- Nodes have no order in the way in which the walk along their links fails. -/
lemma orderNodes_eq_error_iff {nodes : List Node} {failure : Failure} :
    orderNodes nodes = .error failure ↔
      walkOrder (nodes.map Node.name) (targetsOf nodes) = .error failure := by
  unfold orderNodes
  rw [visitOrder_eq_walkOrder, Outcome.bind_eq_error_iff, or_iff_left]
  rintro ⟨order, -, h⟩
  cases h

namespace Collection

/-- The graph of a collection, coloured. -/
def colored (zeroIsUnset : Bool) (c : Collection) : Except Failure Graph := do
  let graph ← c.toGraph (some ⟨zeroIsUnset⟩)
  let (colored, failure?) := graph.colorNodes category10
  match failure? with
  | none => return colored
  | some failure => throw failure

/-- A collection has a graph if its declarations become nodes and these have an order. -/
lemma toGraph_eq_ok_iff {c : Collection} {resolver : Option Resolver} {g : Graph} :
    c.toGraph resolver = .ok g ↔ ∃ declared order, c.declaredNodes = .ok declared ∧
      walkOrder ((linkedNodes declared).map Node.name) (targetsOf (linkedNodes declared)) =
        .ok order ∧
      g = orderedGraph (linkedNodes declared) order c.suffix resolver := by
  constructor
  · intro h
    obtain ⟨declared, hdeclared, h⟩ := Outcome.bind_eq_ok_iff.mp h
    obtain ⟨nodes, hnodes, h⟩ := Outcome.bind_eq_ok_iff.mp h
    obtain ⟨order, horder, rfl⟩ := orderNodes_eq_ok_iff.mp hnodes
    cases h
    exact ⟨declared, order, hdeclared, horder, rfl⟩
  · rintro ⟨declared, order, hdeclared, horder, rfl⟩
    exact Outcome.bind_eq_ok_iff.mpr ⟨declared, hdeclared, Outcome.bind_eq_ok_iff.mpr
      ⟨_, orderNodes_eq_ok_iff.mpr ⟨order, horder, rfl⟩, rfl⟩⟩

/-- A collection has a coloured graph if it has a graph that can be coloured. -/
lemma colored_eq_ok_iff {c : Collection} {zeroIsUnset : Bool} {g : Graph} :
    c.colored zeroIsUnset = .ok g ↔ ∃ graph, c.toGraph (some ⟨zeroIsUnset⟩) = .ok graph ∧
      graph.colorNodes category10 = (g, none) := by
  unfold colored
  rw [Outcome.bind_eq_ok_iff]
  refine exists_congr fun graph => and_congr_right fun _ => ?_
  obtain ⟨colored, failure?⟩ := graph.colorNodes category10
  cases failure? with
  | none =>
    constructor
    · intro h
      cases h
      rfl
    · intro h
      cases h
      rfl
  | some failure =>
    constructor
    · intro h
      cases h
    · intro h
      cases h

/-- Of collections with the same outline, all or none have a coloured graph. -/
theorem exists_colored {c c' : Collection} (h : c.outline = c'.outline) {zeroIsUnset : Bool}
    (hg : ∃ g, c.colored zeroIsUnset = .ok g) : ∃ g', c'.colored zeroIsUnset = .ok g' := by
  obtain ⟨g, hg⟩ := hg
  obtain ⟨graph, hgraph, hcolored⟩ := colored_eq_ok_iff.mp hg
  obtain ⟨declared, order, hdeclared, horder, rfl⟩ := toGraph_eq_ok_iff.mp hgraph
  obtain ⟨declared', hdeclared'⟩ : ∃ nodes, c'.declaredNodes = .ok nodes := by
    rw [exists_declaredNodes_iff, ← h, ← exists_declaredNodes_iff]
    exact ⟨declared, hdeclared⟩
  have hrealizes' := realizes_of_declaredNodes hdeclared'
  rw [← h] at hrealizes'
  have halike := connecting_nodeAlike.linkedNodes
    (forall₂_nodeAlike (realizes_of_declaredNodes hdeclared) hrealizes')
  rw [connecting_nodeAlike.walkOrder_eq halike] at horder
  have hgraph' : c'.toGraph (some ⟨zeroIsUnset⟩) = .ok
      (orderedGraph (linkedNodes declared') order c'.suffix (some ⟨zeroIsUnset⟩)) :=
    toGraph_eq_ok_iff.mpr ⟨declared', order, hdeclared', horder, rfl⟩
  obtain ⟨-, hfailure⟩ := Graph.colorNodes_forall₂ recoloring_nodeAlike category10
    (connecting_nodeAlike.orderedGraph halike order c.suffix c'.suffix (some ⟨zeroIsUnset⟩)
      (some ⟨zeroIsUnset⟩))
  rw [hcolored] at hfailure
  exact ⟨_, colored_eq_ok_iff.mpr ⟨_, hgraph', Prod.ext rfl hfailure.symm⟩⟩

end Collection

end StockFlow
