import StockFlow.Proofs.Graph.Coloring
/-!
# Graphs that agree but for hidden fields

Nodes and links have the same three fields: a value, a colour and a description. Two graphs agree but for
some fields, the hidden ones, if they have the same nodes in the same order, with the same links at both
ends, and if all other fields are the same (`Graph.AgreesBut`).

Colouring keeps that two graphs agree. Where colours are not hidden, both graphs take the same colours or
fail alike (`Graph.AgreesBut.colorNodes`); where they are, a pass over one of the graphs changes nothing
that the other one is compared by (`Graph.AgreesBut.colorNodes_of_mem`).
-/

namespace StockFlow

/-- The fields that nodes and links both have. -/
inductive Field where
  | value
  | color
  | description
deriving DecidableEq

/-- A field of a link. -/
def Link.field (l : Link) : Field → Datum
  | .value => l.value
  | .color => l.color
  | .description => l.description

/-- A field of a node. -/
def Node.field (n : Node) : Field → Datum
  | .value => n.value
  | .color => n.color
  | .description => n.description

/-- Links to one node that are the same but for hidden fields. -/
structure Link.AgreesBut (hidden : List Field) (l l' : Link) : Prop where
  target : l.target = l'.target
  field : ∀ f ∉ hidden, l.field f = l'.field f

/-- Nodes of one name that are linked to the same nodes. They and their links are the same but for hidden
fields. -/
structure Node.AgreesBut (hidden : List Field) (n n' : Node) : Prop where
  name : n.name = n'.name
  incoming : n.incoming = n'.incoming
  links : List.Forall₂ (Link.AgreesBut hidden) n.outgoing n'.outgoing
  field : ∀ f ∉ hidden, n.field f = n'.field f

/-- Graphs whose nodes agree in pairs but for hidden fields. -/
structure Graph.AgreesBut (hidden : List Field) (g g' : Graph) : Prop where
  suffix : g.suffix = g'.suffix
  resolver : g.resolver = g'.resolver
  nodes : List.Forall₂ (Node.AgreesBut hidden) g.nodes g'.nodes

variable {hidden : List Field}

lemma Link.AgreesBut.refl (l : Link) : l.AgreesBut hidden l := ⟨rfl, fun _ _ => rfl⟩

lemma Node.AgreesBut.refl (n : Node) : n.AgreesBut hidden n :=
  ⟨rfl, rfl, List.forall₂_same.mpr fun l _ => Link.AgreesBut.refl l, fun _ _ => rfl⟩

/-- Nodes that agree still do with other colours, which are the same unless colours are hidden. -/
lemma Node.AgreesBut.setColor {n n' : Node} (h : n.AgreesBut hidden n') (c c' : Datum)
    (hc : .color ∉ hidden → c = c') :
    Node.AgreesBut hidden { n with color := c } { n' with color := c' } where
  name := h.name
  incoming := h.incoming
  links := h.links
  field f hf := by
    cases f with
    | value => exact h.field .value hf
    | color => exact hc hf
    | description => exact h.field .description hf

/-- Nodes that agree have links of the same identities. -/
lemma Node.AgreesBut.linkIds_eq {n n' : Node} (h : n.AgreesBut hidden n') : n.linkIds = n'.linkIds := by
  unfold Node.linkIds
  rw [h.name, h.links.length_eq]

namespace Graph

variable {g g' : Graph}

/-- Nodes that agree cannot be told apart by a pass if their colours are not hidden. -/
lemma recoloring_agreesBut (hcolor : .color ∉ hidden) : Recoloring Eq (Node.AgreesBut hidden) where
  truthy h := h ▸ rfl
  random h := h ▸ rfl
  null := rfl
  text _ := rfl
  name h := h.name
  incoming h := h.incoming
  color h := h.field .color hcolor
  links h := h.links.imp fun _ _ hl => hl.field .color hcolor
  setColor h hc := h.setColor _ _ fun _ => hc

/-- Where colours are not hidden, graphs that agree are coloured by the same colours, or fail alike. -/
lemma AgreesBut.colorNodes (h : g.AgreesBut hidden g') (hcolor : .color ∉ hidden)
    (palette : List Text) : (g.colorNodes palette).1.AgreesBut hidden (g'.colorNodes palette).1 ∧
      (g.colorNodes palette).2 = (g'.colorNodes palette).2 := by
  obtain ⟨hsuffix, hresolver⟩ := g.colorNodes_suffix_resolver palette
  obtain ⟨hsuffix', hresolver'⟩ := g'.colorNodes_suffix_resolver palette
  obtain ⟨hnodes, hfailure⟩ := colorNodes_forall₂ (recoloring_agreesBut hcolor) palette h.nodes
  exact ⟨⟨hsuffix.trans (h.suffix.trans hsuffix'.symm),
    hresolver.trans (h.resolver.trans hresolver'.symm), hnodes⟩, hfailure⟩

/-- Where colours are hidden, setting one changes nothing that graphs are compared by. -/
lemma AgreesBut.editNode_left (h : g.AgreesBut hidden g') (hcolor : .color ∈ hidden) (name : Text)
    (color : Datum) : (g.editNode name fun n => { n with color }).AgreesBut hidden g' where
  suffix := h.suffix
  resolver := h.resolver
  nodes := by
    unfold editNode
    rw [List.forall₂_map_left_iff]
    refine h.nodes.imp fun n n' hn => ?_
    split
    · exact hn.setColor color n'.color fun hnot => absurd hcolor hnot
    · exact hn

lemma AgreesBut.editNode_right (h : g.AgreesBut hidden g') (hcolor : .color ∈ hidden) (name : Text)
    (color : Datum) : g.AgreesBut hidden (g'.editNode name fun n => { n with color }) where
  suffix := h.suffix
  resolver := h.resolver
  nodes := by
    unfold editNode
    rw [List.forall₂_map_right_iff]
    refine h.nodes.imp fun n n' hn => ?_
    split
    · exact hn.setColor n.color color fun hnot => absurd hcolor hnot
    · exact hn

/-- Where colours are hidden, graphs that agree still do after a pass over each of them. -/
lemma AgreesBut.colorNodes_of_mem (h : g.AgreesBut hidden g') (hcolor : .color ∈ hidden)
    (palette : List Text) :
    (g.colorNodes palette).1.AgreesBut hidden (g'.colorNodes palette).1 := by
  have hleft : (g.colorNodes palette).1.AgreesBut hidden g' :=
    colorNodes_keeps (P := fun g => g.AgreesBut hidden g')
      (fun _ name color h => h.editNode_left hcolor name color) palette h
  exact colorNodes_keeps (P := fun g' => (g.colorNodes palette).1.AgreesBut hidden g')
    (fun _ name color h => h.editNode_right hcolor name color) palette hleft

end Graph

end StockFlow
