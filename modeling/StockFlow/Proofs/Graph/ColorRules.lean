import Mathlib.Logic.Function.Basic
import StockFlow.Graph.Color
import StockFlow.Proofs.Graph.Links
import StockFlow.Sheet.Collection
/-!
# The rules for colours

The rules for colours ask for what is declared about a node, then for the links that enter it, and
then for its parent (`Graph.colorRule`). Where nodes have different names, they give every node at most
one colour (`Graph.HasColor.unique`), and neither the order of the nodes (`Graph.HasColor.perm`) nor
the colours that other nodes have been given play a part.
-/

namespace StockFlow

/-! ## The rules -/

/-- What decides about the colour of a node. -/
inductive ColorRule where
  | keep (color : Datum)
  | pick
  | inherit (parent : Text)

namespace Graph

/-- The colour of the first link entering a node that has a colour. -/
def enteringColor? (g : Graph) (n : Node) : Option Datum :=
  (n.incoming.filterMap fun id => (g.link? id).map Link.color).find? Datum.isTruthy

/-- The rule for a node: a declared colour decides, or else the first entering link that has a colour,
or else the parent. Where that leaves the random colour or nothing at all, the name picks. -/
def colorRule (g : Graph) (n : Node) : ColorRule :=
  if n.color.isFixedColor then .keep n.color
  else if n.color.isRandom then .pick
  else
    match g.enteringColor? n with
    | some color => if color.isRandom then .pick else .keep color
    | none =>
      match n.parent? with
      | some parent => .inherit parent
      | none => .pick

/-- The colour that the rules give to the node of a name. -/
inductive HasColor (g : Graph) (palette : List Text) : Text → Datum → Prop
  | keep {n : Node} {color : Datum} (hn : n ∈ g.nodes) (hrule : g.colorRule n = .keep color) :
      HasColor g palette n.name color
  | pick {n : Node} {color : Text} (hn : n ∈ g.nodes) (hrule : g.colorRule n = .pick)
      (hcolor : paletteColor n.name palette = .ok color) : HasColor g palette n.name (.text color)
  | inherit {n : Node} {parent : Text} {color : Datum} (hn : n ∈ g.nodes)
      (hrule : g.colorRule n = .inherit parent) (hparent : HasColor g palette parent color) :
      HasColor g palette n.name color

variable {g g' : Graph} {palette : List Text} {n : Node} {name : Text} {c : Datum}

/-- A rule that keeps a colour keeps one that is fixed. -/
lemma isFixedColor_of_keep (h : g.colorRule n = .keep c) : c.isFixedColor := by
  unfold colorRule at h
  split at h
  · next hfixed =>
    cases h
    exact hfixed
  split at h
  · cases h
  split at h
  · next found hfound =>
    split at h
    · cases h
    · next hrandom =>
      cases h
      have htruthy : c.isTruthy := List.find?_some hfound
      simp [Datum.isFixedColor, htruthy, hrandom]
  · split at h <;> cases h

/-- A colour that a name picks is one of the palette. -/
lemma mem_of_paletteColor_eq_ok {color : Text} (h : paletteColor name palette = .ok color) :
    color ∈ palette := by
  unfold paletteColor at h
  split at h
  · cases h
  · split at h
    · next hget =>
      cases h
      exact List.mem_of_getElem? hget
    · cases h

/-- The colours that the rules give are fixed, if those of the palette are. -/
lemma HasColor.isFixedColor (hpalette : ∀ color ∈ palette, (Datum.text color).isFixedColor)
    (h : g.HasColor palette name c) : c.isFixedColor := by
  induction h with
  | keep _ hrule => exact isFixedColor_of_keep hrule
  | pick _ _ hcolor => exact hpalette _ (mem_of_paletteColor_eq_ok hcolor)
  | inherit _ _ _ ih => exact ih

section Names

variable (hnames : (g.nodes.map Node.name).Nodup)

include hnames

/-- The colour of a node is the one that the rule for it gives. -/
lemma hasColor_iff (hn : n ∈ g.nodes) :
    g.HasColor palette n.name c ↔
      match g.colorRule n with
      | .keep color => c = color
      | .pick => ∃ color, paletteColor n.name palette = .ok color ∧ c = .text color
      | .inherit parent => g.HasColor palette parent c := by
  constructor
  · intro h
    generalize hname : n.name = name at h ⊢
    cases h with
    | keep hm hrule =>
      obtain rfl := List.inj_on_of_nodup_map hnames hn hm hname
      rw [hrule]
    | pick hm hrule hcolor =>
      obtain rfl := List.inj_on_of_nodup_map hnames hn hm hname
      rw [hrule]
      exact ⟨_, hcolor, rfl⟩
    | inherit hm hrule hparent =>
      obtain rfl := List.inj_on_of_nodup_map hnames hn hm hname
      rw [hrule]
      exact hparent
  · intro h
    cases hrule : g.colorRule n with
    | keep color =>
      rw [hrule] at h
      exact h ▸ .keep hn hrule
    | pick =>
      rw [hrule] at h
      obtain ⟨color, hcolor, rfl⟩ := h
      exact .pick hn hrule hcolor
    | inherit parent =>
      rw [hrule] at h
      exact .inherit hn hrule h

/-- The rules give a node one colour only. -/
lemma HasColor.unique {c' : Datum} (h : g.HasColor palette name c)
    (h' : g.HasColor palette name c') : c = c' := by
  induction h with
  | keep hn hrule =>
    rw [hasColor_iff hnames hn, hrule] at h'
    exact h'.symm
  | pick hn hrule hcolor =>
    rw [hasColor_iff hnames hn, hrule] at h'
    obtain ⟨color, hcolor', rfl⟩ := h'
    exact congrArg Datum.text (Except.ok.inj (hcolor.symm.trans hcolor'))
  | inherit hn hrule _ ih =>
    rw [hasColor_iff hnames hn, hrule] at h'
    exact ih h'

end Names

/-! ## Graphs with other colours -/

/-- A graph whose nodes have colours by their names. -/
def withColors (g : Graph) (color : Text → Datum) : Graph :=
  { g with nodes := g.nodes.map fun n => { n with color := color n.name } }

variable {color : Text → Datum}

/-- The node of a name, with its other colour. -/
lemma node?_withColors (g : Graph) (color : Text → Datum) (name : Text) :
    (g.withColors color).node? name =
      (g.node? name).map fun n => { n with color := color n.name } := by
  unfold node? withColors
  rw [List.find?_map]
  rfl

/-- Colours of nodes do not matter for links. -/
lemma link?_withColors (g : Graph) (color : Text → Datum) (id : LinkId) :
    (g.withColors color).link? id = g.link? id := by
  unfold link?
  rw [node?_withColors]
  cases g.node? id.source <;> rfl

/-- A node of a graph shows the colour that its name has. -/
lemma nodeColor_withColors (h : name ∈ g.nodes.map Node.name) (color : Text → Datum) :
    (g.withColors color).nodeColor name = color name := by
  obtain ⟨n, hn, rfl⟩ := List.mem_map.mp h
  obtain ⟨m, hm⟩ : ∃ m, g.node? n.name = some m := by
    unfold node?
    rw [← Option.isSome_iff_exists, List.find?_isSome]
    exact ⟨n, hn, beq_self_eq_true _⟩
  have hname : m.name = n.name := by simpa using List.find?_some hm
  unfold nodeColor
  rw [node?_withColors, hm]
  exact congrArg color hname

/-- Setting a colour is changing what one name has. -/
lemma editNode_withColors (g : Graph) (color : Text → Datum) (name : Text) (c : Datum) :
    ((g.withColors color).editNode name fun n => { n with color := c }) =
      g.withColors (Function.update color name c) := by
  unfold editNode withColors
  rw [List.map_map]
  refine congrArg (Graph.mk · g.suffix g.resolver) (List.map_congr_left fun n _ => ?_)
  dsimp only [Function.comp_apply]
  by_cases hname : n.name = name
  · rw [hname, beq_self_eq_true, if_pos rfl, Function.update_self]
  · rw [beq_false_of_ne hname, if_neg Bool.false_ne_true, Function.update_of_ne hname]

/-- A graph has the colours of its nodes. -/
lemma withColors_of_forall (h : ∀ n ∈ g.nodes, color n.name = n.color) :
    g.withColors color = g := by
  unfold withColors
  refine congrArg (Graph.mk · g.suffix g.resolver) ?_
  refine (List.map_congr_left fun n hn => ?_).trans (List.map_id g.nodes)
  rw [h n hn, id]

/-- A linked graph stays linked whatever colours its nodes get. -/
lemma IsLinked.withColors (h : g.IsLinked) (color : Text → Datum) : (g.withColors color).IsLinked :=
  h.map (f := fun n => { n with color := color n.name }) (fun _ => rfl) (fun _ => rfl)
    (fun _ => rfl) rfl

/-- The links lead the same ways whatever colours nodes get. -/
lemma targetsOf_withColors (g : Graph) (color : Text → Datum) :
    targetsOf (g.withColors color).nodes = targetsOf g.nodes := by
  funext name
  have hnode := node?_withColors g color name
  unfold node? at hnode
  unfold targetsOf
  rw [hnode]
  cases g.nodes.find? fun n => n.name == name <;> rfl

/-! ## Other orders of the nodes -/

/-- Nodes are found in any order. -/
lemma IsLinked.node?_perm (h : g.IsLinked) (hperm : g.nodes.Perm g'.nodes) (name : Text) :
    g'.node? name = g.node? name := by
  refine Option.ext fun n => ?_
  rw [node?_eq_some_iff h.nodup_names, node?_eq_some_iff (h.perm hperm).nodup_names,
    hperm.mem_iff]

/-- The rule for a node is the same in any order of the nodes. -/
lemma IsLinked.colorRule_perm (h : g.IsLinked) (hperm : g.nodes.Perm g'.nodes) (n : Node) :
    g'.colorRule n = g.colorRule n := by
  unfold colorRule enteringColor? link?
  simp only [h.node?_perm hperm]

/-- The rules give the same colours in any order of the nodes. -/
lemma HasColor.perm (h : g.IsLinked) (hperm : g.nodes.Perm g'.nodes) {name : Text} {c : Datum}
    (hc : g.HasColor palette name c) : g'.HasColor palette name c := by
  induction hc with
  | keep hn hrule => exact .keep (hperm.mem_iff.mp hn) ((h.colorRule_perm hperm _).trans hrule)
  | pick hn hrule hcolor =>
    exact .pick (hperm.mem_iff.mp hn) ((h.colorRule_perm hperm _).trans hrule) hcolor
  | inherit hn hrule _ ih =>
    exact .inherit (hperm.mem_iff.mp hn) ((h.colorRule_perm hperm _).trans hrule) ih

/-- The links lead the same ways in any order of the nodes. -/
lemma IsLinked.targetsOf_perm (h : g.IsLinked) (hperm : g.nodes.Perm g'.nodes) :
    targetsOf g'.nodes = targetsOf g.nodes := by
  funext name
  have hnode := h.node?_perm hperm name
  unfold node? at hnode
  unfold targetsOf
  rw [hnode]

end Graph

end StockFlow
