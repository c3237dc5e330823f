import StockFlow.Proofs.Graph.ColorRules
import StockFlow.Proofs.Graph.Coloring
import StockFlow.Proofs.Sheet.Linked
import StockFlow.Proofs.Value.Grounded
/-!
# Passes by the rules

A colouring pass sets the colours of the rules and changes nothing else, so the order in which it comes
to the nodes does not matter (`Graph.colorNodes_eq_rules`).

The pass marks a node before it is coloured, and a node that is coloured later may find its parent
marked. The invariant of the pass is that a marked node has the colour of the rules unless it still
waits for the node whose turn it is, and then a way leads from this node to it (`Coloring.Expects`). A
node that waited for itself would be on a cycle.
-/

namespace StockFlow

/-! ## The turn of a node -/

namespace Coloring

open StockFlow.Graph

variable {g : Graph} {palette : List Text} {name : Text} {color : Text → Datum} {s : Coloring}

/-- The first link of a node that has a colour is the same whatever colours nodes have. -/
lemma firstLinkColor?_eq (hgraph : s.graph = g.withColors color) (n : Node) (c : Datum) :
    s.firstLinkColor? { n with color := c } = g.enteringColor? n := by
  unfold firstLinkColor? enteringColor?
  rw [hgraph]
  dsimp only
  induction n.incoming with
  | nil => rfl
  | cons id ids ih =>
    rw [List.findSome?_cons, List.filterMap_cons, link?_withColors, ih]
    cases g.link? id with
    | none => rfl
    | some link =>
      rw [Option.map_some]
      dsimp only
      rw [List.find?_cons]
      cases link.color.isTruthy <;> rfl

/-- Setting the colour of a node changes what its name has. -/
lemma setColor_graph (hgraph : s.graph = g.withColors color) (name : Text) (c : Datum) :
    (s.setColor name c).graph = g.withColors (Function.update color name c) := by
  unfold setColor
  rw [hgraph]
  exact editNode_withColors g color name c

/-- What colours and marks are when the turn of a node comes: a node that is not marked has the colour
declared for it, and a marked one has the colour of the rules or waits for the node. -/
structure Expects (g : Graph) (palette : List Text) (color : Text → Datum) (done : List Text)
    (name : Text) : Prop where
  declared : ∀ n ∈ g.nodes, n.name ∉ done → color n.name = n.color
  settled : ∀ x ∈ done, g.HasColor palette x (color x) ∨
    Relation.TransGen (Leads (targetsOf g.nodes)) name x

/-- When the turn of a node goes over to its parent, the node waits for the parent, and so does all that
waits for the node. -/
lemma Expects.parent {n m : Node} {done : List Text} (h : Expects g palette color done n.name)
    (hreaches : g.Reaches m n) : Expects g palette color (n.name :: done) m.name where
  declared k hk hnew := h.declared k hk fun hmem => hnew (List.mem_cons_of_mem _ hmem)
  settled x hx := by
    rcases List.mem_cons.mp hx with rfl | hx
    · exact Or.inr hreaches
    · exact (h.settled x hx).imp_right hreaches.trans

/-- What some turns make of colours and marks: marked nodes keep their marks and colours, and nodes
that get marks get the colours of the rules. -/
structure Advances (g : Graph) (palette : List Text) (color color' : Text → Datum)
    (done done' : List Text) : Prop where
  marks : done ⊆ done'
  keeps : ∀ x ∈ done, color' x = color x
  untouched : ∀ x, x ∉ done' → color' x = color x
  settled : ∀ x ∈ done', x ∉ done → g.HasColor palette x (color' x)

namespace Advances

variable {color' color'' : Text → Datum} {done done' done'' : List Text}

lemma refl (g : Graph) (palette : List Text) (color : Text → Datum) (done : List Text) :
    Advances g palette color color done done :=
  ⟨List.Subset.refl _, fun _ _ => rfl, fun _ _ => rfl, fun _ h h' => absurd h h'⟩

lemma trans (h : Advances g palette color color' done done')
    (h' : Advances g palette color' color'' done' done'') :
    Advances g palette color color'' done done'' where
  marks := List.Subset.trans h.marks h'.marks
  keeps x hx := (h'.keeps x (h.marks hx)).trans (h.keeps x hx)
  untouched x hx := (h'.untouched x hx).trans (h.untouched x fun hmem => hx (h'.marks hmem))
  settled x hx hnew := by
    by_cases hmem : x ∈ done'
    · rw [h'.keeps x hmem]
      exact h.settled x hmem hnew
    · exact h'.settled x hx hmem

/-- Nodes that have not had their turn keep the colours declared for them. -/
lemma declared (h : Advances g palette color color' done done')
    (hdeclared : ∀ n ∈ g.nodes, n.name ∉ done → color n.name = n.color) :
    ∀ n ∈ g.nodes, n.name ∉ done' → color' n.name = n.color := by
  intro n hn hnew
  rw [h.untouched _ hnew]
  exact hdeclared n hn fun hmem => hnew (h.marks hmem)

/-- Nodes that have had their turn have the colours of the rules. -/
lemma all_settled (h : Advances g palette color color' done done')
    (hsettled : ∀ x ∈ done, g.HasColor palette x (color x)) :
    ∀ x ∈ done', g.HasColor palette x (color' x) := by
  intro x hx
  by_cases hmem : x ∈ done
  · rw [h.keeps x hmem]
    exact hsettled x hmem
  · exact h.settled x hx hmem

/-- A node that is marked and then gets its colour, after the turns that this takes. -/
lemma concludes {c : Datum} (h : Advances g palette color color' (name :: done) done')
    (hnew : name ∉ done) (hc : g.HasColor palette name c) :
    Advances g palette color (Function.update color' name c) done done' where
  marks := List.Subset.trans (List.subset_cons_self name done) h.marks
  keeps x hx := by
    have hne : x ≠ name := fun heq => hnew (heq ▸ hx)
    rw [Function.update_of_ne hne]
    exact h.keeps x (List.mem_cons_of_mem name hx)
  untouched x hx := by
    have hne : x ≠ name := fun heq => hx (heq ▸ h.marks List.mem_cons_self)
    rw [Function.update_of_ne hne]
    exact h.untouched x hx
  settled x hx hnew' := by
    by_cases hname : x = name
    · rw [hname, Function.update_self]
      exact hc
    · rw [Function.update_of_ne hname]
      exact h.settled x hx (by simp [hname, hnew'])

end Advances

/-- What the turns of nodes come to: the nodes have the colours of the rules, or else the pass fails
and the rules give some node no colour. -/
def Colors (g : Graph) (palette : List Text) (names : List Text) (s : Coloring)
    (color : Text → Datum) : Coloring × Option Failure → Prop
  | (s', none) => ∃ color', s'.graph = g.withColors color' ∧
      Advances g palette color color' s.done s'.done ∧
      ∀ x ∈ names, x ∈ s'.done ∧ g.HasColor palette x (color' x)
  | (_, some _) => ∃ n ∈ g.nodes, ∀ c, ¬g.HasColor palette n.name c

/-- A node that has been given a colour keeps it if it is fixed, and else has what its name picks. -/
lemma colors_finish {n : Node} (hn : n ∈ g.nodes) {d : Datum} {color' : Text → Datum}
    {s' : Coloring} (hgraph : s'.graph = g.withColors (Function.update color' n.name d))
    (hadvances : Advances g palette color color' (n.name :: s.done) s'.done)
    (hnew : n.name ∉ s.done)
    (hrule : ∀ c, g.HasColor palette n.name c ↔
      if d.isFixedColor then c = d
      else ∃ picked, paletteColor n.name palette = .ok picked ∧ c = .text picked) :
    Colors g palette [n.name] s color (finish palette n.name s') := by
  have hcolor : s'.graph.nodeColor n.name = d := by
    rw [hgraph, nodeColor_withColors (List.mem_map_of_mem hn), Function.update_self]
  have hmarked : n.name ∈ s'.done := hadvances.marks List.mem_cons_self
  unfold finish
  rw [hcolor]
  split
  · next hfixed =>
    have hd : g.HasColor palette n.name d := (hrule d).mpr (by rw [if_pos hfixed])
    refine ⟨_, hgraph, hadvances.concludes hnew hd, ?_⟩
    rw [List.forall_mem_singleton, Function.update_self]
    exact ⟨hmarked, hd⟩
  · next hfixed =>
    cases hpicked : paletteColor n.name palette with
    | ok picked =>
      have hd : g.HasColor palette n.name (.text picked) :=
        (hrule _).mpr (by rw [if_neg hfixed]; exact ⟨picked, hpicked, rfl⟩)
      refine ⟨_, setColor_graph hgraph n.name _, ?_, ?_⟩
      · rw [Function.update_idem]
        exact hadvances.concludes hnew hd
      · rw [List.forall_mem_singleton, Function.update_self]
        exact ⟨hmarked, hd⟩
    | error failure =>
      refine ⟨n, hn, fun c hc => ?_⟩
      rw [hrule, if_neg hfixed] at hc
      obtain ⟨picked, hpicked', -⟩ := hc
      rw [hpicked] at hpicked'
      cases hpicked'

/-- How many nodes are not marked. -/
def remaining (g : Graph) (done : List Text) : Nat :=
  ((g.nodes.map Node.name).filter fun name => !done.contains name).length

/-- Marking a node leaves fewer. -/
lemma remaining_cons_lt {n : Node} (hn : n ∈ g.nodes) {done : List Text} (hnew : n.name ∉ done) :
    remaining g (n.name :: done) < remaining g done :=
  length_filter_not_contains_lt (List.mem_map_of_mem hn) hnew fun _ => List.mem_cons

/-- No more nodes are left than there are. -/
lemma remaining_le (g : Graph) (done : List Text) : remaining g done ≤ g.nodes.length := by
  rw [← List.length_map Node.name]
  exact List.length_filter_le _ _

section Turns

variable (hlinked : g.IsLinked) (hacyclic : ¬HasCycle (Leads (targetsOf g.nodes)))
variable (hpalette : ∀ c ∈ palette, (Datum.text c).isFixedColor)

include hlinked in
/-- A link leads from the parent of a node to it. -/
lemma exists_parent {n : Node} (hn : n ∈ g.nodes) {parent : Text} (h : n.parent? = some parent) :
    ∃ m ∈ g.nodes, m.name = parent ∧ g.Reaches m n := by
  obtain ⟨id, hid, rfl⟩ := Option.map_eq_some_iff.mp h
  obtain ⟨link, hlink, htarget⟩ :=
    (hlinked.mem_incoming_iff n hn id).mp (List.mem_of_mem_head? hid)
  obtain ⟨m, hm, hsource, hget⟩ := mem_links_iff.mp hlink
  exact ⟨m, hm, hsource.symm,
    reaches_of_target_eq hlinked.nodup_names hm (List.mem_of_getElem? hget) htarget⟩

include hlinked in
/-- The turn of a node that is not marked. -/
lemma colorNode_succ {n : Node} (hn : n ∈ g.nodes) (depth : Nat)
    (hgraph : s.graph = g.withColors color) (hnew : n.name ∉ s.done)
    (hcolor : color n.name = n.color) :
    colorNode palette (depth + 1) n.name s =
      let marked : Coloring := { s with done := n.name :: s.done }
      if n.color.isFixedColor then (marked, none)
      else if n.color.isRandom then finish palette n.name marked
      else
        match g.enteringColor? n with
        | some found => finish palette n.name (marked.setColor n.name found)
        | none =>
          match n.parent? with
          | none => finish palette n.name (marked.setColor n.name .null)
          | some parent =>
            match colorNode palette depth parent marked with
            | (s', some failure) => (s', some failure)
            | (s', none) =>
              finish palette n.name (s'.setColor n.name (s'.graph.nodeColor parent)) := by
  have hfound : s.graph.node? n.name = some { n with color := n.color } := by
    rw [hgraph, node?_withColors, (node?_eq_some_iff hlinked.nodup_names).mpr ⟨hn, rfl⟩,
      Option.map_some, hcolor]
  have hmarked : s.done.contains n.name = false := by simpa using hnew
  rw [colorNode, hmarked, if_neg Bool.false_ne_true, hfound]
  dsimp only
  rewrite [firstLinkColor?_eq (s := { s with done := n.name :: s.done }) hgraph n n.color]
  rfl

include hlinked hpalette in
/-- A node gets the colour of its parent once this one has had its turn. -/
lemma colors_inherited {n m : Node} (hn : n ∈ g.nodes) (hm : m ∈ g.nodes) (hnew : n.name ∉ s.done)
    (hrule : ∀ c, g.HasColor palette n.name c ↔ g.HasColor palette m.name c)
    (result : Coloring × Option Failure) :
    Colors g palette [m.name] { s with done := n.name :: s.done } color result →
      Colors g palette [n.name] s color
        (match result with
          | (s', some failure) => (s', some failure)
          | (s', none) =>
            finish palette n.name (s'.setColor n.name (s'.graph.nodeColor m.name))) := by
  intro hturn
  obtain ⟨s', failure?⟩ := result
  cases failure? with
  | some failure => exact hturn
  | none =>
    obtain ⟨color', hgraph, hadvances, hparent⟩ := hturn
    obtain ⟨-, hinherited⟩ := List.forall_mem_singleton.mp hparent
    have hshown : s'.graph.nodeColor m.name = color' m.name := by
      rw [hgraph, nodeColor_withColors (List.mem_map_of_mem hm)]
    dsimp only
    rw [hshown]
    refine colors_finish hn (setColor_graph hgraph n.name _) hadvances hnew fun c => ?_
    rw [if_pos (hinherited.isFixedColor hpalette), hrule]
    exact ⟨fun h => h.unique hlinked.nodup_names hinherited, fun h => h ▸ hinherited⟩

include hlinked hacyclic hpalette in
/-- In its turn a node gets the colour of the rules. -/
lemma colors_colorNode {n : Node} (hn : n ∈ g.nodes) {depth : Nat}
    (hgraph : s.graph = g.withColors color) (hexpects : Expects g palette color s.done n.name)
    (hdepth : remaining g s.done < depth) :
    Colors g palette [n.name] s color (colorNode palette depth n.name s) := by
  induction depth generalizing n s color with
  | zero => exact absurd hdepth (Nat.not_lt_zero _)
  | succ depth ih =>
    by_cases hmarked : n.name ∈ s.done
    · -- a marked node that waited for itself would be on a cycle
      rw [colorNode, if_pos (by simpa using hmarked)]
      refine ⟨color, hgraph, .refl g palette color s.done, ?_⟩
      rw [List.forall_mem_singleton]
      exact ⟨hmarked, (hexpects.settled _ hmarked).resolve_right fun h => hacyclic ⟨_, h⟩⟩
    have hcolor : color n.name = n.color := hexpects.declared n hn hmarked
    have hrule := fun c => (hasColor_iff hlinked.nodup_names hn : g.HasColor palette n.name c ↔ _)
    have hstart := Advances.refl g palette color (n.name :: s.done)
    have hset := setColor_graph (s := { s with done := n.name :: s.done }) hgraph n.name
    rw [colorNode_succ hlinked hn depth hgraph hmarked hcolor]
    unfold colorRule at hrule
    dsimp only
    split
    · next hfixed =>
      rw [if_pos hfixed] at hrule
      have hadvances := hstart.concludes hmarked ((hrule n.color).mpr rfl)
      rw [← hcolor, Function.update_eq_self] at hadvances
      refine ⟨color, hgraph, hadvances, ?_⟩
      rw [List.forall_mem_singleton, hcolor, hrule]
      exact ⟨List.mem_cons_self, rfl⟩
    next hfixed =>
    rw [if_neg hfixed] at hrule
    split
    · next hrandom =>
      rw [if_pos hrandom] at hrule
      refine colors_finish hn (d := n.color) ?_ hstart hmarked ?_
      · rw [← hcolor, Function.update_eq_self]
        exact hgraph
      · intro c
        rw [if_neg hfixed]
        exact hrule c
    next hrandom =>
    rw [if_neg hrandom] at hrule
    split
    · next found hfound =>
      rw [hfound] at hrule
      refine colors_finish hn (hset found) hstart hmarked fun c => ?_
      rw [hrule]
      have htruthy : found.isTruthy := List.find?_some hfound
      cases hkind : found.isRandom <;> simp [Datum.isFixedColor, htruthy, hkind]
    next hfound =>
    rw [hfound] at hrule
    cases hparent : n.parent? with
    | none =>
      rw [hparent] at hrule
      refine colors_finish hn (hset .null) hstart hmarked fun c => ?_
      rw [hrule]
      rfl
    | some parent =>
      rw [hparent] at hrule
      obtain ⟨m, hm, rfl, hreaches⟩ := exists_parent hlinked hn hparent
      have hturn := ih (s := { s with done := n.name :: s.done }) hm hgraph
        (hexpects.parent hreaches)
        (Nat.lt_of_lt_of_le (remaining_cons_lt hn hmarked) (Nat.le_of_lt_succ hdepth))
      exact colors_inherited hlinked hpalette hn hm hmarked hrule _ hturn

include hlinked hacyclic hpalette in
/-- Nodes that have their turns one after the other get the colours of the rules. -/
lemma colors_colorAll {names : List Text} (hnames : names ⊆ g.nodes.map Node.name)
    (hgraph : s.graph = g.withColors color)
    (hdeclared : ∀ n ∈ g.nodes, n.name ∉ s.done → color n.name = n.color)
    (hsettled : ∀ x ∈ s.done, g.HasColor palette x (color x)) :
    Colors g palette names s color (colorAll palette (g.nodes.length + 1) names s) := by
  induction names generalizing s color with
  | nil => exact ⟨color, hgraph, .refl g palette color s.done, List.forall_mem_nil _⟩
  | cons name names ih =>
    obtain ⟨hname, hrest⟩ := List.cons_subset.mp hnames
    obtain ⟨n, hn, rfl⟩ := List.mem_map.mp hname
    have hturn := colors_colorNode hlinked hacyclic hpalette hn hgraph
      ⟨hdeclared, fun x hx => Or.inl (hsettled x hx)⟩
      (Nat.lt_succ_of_le (remaining_le g s.done))
    unfold colorAll
    cases hresult : colorNode palette (g.nodes.length + 1) n.name s with
    | mk s' failure? =>
      rw [hresult] at hturn
      cases failure? with
      | some failure => exact hturn
      | none =>
        obtain ⟨color', hgraph', hadvances, hn'⟩ := hturn
        obtain ⟨hmarked, hcolored⟩ := List.forall_mem_singleton.mp hn'
        have hothers := ih hrest hgraph' (hadvances.declared hdeclared)
          (hadvances.all_settled hsettled)
        dsimp only
        cases hend : colorAll palette (g.nodes.length + 1) names s' with
        | mk s'' failure? =>
          rw [hend] at hothers
          cases failure? with
          | some failure => exact hothers
          | none =>
            obtain ⟨color'', hgraph'', hadvances', hall⟩ := hothers
            refine ⟨color'', hgraph'', hadvances.trans hadvances', ?_⟩
            refine List.forall_mem_cons.mpr ⟨⟨hadvances'.marks hmarked, ?_⟩, hall⟩
            rw [hadvances'.keeps _ hmarked]
            exact hcolored

end Turns

end Coloring

/-! ## The pass -/

namespace Graph

variable {g : Graph} {palette : List Text}

section Pass

variable (hlinked : g.IsLinked) (hacyclic : ¬HasCycle (Leads (targetsOf g.nodes)))
variable (hfixed : ∀ c ∈ palette, (Datum.text c).isFixedColor)

include hlinked hacyclic hfixed

/-- A pass sets the colours of the rules, or it fails where the rules give some node no colour. -/
lemma colorNodes_cases :
    (∃ color, g.colorNodes palette = (g.withColors color, none) ∧
      ∀ n ∈ g.nodes, g.HasColor palette n.name (color n.name)) ∨
    (g.colorNodes palette).2 ≠ none ∧ ∃ n ∈ g.nodes, ∀ c, ¬g.HasColor palette n.name c := by
  have hdeclared : ∀ n ∈ g.nodes, g.nodeColor n.name = n.color := by
    intro n hn
    unfold nodeColor
    rw [(node?_eq_some_iff hlinked.nodup_names).mpr ⟨hn, rfl⟩]
    rfl
  have hstart : g = g.withColors g.nodeColor := (withColors_of_forall hdeclared).symm
  have hpass := Coloring.colors_colorAll hlinked hacyclic hfixed (s := ⟨g, []⟩)
    (List.Subset.refl (g.nodes.map Node.name)) hstart (fun n hn _ => hdeclared n hn)
    (List.forall_mem_nil _)
  unfold colorNodes
  cases hresult : Coloring.colorAll palette (g.nodes.length + 1) (g.nodes.map Node.name) ⟨g, []⟩ with
  | mk s failure? =>
    rw [hresult] at hpass
    cases failure? with
    | some failure => exact Or.inr ⟨Option.some_ne_none failure, hpass⟩
    | none =>
      obtain ⟨color, hgraph, -, hall⟩ := hpass
      refine Or.inl ⟨color, congrArg (·, none) hgraph, fun n hn => ?_⟩
      exact (hall n.name (List.mem_map_of_mem hn)).2

/-- A pass fails if and only if the rules give some node no colour. -/
lemma colorNodes_snd_eq_none_iff :
    (g.colorNodes palette).2 = none ↔ ∀ n ∈ g.nodes, ∃ c, g.HasColor palette n.name c := by
  rcases colorNodes_cases hlinked hacyclic hfixed with ⟨color, hpass, hcolor⟩ | ⟨hfails, n, hn, hnone⟩
  · exact ⟨fun _ n hn => ⟨_, hcolor n hn⟩, fun _ => congrArg Prod.snd hpass⟩
  · refine ⟨fun h => absurd h hfails, fun h => ?_⟩
    obtain ⟨c, hc⟩ := h n hn
    exact absurd hc (hnone c)

/-- A pass that does not fail sets the colours of the rules. -/
lemma exists_colorNodes_eq (h : (g.colorNodes palette).2 = none) :
    ∃ color, (g.colorNodes palette).1 = g.withColors color ∧
      ∀ n ∈ g.nodes, g.HasColor palette n.name (color n.name) := by
  rcases colorNodes_cases hlinked hacyclic hfixed with ⟨color, hpass, hcolor⟩ | ⟨hfails, -⟩
  · exact ⟨color, congrArg Prod.fst hpass, hcolor⟩
  · exact absurd h hfails

end Pass

/-- In a linked graph without cycles, whatever colours its nodes and links have, and with a palette
whose colours are neither empty nor the random one, a pass sets the colours of the rules and changes
nothing else. It fails only where a name has to pick a colour and cannot be encoded, and the order of
the nodes does not matter. Built graphs are such graphs (`isLinked_of_buildGraphs`,
`not_hasCycle_of_buildGraphs`), and stay so with any colours. -/
theorem colorNodes_eq_rules (hlinked : g.IsLinked)
    (hacyclic : ¬HasCycle (Leads (targetsOf g.nodes))) (hpalette : palette ≠ [])
    (hfixed : ∀ c ∈ palette, (Datum.text c).isFixedColor) :
    ((g.colorNodes palette).2 = none ↔ ∀ n ∈ g.nodes, ∃ c, g.HasColor palette n.name c) ∧
    ((∀ n ∈ g.nodes, n.name.utf8?.isSome) → (g.colorNodes palette).2 = none) ∧
    ((g.colorNodes palette).2 = none → ∃ color : Text → Datum,
      (g.colorNodes palette).1 = g.withColors color ∧
        ∀ n ∈ g.nodes, ∀ c, g.HasColor palette n.name c ↔ c = color n.name) ∧
    ∀ g' : Graph, g.nodes.Perm g'.nodes →
      ((g'.colorNodes palette).2 = none ↔ (g.colorNodes palette).2 = none) ∧
      ((g.colorNodes palette).2 = none →
        (g.colorNodes palette).1.nodes.Perm (g'.colorNodes palette).1.nodes) := by
  refine ⟨colorNodes_snd_eq_none_iff hlinked hacyclic hfixed, colorNodes_snd_eq_none hpalette, ?_,
    fun g' hperm => ?_⟩
  · intro h
    obtain ⟨color, hpass, hcolor⟩ := exists_colorNodes_eq hlinked hacyclic hfixed h
    refine ⟨color, hpass, fun n hn c => ⟨fun hc => ?_, fun hc => hc ▸ hcolor n hn⟩⟩
    exact hc.unique hlinked.nodup_names (hcolor n hn)
  have hlinked' := hlinked.perm hperm
  have hacyclic' : ¬HasCycle (Leads (targetsOf g'.nodes)) := by
    rw [hlinked.targetsOf_perm hperm]
    exact hacyclic
  have hiff : (g'.colorNodes palette).2 = none ↔ (g.colorNodes palette).2 = none := by
    rw [colorNodes_snd_eq_none_iff hlinked hacyclic hfixed,
      colorNodes_snd_eq_none_iff hlinked' hacyclic' hfixed]
    refine ⟨fun h n hn => ?_, fun h n hn => ?_⟩
    · exact (h n (hperm.mem_iff.mp hn)).imp fun c hc => hc.perm hlinked' hperm.symm
    · exact (h n (hperm.mem_iff.mpr hn)).imp fun c hc => hc.perm hlinked hperm
  refine ⟨hiff, fun h => ?_⟩
  obtain ⟨color, hpass, hcolor⟩ := exists_colorNodes_eq hlinked hacyclic hfixed h
  obtain ⟨color', hpass', hcolor'⟩ := exists_colorNodes_eq hlinked' hacyclic' hfixed (hiff.mpr h)
  have hsame : g.nodes.map (fun n => { n with color := color n.name }) =
      g.nodes.map fun n => { n with color := color' n.name } := by
    refine List.map_congr_left fun n hn => ?_
    have hcolors := (hcolor n hn).perm hlinked hperm
    rw [hcolors.unique hlinked'.nodup_names (hcolor' n (hperm.mem_iff.mp hn))]
  rw [hpass, hpass']
  unfold withColors
  rw [hsame]
  exact hperm.map _

end Graph

/-- A sheet in which a node is entered by a link with a colour, one by a link with the random colour,
and the others by links without colours. -/
def paintedSheet : List Datum :=
  [.map [(.text "name", .text "Spring"),
      (.text "links", .list [
        .map [(.text "to", .text "Pond")],
        .map [(.text "to", .text "Mill"), (.text "color", .text "random")],
        .map [(.text "to", .text "Delta"), (.text "color", .text "blue")]])],
    .map [(.text "name", .text "Pond"),
      (.text "links", .list [.map [(.text "to", .text "Sea")]])]]

/-- Colours for the nodes of the painted sheet: one that is fixed, the random one, and none. -/
def paint (name : Text) : Datum :=
  if name = "Spring" then .text "red" else if name = "Sea" then .text "random" else .null

/-- The painted sheet gets the colours of the rules. -/
theorem Graph.colorNodes_eq_rules_paintedSheet :
    ∃ gs g, buildGraphs {} paintedSheet = .ok gs ∧ g ∈ gs ∧ (g.withColors paint).IsLinked ∧
      ¬HasCycle (Leads (targetsOf (g.withColors paint).nodes)) ∧ category10 ≠ [] ∧
      (∀ c ∈ category10, (Datum.text c).isFixedColor) ∧
      ∃ color, ((g.withColors paint).colorNodes category10).1 = (g.withColors paint).withColors color ∧
        ∀ n ∈ (g.withColors paint).nodes, ∀ c,
          (g.withColors paint).HasColor category10 n.name c ↔ c = color n.name := by
  have hran : ((buildGraphs {} paintedSheet).toOption.bind fun gs => gs.head?.map fun g =>
      ((g.withColors paint).colorNodes category10).2.isNone) = some true := by
    decide +kernel
  obtain ⟨gs, g, hbuilt, hmem, hnone⟩ := exists_graph_of_head? hran
  have hlinked := (isLinked_of_buildGraphs hbuilt hmem).withColors paint
  have hacyclic : ¬HasCycle (Leads (targetsOf (g.withColors paint).nodes)) := by
    rw [targetsOf_withColors]
    exact not_hasCycle_of_buildGraphs hbuilt g hmem
  have hpalette : category10 ≠ [] := List.cons_ne_nil _ _
  have hfixed : ∀ c ∈ category10, (Datum.text c).isFixedColor := by decide
  exact ⟨gs, g, hbuilt, hmem, hlinked, hacyclic, hpalette, hfixed,
    (colorNodes_eq_rules hlinked hacyclic hpalette hfixed).2.2.1 (Option.isNone_iff_eq_none.mp hnone)⟩

end StockFlow
