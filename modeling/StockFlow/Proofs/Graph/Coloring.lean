import StockFlow.Graph.Color
import StockFlow.Proofs.Outcome
/-!
# What colouring keeps

A colouring pass changes a graph only by setting colours of nodes. So every property that setting a
colour keeps is kept by the pass (`Graph.colorNodes_keeps`), and two graphs whose nodes are alike in
what a pass looks at are coloured alike, or fail alike (`Graph.colorNodes_forall₂`). A pass over nodes
whose names can be encoded does not fail (`Graph.colorNodes_snd_eq_none`), since a pass fails only where
the palette has no colour for a name (`Graph.colorNodes_fails`).
-/

namespace StockFlow

namespace Coloring

variable {palette : List Text}

/-! ## Properties that setting a colour keeps -/

/-- Finishing a node either sets its colour or changes nothing. -/
lemma finish_graph (palette : List Text) (name : Text) (s : Coloring) :
    (finish palette name s).1.graph = s.graph ∨
      ∃ color, (finish palette name s).1.graph = (s.setColor name color).graph := by
  unfold finish
  split
  · exact Or.inl rfl
  · split
    · exact Or.inr ⟨_, rfl⟩
    · exact Or.inl rfl

variable {P : Graph → Prop}

/-- Finishing a node keeps what setting a colour keeps. -/
lemma finish_keeps
    (hset : ∀ g name color, P g → P (g.editNode name fun n => { n with color }))
    (name : Text) {s : Coloring} (hs : P s.graph) : P (finish palette name s).1.graph := by
  rcases finish_graph palette name s with h | ⟨color, h⟩
  · rw [h]
    exact hs
  · rw [h]
    exact hset _ _ _ hs

/-- Colouring a node keeps what setting a colour keeps. -/
lemma colorNode_keeps
    (hset : ∀ g name color, P g → P (g.editNode name fun n => { n with color }))
    (depth : Nat) (name : Text) {s : Coloring} (hs : P s.graph) :
    P (colorNode palette depth name s).1.graph := by
  induction depth generalizing name s with
  | zero => exact hs
  | succ depth ih =>
    unfold colorNode
    split
    · exact hs
    split
    · exact hs
    next n hn =>
      dsimp only
      split
      · exact hs
      split
      · exact finish_keeps hset name hs
      split
      · exact finish_keeps hset name (hset _ _ _ hs)
      split
      · exact finish_keeps hset name (hset _ _ _ hs)
      next parent hparent =>
        have hrec := ih parent (s := { s with done := name :: s.done }) hs
        split
        · next s' failure hfailed =>
          rw [hfailed] at hrec
          exact hrec
        · next s' hcolored =>
          rw [hcolored] at hrec
          exact finish_keeps hset name (hset _ _ _ hrec)

/-- Colouring nodes in turn keeps what setting a colour keeps. -/
lemma colorAll_keeps
    (hset : ∀ g name color, P g → P (g.editNode name fun n => { n with color }))
    (depth : Nat) (names : List Text) {s : Coloring} (hs : P s.graph) :
    P (colorAll palette depth names s).1.graph := by
  induction names generalizing s with
  | nil => exact hs
  | cons name rest ih =>
    have hfirst : P (colorNode palette depth name s).1.graph :=
      colorNode_keeps hset depth name hs
    unfold colorAll
    split
    · next s' hcolored =>
      rw [hcolored] at hfirst
      exact ih hfirst
    · next s' failure hfailed =>
      rw [hfailed] at hfirst
      exact hfirst

end Coloring

/-- A colouring pass keeps what setting a colour keeps. -/
lemma Graph.colorNodes_keeps {P : Graph → Prop}
    (hset : ∀ g name color, P g → P (g.editNode name fun n => { n with color }))
    (palette : List Text) {g : Graph} (hg : P g) : P (g.colorNodes palette).1 :=
  Coloring.colorAll_keeps hset (g.nodes.length + 1) (g.nodes.map Node.name) (s := ⟨g, []⟩) hg

/-- A colouring pass keeps everything of a graph but its nodes. -/
lemma Graph.colorNodes_suffix_resolver (g : Graph) (palette : List Text) :
    (g.colorNodes palette).1.suffix = g.suffix ∧ (g.colorNodes palette).1.resolver = g.resolver :=
  Graph.colorNodes_keeps (P := fun g' => g'.suffix = g.suffix ∧ g'.resolver = g.resolver)
    (fun _ _ _ h => h) palette ⟨rfl, rfl⟩

/-- A change of nodes that keeps names keeps what is said about all names. -/
lemma Graph.forall_name_editNode {Q : Text → Prop} (g : Graph) (name : Text) (color : Datum)
    (h : ∀ n ∈ g.nodes, Q n.name) :
    ∀ n ∈ (g.editNode name fun n => { n with color }).nodes, Q n.name := by
  intro n hn
  obtain ⟨m, hm, rfl⟩ := List.mem_map.mp hn
  split
  · exact h m hm
  · exact h m hm

/-! ## Ways in which a pass fails -/

/-- A palette that has colours has one for every name that can be encoded. -/
lemma exists_paletteColor {palette : List Text} (hpalette : palette ≠ []) {name : Text}
    (hname : name.utf8?.isSome) : ∃ color, paletteColor name palette = .ok color := by
  obtain ⟨bytes, hbytes⟩ := Option.isSome_iff_exists.mp hname
  unfold paletteColor nameHash?
  rw [hbytes, Option.map_some]
  dsimp only
  generalize ((Digest.md5 bytes).take 4).foldl (fun value b => 256 * value + b.toNat) 0 = hash
  have hlt : hash % palette.length < palette.length :=
    Nat.mod_lt _ (List.length_pos_iff.mpr hpalette)
  rw [List.getElem?_eq_getElem hlt]
  exact ⟨_, rfl⟩

/-- A palette that has colours has none only for names that cannot be encoded. -/
lemma failsIn_paletteColor {palette : List Text} (hpalette : palette ≠ []) (name : Text) :
    Outcome.FailsIn (· = .notEncodable) (paletteColor name palette) := by
  intro failure hfailure
  cases hname : name.utf8? with
  | some bytes =>
    obtain ⟨color, hcolor⟩ := exists_paletteColor hpalette (Option.isSome_of_eq_some hname)
    rw [hcolor] at hfailure
    cases hfailure
  | none =>
    unfold paletteColor nameHash? at hfailure
    rw [hname] at hfailure
    cases hfailure
    rfl

namespace Coloring

variable {palette : List Text} {P : Failure → Prop}

/-- A node is finished unless the palette fails for its name. -/
lemma finish_fails {name : Text} (hname : Outcome.FailsIn P (paletteColor name palette))
    (s : Coloring) {failure : Failure} (h : (finish palette name s).2 = some failure) :
    P failure := by
  unfold finish at h
  split at h
  · cases h
  · split at h
    · cases h
    · next failure' hcolor =>
      cases h
      exact hname _ hcolor

/-- A node is coloured unless the palette fails for the name of a node. -/
lemma colorNode_fails (depth : Nat) (name : Text) {s : Coloring}
    (hs : ∀ n ∈ s.graph.nodes, Outcome.FailsIn P (paletteColor n.name palette)) {failure : Failure}
    (h : (colorNode palette depth name s).2 = some failure) : P failure := by
  induction depth generalizing name s with
  | zero => cases h
  | succ depth ih =>
    unfold colorNode at h
    split at h
    · cases h
    split at h
    · cases h
    next n hn =>
      have hname : Outcome.FailsIn P (paletteColor name palette) := by
        have hn' : n.name = name := by simpa using List.find?_some hn
        rw [← hn']
        exact hs n (List.mem_of_find?_eq_some hn)
      dsimp only at h
      split at h
      · cases h
      split at h
      · exact finish_fails hname _ h
      split at h
      · exact finish_fails hname _ h
      split at h
      · exact finish_fails hname _ h
      next parent hparent =>
        split at h
        · next s' failure' hfailed =>
          refine ih parent (s := { s with done := name :: s.done }) hs ?_
          rw [hfailed]
          exact h
        · exact finish_fails hname _ h

/-- Nodes are coloured in turn unless the palette fails for the name of a node. -/
lemma colorAll_fails (depth : Nat) (names : List Text) {s : Coloring}
    (hs : ∀ n ∈ s.graph.nodes, Outcome.FailsIn P (paletteColor n.name palette)) {failure : Failure}
    (h : (colorAll palette depth names s).2 = some failure) : P failure := by
  induction names generalizing s with
  | nil => cases h
  | cons name rest ih =>
    have hkeeps : ∀ n ∈ (colorNode palette depth name s).1.graph.nodes,
        Outcome.FailsIn P (paletteColor n.name palette) :=
      colorNode_keeps (P := fun g => ∀ n ∈ g.nodes, Outcome.FailsIn P (paletteColor n.name palette))
        (fun g name color =>
          g.forall_name_editNode (Q := fun t => Outcome.FailsIn P (paletteColor t palette)) name color)
        depth name hs
    unfold colorAll at h
    split at h
    · next s' hcolored =>
      rw [hcolored] at hkeeps
      exact ih hkeeps h
    · next s' failure' hfailed =>
      refine colorNode_fails depth name hs ?_
      rw [hfailed]
      exact h

end Coloring

/-- A pass over a graph fails only if the palette fails for the name of a node. -/
theorem Graph.colorNodes_fails {P : Failure → Prop} {palette : List Text} {g : Graph}
    (hg : ∀ n ∈ g.nodes, Outcome.FailsIn P (paletteColor n.name palette)) {failure : Failure}
    (h : (g.colorNodes palette).2 = some failure) : P failure :=
  Coloring.colorAll_fails _ _ (s := ⟨g, []⟩) hg h

/-- A graph whose names can all be encoded is coloured without failure. -/
theorem Graph.colorNodes_snd_eq_none {palette : List Text} (hpalette : palette ≠ []) {g : Graph}
    (hg : ∀ n ∈ g.nodes, n.name.utf8?.isSome) : (g.colorNodes palette).2 = none := by
  have hnames : ∀ n ∈ g.nodes, Outcome.FailsIn (fun _ => False) (paletteColor n.name palette) := by
    intro n hn failure hfailure
    obtain ⟨color, hcolor⟩ := exists_paletteColor hpalette (hg n hn)
    rw [hcolor] at hfailure
    cases hfailure
  exact Option.eq_none_iff_forall_ne_some.mpr fun failure h => Graph.colorNodes_fails hnames h

/-! ## Graphs that are coloured alike -/

/-- Where related nodes have the same name, graphs of related nodes have related ones under a name. -/
lemma Graph.rel_node? {rel : Node → Node → Prop} (hname : ∀ {n n'}, rel n n' → n.name = n'.name)
    {g g' : Graph} (hg : List.Forall₂ rel g.nodes g'.nodes) (name : Text) :
    Option.Rel rel (g.node? name) (g'.node? name) := by
  unfold Graph.node?
  generalize g.nodes = ns, g'.nodes = ns' at hg
  induction hg with
  | nil => exact .none
  | @cons n n' ns ns' hn _ ih =>
    rw [List.find?_cons, List.find?_cons, hname hn]
    cases n'.name == name with
    | true => exact .some hn
    | false => exact ih

/-- Relations of colours and of nodes that a pass cannot tell apart: related colours count as given
and as random alike, and related nodes are entered by the same links and stay related when they are
given related colours. -/
structure Recoloring (R : Datum → Datum → Prop) (rel : Node → Node → Prop) : Prop where
  truthy : ∀ {c c'}, R c c' → c.isTruthy = c'.isTruthy
  random : ∀ {c c'}, R c c' → c.isRandom = c'.isRandom
  null : R .null .null
  text : ∀ t, R (.text t) (.text t)
  name : ∀ {n n'}, rel n n' → n.name = n'.name
  incoming : ∀ {n n'}, rel n n' → n.incoming = n'.incoming
  color : ∀ {n n'}, rel n n' → R n.color n'.color
  links : ∀ {n n'}, rel n n' →
    List.Forall₂ (fun l l' : Link => R l.color l'.color) n.outgoing n'.outgoing
  setColor : ∀ {n n' c c'}, rel n n' → R c c' → rel { n with color := c } { n' with color := c' }

namespace Recoloring

variable {R : Datum → Datum → Prop} {rel : Node → Node → Prop} {g g' : Graph}

/-- Related colours are fixed alike. -/
lemma isFixedColor (h : Recoloring R rel) {c c' : Datum} (hc : R c c') :
    c.isFixedColor = c'.isFixedColor := by
  unfold Datum.isFixedColor
  rw [h.truthy hc, h.random hc]

/-- Related nodes have the same place under a name. -/
lemma node? (h : Recoloring R rel) (hg : List.Forall₂ rel g.nodes g'.nodes) (name : Text) :
    Option.Rel rel (g.node? name) (g'.node? name) :=
  Graph.rel_node? h.name hg name

/-- Related nodes show related colours. -/
lemma nodeColor (h : Recoloring R rel) (hg : List.Forall₂ rel g.nodes g'.nodes) (name : Text) :
    R (g.nodeColor name) (g'.nodeColor name) := by
  have hnode := h.node? hg name
  unfold Graph.nodeColor
  generalize g.node? name = n?, g'.node? name = n'? at hnode
  cases hnode with
  | none => exact h.null
  | some hn => exact h.color hn

/-- The colours of a link in related graphs are related. -/
lemma linkColor? (h : Recoloring R rel) (hg : List.Forall₂ rel g.nodes g'.nodes) (id : LinkId) :
    Option.Rel R ((g.link? id).map Link.color) ((g'.link? id).map Link.color) := by
  have hlink : Option.Rel (fun l l' : Link => R l.color l'.color) (g.link? id) (g'.link? id) :=
    Outcome.rel_option_bind (h.node? hg id.source) fun _ _ hn =>
      Outcome.rel_getElem? (h.links hn) id.position
  generalize g.link? id = l?, g'.link? id = l'? at hlink
  cases hlink with
  | none => exact .none
  | some hl => exact .some hl

end Recoloring

namespace Coloring

variable {R : Datum → Datum → Prop} {rel : Node → Node → Prop} {palette : List Text}

/-- Passes that have come equally far over related nodes. -/
structure Alike (rel : Node → Node → Prop) (s s' : Coloring) : Prop where
  done : s.done = s'.done
  nodes : List.Forall₂ rel s.graph.nodes s'.graph.nodes

variable {s s' : Coloring}

/-- The first links that declare a colour declare related ones. -/
lemma Alike.firstLinkColor? (h : Recoloring R rel) (hs : Alike rel s s') {n n' : Node}
    (hn : rel n n') : Option.Rel R (s.firstLinkColor? n) (s'.firstLinkColor? n') := by
  unfold Coloring.firstLinkColor?
  rw [← h.incoming hn]
  induction n.incoming with
  | nil => exact .none
  | cons id ids ih =>
    have hlink := h.linkColor? hs.nodes id
    rw [List.findSome?_cons, List.findSome?_cons]
    cases hl : s.graph.link? id with
    | none =>
      cases hl' : s'.graph.link? id with
      | none => exact ih
      | some l' =>
        rw [hl, hl'] at hlink
        cases hlink
    | some l =>
      cases hl' : s'.graph.link? id with
      | none =>
        rw [hl, hl'] at hlink
        cases hlink
      | some l' =>
        rw [hl, hl'] at hlink
        cases hlink with
        | some hcolor =>
          dsimp only
          rw [h.truthy hcolor]
          by_cases hgiven : l'.color.isTruthy
          · rw [if_pos hgiven, if_pos hgiven]
            exact .some hcolor
          · rw [if_neg hgiven, if_neg hgiven]
            exact ih

/-- Setting related colours keeps passes alike. -/
lemma Alike.setColor (h : Recoloring R rel) (hs : Alike rel s s') (name : Text) {c c' : Datum}
    (hc : R c c') : Alike rel (s.setColor name c) (s'.setColor name c') where
  done := hs.done
  nodes := by
    unfold Coloring.setColor Graph.editNode
    rw [List.forall₂_map_left_iff, List.forall₂_map_right_iff]
    refine hs.nodes.imp fun n n' hn => ?_
    rw [h.name hn]
    split
    · exact h.setColor hn hc
    · exact hn

/-- Passes that have come equally far, and both go on or both end with the same failure. -/
def EndAlike (rel : Node → Node → Prop) (t t' : Coloring × Option Failure) : Prop :=
  Alike rel t.1 t'.1 ∧ t.2 = t'.2

/-- A pass that goes on where it has not failed. -/
def andThen (next : Coloring → Coloring × Option Failure) :
    Coloring × Option Failure → Coloring × Option Failure
  | (s, some failure) => (s, some failure)
  | (s, none) => next s

/-- Colouring nodes in turn goes on behind the first one where that has not failed. -/
lemma colorAll_cons (palette : List Text) (depth : Nat) (name : Text) (rest : List Text)
    (s : Coloring) : colorAll palette depth (name :: rest) s =
      andThen (colorAll palette depth rest) (colorNode palette depth name s) := by
  conv_lhs => unfold colorAll
  obtain ⟨t, failure?⟩ := colorNode palette depth name s
  cases failure? with
  | none => rfl
  | some failure => rfl

/-- Passes that are alike stay so if they go on alike where they have not failed. -/
lemma EndAlike.andThen {t t' : Coloring × Option Failure} (h : EndAlike rel t t')
    {next next' : Coloring → Coloring × Option Failure}
    (hnext : ∀ {s s'}, Alike rel s s' → EndAlike rel (next s) (next' s')) :
    EndAlike rel (andThen next t) (andThen next' t') := by
  obtain ⟨s, failure?⟩ := t
  obtain ⟨s', failure?'⟩ := t'
  obtain ⟨hs, hfailure⟩ := h
  obtain rfl : failure? = failure?' := hfailure
  cases failure? with
  | some failure => exact ⟨hs, rfl⟩
  | none => exact hnext hs

/-- Finishing a node goes alike in passes that are alike. -/
lemma Alike.finish (h : Recoloring R rel) (hs : Alike rel s s') (name : Text) :
    EndAlike rel (finish palette name s) (finish palette name s') := by
  unfold Coloring.finish
  rw [h.isFixedColor (h.nodeColor hs.nodes name)]
  split
  · exact ⟨hs, rfl⟩
  · split
    · exact ⟨hs.setColor h name (h.text _), rfl⟩
    · exact ⟨hs, rfl⟩

/-- Colouring a node goes alike in passes that are alike. -/
lemma Alike.colorNode (h : Recoloring R rel) (palette : List Text) (depth : Nat) (name : Text)
    (hs : Alike rel s s') :
    EndAlike rel (colorNode palette depth name s) (colorNode palette depth name s') := by
  induction depth generalizing name s s' with
  | zero => exact ⟨hs, rfl⟩
  | succ depth ih =>
    have hnode := h.node? hs.nodes name
    unfold Coloring.colorNode
    rw [hs.done]
    split
    · exact ⟨hs, rfl⟩
    generalize s.graph.node? name = n?, s'.graph.node? name = n'? at hnode
    cases hnode with
    | none => exact ⟨hs, rfl⟩
    | @some n n' hrel =>
      have hmarked : Alike rel { s with done := name :: s'.done }
          { s' with done := name :: s'.done } := ⟨rfl, hs.nodes⟩
      have hfirst := hmarked.firstLinkColor? h hrel
      have hparent : n.parent? = n'.parent? := by
        unfold Node.parent?
        rw [h.incoming hrel]
      dsimp only
      rw [h.isFixedColor (h.color hrel), h.random (h.color hrel), hparent]
      split
      · exact ⟨hmarked, rfl⟩
      split
      · exact hmarked.finish h name
      generalize Coloring.firstLinkColor? _ n = c?, Coloring.firstLinkColor? _ n' = c'? at hfirst
      cases hfirst with
      | some hcolor => exact (hmarked.setColor h name hcolor).finish h name
      | none =>
        cases n'.parent? with
        | none => exact (hmarked.setColor h name h.null).finish h name
        | some parent =>
          exact (ih parent hmarked).andThen fun ht =>
            (ht.setColor h name (h.nodeColor ht.nodes parent)).finish h name

/-- Colouring nodes in turn goes alike in passes that are alike. -/
lemma Alike.colorAll (h : Recoloring R rel) (palette : List Text) (depth : Nat)
    (names : List Text) (hs : Alike rel s s') :
    EndAlike rel (colorAll palette depth names s) (colorAll palette depth names s') := by
  induction names generalizing s s' with
  | nil => exact ⟨hs, rfl⟩
  | cons name rest ih =>
    rw [colorAll_cons, colorAll_cons]
    exact (hs.colorNode h palette depth name).andThen ih

end Coloring

/-- Graphs whose nodes are related in pairs are coloured alike, or fail alike. -/
theorem Graph.colorNodes_forall₂ {R : Datum → Datum → Prop} {rel : Node → Node → Prop}
    (h : Recoloring R rel) (palette : List Text) {g g' : Graph}
    (hg : List.Forall₂ rel g.nodes g'.nodes) :
    List.Forall₂ rel (g.colorNodes palette).1.nodes (g'.colorNodes palette).1.nodes ∧
      (g.colorNodes palette).2 = (g'.colorNodes palette).2 := by
  have hnames : g.nodes.map Node.name = g'.nodes.map Node.name := by
    rw [← List.forall₂_eq_eq_eq, List.forall₂_map_left_iff, List.forall₂_map_right_iff]
    exact hg.imp fun _ _ => h.name
  have hstart : Coloring.Alike rel ⟨g, []⟩ ⟨g', []⟩ := ⟨rfl, hg⟩
  obtain ⟨hend, hfailure⟩ := hstart.colorAll h palette (g.nodes.length + 1)
    (g.nodes.map Node.name)
  unfold Graph.colorNodes
  rw [← hnames, ← hg.length_eq]
  exact ⟨hend.nodes, hfailure⟩

end StockFlow
