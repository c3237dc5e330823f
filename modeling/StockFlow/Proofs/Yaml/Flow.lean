import StockFlow.Proofs.Yaml.Layout
import StockFlow.Proofs.Yaml.Trees
/-!
# Reading the nodes of syntax trees

The tokens of the tree of a JSON text describe a plain table, whose first node has the value of the
tree (`ofTokens?_of_isPortable`). The readers of nodes are followed token by token
(`NodeReader.Gives`). There are no more rounds than tokens, so the fuel of a document is enough.
-/

namespace StockFlow.Yaml

open Json (Tree Items Pairs)

namespace NodeReader

variable {α β : Type} {ctx : NodeContext} {s s' s'' : NodeState} {t : Token} {ts : List Token}

/-- A reader of nodes gives something and leaves a state. -/
def Gives (ctx : NodeContext) (x : NodeReader α) (s : NodeState) (a : α) (s' : NodeState) : Prop :=
  (x.run ctx).run s = .ok (a, s')

lemma Gives.bind {x : NodeReader α} {f : α → NodeReader β} {a : α} {b : β}
    (h : Gives ctx x s a s') (h' : Gives ctx (f a) s' b s'') : Gives ctx (x >>= f) s b s'' := by
  unfold Gives at *
  rw [ReaderT.run_bind, run_bind_eq h, h']

lemma gives_pure (a : α) : Gives ctx (pure a) s a s := rfl

lemma gives_modify (f : NodeState → NodeState) : Gives ctx (modify f) s ⟨⟩ (f s) := rfl

lemma gives_get : Gives ctx get s s s := rfl

lemma gives_peek (h : s.tokens = t :: ts) : Gives ctx peek s t s := by
  refine gives_get.bind ?_
  rw [h]
  rfl

lemma gives_skip (h : s.tokens = t :: ts) : Gives ctx skip s ⟨⟩ { s with tokens := ts } := by
  have : ts = s.tokens.tail := by rw [h]; rfl
  rw [this]
  rfl

/-- Whether a node begins with a token and has no properties in front of it. -/
def beginsNode : Token → Bool
  | .scalar _ _ => true
  | .flowSequenceStart => true
  | .flowMappingStart => true
  | _ => false

/-- A node without properties stands in front. -/
def BeginNode (ts : List Token) : Prop := ∃ t ts', ts = t :: ts' ∧ beginsNode t = true

lemma gives_properties (h : s.tokens = t :: ts) (ht : beginsNode t = true) :
    Gives ctx properties s {} s := by
  unfold properties
  refine (gives_peek h).bind ?_
  cases t <;> first | rfl | cases ht

lemma gives_add (node : Node) :
    Gives ctx (add none node) s s.nodes.size { s with nodes := s.nodes.push node } := rfl

lemma gives_addCollection {tag : Tag} {body : List α → NodeBody} {parts : NodeReader (List α)}
    {items : List α}
    (h : Gives ctx parts
      { s with nodes := s.nodes.push ⟨tag, body []⟩, unfinished := s.nodes.size :: s.unfinished }
      items s') :
    Gives ctx (addCollection none tag body parts) s s.nodes.size
      { s' with
        nodes := s'.nodes.setBody s.nodes.size (body items)
        unfinished := s'.unfinished.tail } := by
  unfold addCollection
  exact (gives_add _).bind ((gives_modify _).bind (h.bind ((gives_modify _).bind (gives_pure _))))

variable {fuel : Nat} {inBlock indentless : Bool}

lemma gives_node_scalar {text : Text} (plain : Bool)
    (h : s.tokens = .scalar text plain :: ts) :
    Gives ctx (node (fuel + 1) inBlock indentless) s s.nodes.size
      { s with
        tokens := ts
        nodes := s.nodes.push ⟨if plain then implicitTag text else .str, .scalar text⟩ } := by
  unfold node
  refine (gives_peek h).bind ((gives_properties h rfl).bind ((gives_peek h).bind ?_))
  exact (gives_skip h).bind (gives_add _)

lemma gives_node_sequence {items : List NodeId} (h : s.tokens = .flowSequenceStart :: ts)
    (hitems : Gives ctx (flowItems fuel true)
      { s with
        tokens := ts
        nodes := s.nodes.push ⟨.seq, .sequence []⟩
        unfinished := s.nodes.size :: s.unfinished } items s') :
    Gives ctx (node (fuel + 1) inBlock indentless) s s.nodes.size
      { s' with
        nodes := s'.nodes.setBody s.nodes.size (.sequence items)
        unfinished := s'.unfinished.tail } := by
  unfold node
  refine (gives_peek h).bind ((gives_properties h rfl).bind ((gives_peek h).bind ?_))
  exact (gives_skip h).bind (gives_addCollection hitems)

lemma gives_node_mapping {pairs : List (NodeId × NodeId)} (h : s.tokens = .flowMappingStart :: ts)
    (hpairs : Gives ctx (flowPairs fuel true)
      { s with
        tokens := ts
        nodes := s.nodes.push ⟨.map, .mapping []⟩
        unfinished := s.nodes.size :: s.unfinished } pairs s') :
    Gives ctx (node (fuel + 1) inBlock indentless) s s.nodes.size
      { s' with
        nodes := s'.nodes.setBody s.nodes.size (.mapping pairs)
        unfinished := s'.unfinished.tail } := by
  unfold node
  refine (gives_peek h).bind ((gives_properties h rfl).bind ((gives_peek h).bind ?_))
  exact (gives_skip h).bind (gives_addCollection hpairs)

/-- The comma in front of an item or an entry, unless it is the first one. -/
def comma (first : Bool) : List Token := if first then [] else [.flowEntry]

lemma gives_flowItems_end {first : Bool} (h : s.tokens = .flowSequenceEnd :: ts) :
    Gives ctx (flowItems (fuel + 1) first) s [] { s with tokens := ts } := by
  unfold flowItems
  exact (gives_peek h).bind ((gives_skip h).bind (gives_pure _))

lemma gives_flowItems_item {first : Bool} {item : NodeId} {items : List NodeId}
    (h : s.tokens = comma first ++ ts) (hts : BeginNode ts)
    (hitem : Gives ctx (node fuel false false) { s with tokens := ts } item s')
    (hitems : Gives ctx (flowItems fuel false) s' items s'') :
    Gives ctx (flowItems (fuel + 1) first) s (item :: items) s'' := by
  obtain ⟨t, ts, rfl, ht⟩ := hts
  have hpeek : Gives ctx peek { s with tokens := t :: ts } t { s with tokens := t :: ts } :=
    gives_peek rfl
  have hrest : Gives ctx (do
      let item ← node fuel false false
      return item :: (← flowItems fuel false)) { s with tokens := t :: ts } (item :: items) s'' :=
    hitem.bind (hitems.bind (gives_pure _))
  unfold flowItems
  cases first with
  | true =>
    have hs : { s with tokens := t :: ts } = s := by
      rw [← show s.tokens = t :: ts from h]
    rw [hs] at hpeek hrest
    refine hpeek.bind ?_
    cases t <;> first | exact hpeek.bind hrest | cases ht
  | false =>
    have h : s.tokens = .flowEntry :: t :: ts := h
    refine (gives_peek h).bind ((gives_skip h).bind ?_)
    cases t <;> first | exact hpeek.bind hrest | cases ht

lemma gives_flowPairs_end {first : Bool} (h : s.tokens = .flowMappingEnd :: ts) :
    Gives ctx (flowPairs (fuel + 1) first) s [] { s with tokens := ts } := by
  unfold flowPairs
  exact (gives_peek h).bind ((gives_skip h).bind (gives_pure _))

lemma gives_nodeUnless {ends : Token → Bool} {id : NodeId} (h : s.tokens = t :: ts)
    (ht : ends t = false) (hnode : Gives ctx (node fuel inBlock indentless) s id s') :
    Gives ctx (nodeUnless (fuel + 1) inBlock indentless ends) s id s' := by
  unfold nodeUnless
  refine (gives_peek h).bind ?_
  rw [ht]
  exact hnode

lemma gives_valueNode {id : NodeId} (h : s.tokens = .value :: ts) (hts : BeginNode ts)
    (hnode : Gives ctx (node fuel false false) { s with tokens := ts } id s') :
    Gives ctx (valueNode (fuel + 2) false endsFlowPair) s id s' := by
  obtain ⟨t, ts, rfl, ht⟩ := hts
  unfold valueNode
  refine (gives_peek h).bind ((gives_skip h).bind (gives_nodeUnless rfl ?_ hnode))
  cases t <;> first | rfl | cases ht

/-- The tokens of an entry, with those of its value. -/
def entryTokens (key : Text) (ts : List Token) : List Token :=
  .key :: .scalar key false :: .value :: ts

/-- A key and its value are read. -/
lemma gives_flowPairs_pair {first : Bool} {key : Text} {value : NodeId}
    {pairs : List (NodeId × NodeId)} (h : s.tokens = comma first ++ entryTokens key ts)
    (hts : BeginNode ts)
    (hvalue : Gives ctx (node fuel false false)
      { s with tokens := ts, nodes := s.nodes.push ⟨.str, .scalar key⟩ } value s')
    (hpairs : Gives ctx (flowPairs (fuel + 2) false) s' pairs s'') :
    Gives ctx (flowPairs (fuel + 3) first) s ((s.nodes.size, value) :: pairs) s'' := by
  let s₁ : NodeState := { s with tokens := entryTokens key ts }
  let s₂ : NodeState := { s with tokens := .scalar key false :: .value :: ts }
  let s₃ : NodeState :=
    { s with tokens := .value :: ts, nodes := s.nodes.push ⟨.str, .scalar key⟩ }
  have hpeek : Gives ctx peek s₁ .key s₁ := gives_peek rfl
  have hkey : Gives ctx (nodeUnless (fuel + 2) false false fun t => t == .value || endsFlowPair t)
      s₂ s.nodes.size s₃ := gives_nodeUnless rfl rfl (gives_node_scalar false rfl)
  have hrest : Gives ctx (do
      skip
      let key ← nodeUnless (fuel + 2) false false fun t => t == .value || endsFlowPair t
      let value ← valueNode (fuel + 2) false endsFlowPair
      return (key, value) :: (← flowPairs (fuel + 2) false)) s₁
        ((s.nodes.size, value) :: pairs) s'' := by
    refine (gives_skip (s := s₁) rfl).bind (hkey.bind ?_)
    exact (gives_valueNode (s := s₃) rfl hts hvalue).bind (hpairs.bind (gives_pure _))
  unfold flowPairs
  cases first with
  | true =>
    have hs : s₁ = s := by
      change { s with tokens := entryTokens key ts } = s
      rw [← show s.tokens = entryTokens key ts from h]
    rw [hs] at hpeek hrest
    exact hpeek.bind (hpeek.bind hrest)
  | false =>
    have h : s.tokens = .flowEntry :: entryTokens key ts := h
    exact (gives_peek h).bind ((gives_skip h).bind (hpeek.bind hrest))

lemma beginNode_tree (t : Tree) (ts : List Token) : BeginNode (t.tokens ++ ts) := by
  cases t <;> exact ⟨_, _, rfl, rfl⟩

lemma one_le_length_tokens (t : Tree) : 1 ≤ t.tokens.length := by
  cases t <;> exact Nat.succ_le_succ (Nat.zero_le _)

lemma exists_eq_succ {n fuel : Nat} (h : n + 1 ≤ fuel) : ∃ fuel', fuel = fuel' + 1 ∧ n ≤ fuel' :=
  ⟨fuel - 1, by omega, by omega⟩

end NodeReader

open NodeReader NodeTable

mutual

/-- A value becomes a node behind those that there are. -/
theorem exists_gives_node (ctx : NodeContext) {s : NodeState} {ts : List Token} {fuel : Nat}
    {inBlock indentless : Bool} (t : Tree) (ht : t.IsPortable) (h : s.tokens = t.tokens ++ ts)
    (hfuel : t.tokens.length ≤ fuel) :
    ∃ nodes,
      Gives ctx (node fuel inBlock indentless) s s.nodes.size { s with tokens := ts, nodes } ∧
      s.nodes.Extends nodes ∧ nodes.HasValue s.nodes.size t.value := by
  obtain ⟨fuel, rfl, -⟩ := exists_eq_succ (Nat.le_trans (one_le_length_tokens t) hfuel)
  cases t with
  | word w =>
    obtain ⟨a, cs, hvalue, htext, ha⟩ := plainAtom_word ht
    rw [← htext] at ha
    rw [Tree.value, hvalue]
    exact ⟨_, gives_node_scalar true h, .scalar ha, .scalar ha⟩
  | number n =>
    obtain ⟨a, hvalue, ha⟩ := plainAtom_numeral n ht
    rw [Tree.value, hvalue]
    exact ⟨_, gives_node_scalar true h, .scalar ha, .scalar ha⟩
  | string pieces =>
    have ha := atomValue_text (Json.points pieces)
    exact ⟨_, gives_node_scalar false h, .scalar ha, .scalar ha⟩
  | emptyList space =>
    obtain ⟨fuel, rfl, -⟩ := exists_eq_succ (Nat.le_of_succ_le_succ hfuel)
    have hempty : Extends (s.nodes.push ⟨.seq, .sequence []⟩) _ := .refl
    obtain ⟨hextends, hvalue⟩ := Extends.sequence hempty hasItems_nil
    exact ⟨_, gives_node_sequence h (gives_flowItems_end rfl), hextends, hvalue⟩
  | list before items =>
    let inside : NodeState :=
      { s with
        tokens := items.tokens ++ ts
        nodes := s.nodes.push ⟨.seq, .sequence []⟩
        unfinished := s.nodes.size :: s.unfinished }
    have hinside : inside.tokens = comma true ++ (items.tokens ++ ts) := rfl
    obtain ⟨ids, nodes, hgives, hextends, hitems⟩ :=
      exists_gives_flowItems ctx items ht.2 hinside (Nat.le_of_succ_le_succ hfuel)
    rw [show inside.nodes.size = s.nodes.size + 1 from Array.size_push _] at hitems
    obtain ⟨hextends', hvalue⟩ := Extends.sequence hextends hitems
    exact ⟨_, gives_node_sequence h hgives, hextends', hvalue⟩
  | emptyMap space =>
    obtain ⟨fuel, rfl, -⟩ := exists_eq_succ (Nat.le_of_succ_le_succ hfuel)
    have hempty : Extends (s.nodes.push ⟨.map, .mapping []⟩) _ := .refl
    obtain ⟨hextends, hvalue⟩ := Extends.mapping hempty hasEntries_nil
    exact ⟨_, gives_node_mapping h (gives_flowPairs_end rfl), hextends, hvalue⟩
  | map before pairs =>
    let inside : NodeState :=
      { s with
        tokens := pairs.tokens ++ ts
        nodes := s.nodes.push ⟨.map, .mapping []⟩
        unfinished := s.nodes.size :: s.unfinished }
    have hinside : inside.tokens = comma true ++ (pairs.tokens ++ ts) := rfl
    obtain ⟨ids, nodes, hgives, hextends, hpairs⟩ :=
      exists_gives_flowPairs ctx pairs ht.2 hinside (Nat.le_of_succ_le_succ hfuel)
    rw [show inside.nodes.size = s.nodes.size + 1 from Array.size_push _] at hpairs
    obtain ⟨hextends', hvalue⟩ := Extends.mapping hextends hpairs
    exact ⟨_, gives_node_mapping h hgives, hextends', hvalue⟩

/-- Items become nodes behind those that there are. -/
theorem exists_gives_flowItems (ctx : NodeContext) {s : NodeState} {ts : List Token} {fuel : Nat}
    {first : Bool} (items : Items) (hitems : items.IsPortable)
    (h : s.tokens = comma first ++ (items.tokens ++ ts)) (hfuel : items.tokens.length ≤ fuel) :
    ∃ ids nodes, Gives ctx (flowItems fuel first) s ids { s with tokens := ts, nodes } ∧
      s.nodes.Extends nodes ∧ nodes.HasItems s.nodes.size ids items.values := by
  cases items with
  | last item after =>
    have hlength : item.tokens.length + 1 ≤ fuel := by
      rwa [Items.tokens, List.length_append] at hfuel
    obtain ⟨fuel, rfl, hitem⟩ := exists_eq_succ hlength
    obtain ⟨fuel, rfl, -⟩ := exists_eq_succ (Nat.le_trans (one_le_length_tokens item) hitem)
    let inside : NodeState := { s with tokens := item.tokens ++ .flowSequenceEnd :: ts }
    obtain ⟨nodes, hgives, hextends, hvalue⟩ :=
      exists_gives_node ctx (s := inside) item hitems.1 rfl hitem
    refine ⟨_, nodes, gives_flowItems_item ?_ (beginNode_tree item _) hgives
      (gives_flowItems_end rfl), hextends, .cons hvalue .refl hasItems_nil⟩
    rw [h, Items.tokens, List.append_assoc]
    rfl
  | more item after before rest =>
    obtain ⟨hportable, -, -, hrest⟩ := hitems
    rw [Items.tokens, List.length_append, List.length_cons] at hfuel
    obtain ⟨fuel, rfl, hlength⟩ := exists_eq_succ hfuel
    have hitem : item.tokens.length ≤ fuel := Nat.le_trans (Nat.le_add_right _ _) hlength
    have hitems : rest.tokens.length ≤ fuel := Nat.le_trans (Nat.le_add_left _ _) hlength
    let inside : NodeState :=
      { s with tokens := item.tokens ++ .flowEntry :: (rest.tokens ++ ts) }
    obtain ⟨nodes, hgives, hextends, hvalue⟩ :=
      exists_gives_node ctx (s := inside) item hportable rfl hitem
    let behind : NodeState := { s with tokens := .flowEntry :: (rest.tokens ++ ts), nodes }
    have hbehind : behind.tokens = comma false ++ (rest.tokens ++ ts) := rfl
    obtain ⟨ids, nodes', hgives', hextends', hids⟩ :=
      exists_gives_flowItems ctx rest hrest hbehind hitems
    refine ⟨_, nodes', gives_flowItems_item ?_ (beginNode_tree item _) hgives hgives',
      hextends.trans hextends', .cons hvalue hextends'.kept hids⟩
    rw [h, Items.tokens, List.append_assoc]
    rfl

/-- Entries become nodes behind those that there are. -/
theorem exists_gives_flowPairs (ctx : NodeContext) {s : NodeState} {ts : List Token} {fuel : Nat}
    {first : Bool} (pairs : Pairs) (hpairs : pairs.IsPortable)
    (h : s.tokens = comma first ++ (pairs.tokens ++ ts)) (hfuel : pairs.tokens.length ≤ fuel) :
    ∃ ids nodes, Gives ctx (flowPairs fuel first) s ids { s with tokens := ts, nodes } ∧
      s.nodes.Extends nodes ∧ nodes.HasEntries s.nodes.size ids pairs.values := by
  cases pairs with
  | last label value after =>
    obtain ⟨-, hportable, -⟩ := hpairs
    let key := Json.points label.key
    have htokens : (Pairs.last label value after).tokens ++ ts =
        entryTokens key (value.tokens ++ .flowMappingEnd :: ts) := by
      simp [Pairs.tokens, entryTokens, key]
    simp only [Pairs.tokens, List.length_append, List.length_cons, List.length_nil] at hfuel
    obtain ⟨fuel, rfl⟩ : ∃ fuel', fuel = fuel' + 3 := ⟨fuel - 3, by omega⟩
    have hlength : value.tokens.length ≤ fuel := by omega
    let inside : NodeState :=
      { s with
        tokens := value.tokens ++ .flowMappingEnd :: ts
        nodes := s.nodes.push ⟨.str, .scalar key⟩ }
    obtain ⟨nodes, hgives, hextends, hvalue⟩ :=
      exists_gives_node ctx (s := inside) value hportable rfl hlength
    rw [show inside.nodes.size = s.nodes.size + 1 from Array.size_push _] at hgives hvalue
    have hkey := hextends.kept _ _ (Nat.zero_le _) Array.getElem?_push_size
    exact ⟨_, nodes, gives_flowPairs_pair (h.trans (congrArg _ htokens)) (beginNode_tree value _)
      hgives (gives_flowPairs_end rfl), (Extends.scalar (atomValue_text key)).trans hextends,
      .cons hkey hvalue .refl hasEntries_nil⟩
  | more label value after before rest =>
    obtain ⟨-, hportable, -, -, hrest⟩ := hpairs
    let key := Json.points label.key
    have htokens : (Pairs.more label value after before rest).tokens ++ ts =
        entryTokens key (value.tokens ++ .flowEntry :: (rest.tokens ++ ts)) := by
      simp [Pairs.tokens, entryTokens, key]
    simp only [Pairs.tokens, List.length_append, List.length_cons, List.length_nil] at hfuel
    obtain ⟨fuel, rfl⟩ : ∃ fuel', fuel = fuel' + 3 := ⟨fuel - 3, by omega⟩
    have hlength : value.tokens.length ≤ fuel := by omega
    have hlengths : rest.tokens.length ≤ fuel + 2 := by omega
    let inside : NodeState :=
      { s with
        tokens := value.tokens ++ .flowEntry :: (rest.tokens ++ ts)
        nodes := s.nodes.push ⟨.str, .scalar key⟩ }
    obtain ⟨nodes, hgives, hextends, hvalue⟩ :=
      exists_gives_node ctx (s := inside) value hportable rfl hlength
    rw [show inside.nodes.size = s.nodes.size + 1 from Array.size_push _] at hgives hvalue
    let behind : NodeState := { s with tokens := .flowEntry :: (rest.tokens ++ ts), nodes }
    have hbehind : behind.tokens = comma false ++ (rest.tokens ++ ts) := rfl
    obtain ⟨ids, nodes', hgives', hextends', hids⟩ :=
      exists_gives_flowPairs ctx rest hrest hbehind hlengths
    have hkey := hextends.kept _ _ (Nat.zero_le _) Array.getElem?_push_size
    exact ⟨_, nodes', gives_flowPairs_pair (h.trans (congrArg _ htokens)) (beginNode_tree value _)
      hgives hgives', ((Extends.scalar (atomValue_text key)).trans hextends).trans hextends',
      .cons hkey hvalue hextends'.kept hids⟩

end

/-! ## Documents -/

namespace NodeReader

variable {ctx : NodeContext} {s s' : NodeState} {ts : List Token}

lemma gives_finish (most : Nat) (h : s.tokens = [.streamEnd]) : Gives ctx (finish most) s ⟨⟩ s := by
  have hskip : Gives ctx (skipEnds most) s ⟨⟩ s := by
    cases most with
    | zero => exact gives_pure _
    | succ most =>
      unfold skipEnds
      exact (gives_peek h).bind (gives_pure _)
  unfold finish
  exact hskip.bind ((gives_peek h).bind (gives_pure _))

/-- A document without a mark for its beginning is its node. -/
lemma gives_document? {most : Nat} {root : NodeId} (h : s.tokens = ts) (hts : BeginNode ts)
    (hnode : Gives ctx (node (4 * most + 4) true false) s root s')
    (hend : s'.tokens = [.streamEnd]) : Gives ctx (document? most) s (some root) s' := by
  obtain ⟨t, ts, rfl, ht⟩ := hts
  have hrest : Gives ctx (do
      let root ← node (4 * most + 4) true false
      finish most
      return some root) s (some root) s' :=
    hnode.bind ((gives_finish most hend).bind (gives_pure _))
  unfold document?
  refine (gives_peek h).bind ?_
  cases t <;> first | exact hrest | cases ht

end NodeReader

/-- The tokens of a portable tree describe a plain table, whose first node has the value of the
tree. -/
theorem ofTokens?_of_isPortable {t : Tree} (ht : t.IsPortable) :
    ∃ nodes, Composition.ofTokens? (t.tokens ++ [.streamEnd]) none = .ok (some ⟨nodes, 0, false⟩) ∧
      nodes.IsPlain ∧ nodes.HasValue 0 t.value := by
  set tokens := t.tokens ++ [.streamEnd] with htokens
  have hfuel : t.tokens.length ≤ 4 * tokens.length + 4 := by
    rw [htokens, List.length_append]
    omega
  let ctx : NodeContext := { stop := invalid }
  obtain ⟨nodes, hgives, hextends, hvalue⟩ :=
    exists_gives_node ctx (s := { tokens }) t ht rfl hfuel
  have hdocument := gives_document? rfl (beginNode_tree t _) hgives rfl
  refine ⟨nodes, ?_, hextends.plain (by rintro _ _ ⟨⟩), hvalue⟩
  have hrun : ((document? tokens.length).run { stop := none.getD invalid }).run { tokens } =
      .ok (some 0, { tokens := [.streamEnd], nodes }) := hdocument
  unfold Composition.ofTokens?
  dsimp only
  rw [hrun]
  rfl

end StockFlow.Yaml
