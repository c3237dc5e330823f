import StockFlow.Proofs.Yaml.Data
/-!
# Plain tables that grow

Reading a value adds nodes to a table and keeps the ones that it has (`NodeTable.Extends`). A value
that has been read stays the value of its node in every table that comes out of this one
(`NodeTable.HasValue`). A collection is added in front of its parts and gets them when they have been
added (`NodeTable.Extends.sequence`, `NodeTable.Extends.mapping`).
-/

namespace StockFlow.Yaml

namespace NodeTable

variable {nodes nodes' nodes'' : NodeTable} {id lo : NodeId} {node : Node} {tag : Tag}
  {text : Text} {a : Atom} {d : Datum}

/-- Two tables have the same nodes from a number on, as far as the first one goes. -/
def Agrees (lo : NodeId) (nodes nodes' : NodeTable) : Prop :=
  ∀ i node, lo ≤ i → nodes[i]? = some node → nodes'[i]? = some node

/-- A node has a value in a table, whatever stands in front of the node, and in all tables that have
the nodes of this one. -/
structure HasValue (nodes : NodeTable) (id : NodeId) (d : Datum) : Prop where
  lt_size : id < nodes.size
  value_eq : ∀ nodes' v, Agrees id nodes nodes' → nodes'.IsValuation v → v id = d

/-- The items of a list stand behind a number and have values. -/
structure HasItems (nodes : NodeTable) (lo : NodeId) (items : List NodeId) (values : List Datum) :
    Prop where
  behind : ∀ i ∈ items, lo ≤ i ∧ i < nodes.size
  values_eq : ∀ nodes' v, Agrees lo nodes nodes' → nodes'.IsValuation v → items.map v = values

/-- The keys of a mapping stand behind a number and are texts, and the values stand there too. -/
structure HasEntries (nodes : NodeTable) (lo : NodeId) (pairs : List (NodeId × NodeId))
    (entries : List (Atom × Datum)) : Prop where
  keyed : ∀ p ∈ pairs, lo ≤ p.1 ∧ ∃ key, nodes[p.1]? = some ⟨.str, .scalar key⟩
  behind : ∀ p ∈ pairs, lo ≤ p.2 ∧ p.2 < nodes.size
  entries_eq : ∀ nodes' v, Agrees lo nodes nodes' → nodes'.IsValuation v →
    pairs.map (fun p => ((nodes'.keyOf p.1).atom, v p.2)) = entries

/-- A table has the nodes of another one and is plain if that is. -/
structure Extends (nodes nodes' : NodeTable) : Prop where
  kept : Agrees 0 nodes nodes'
  plain : nodes.IsPlain → nodes'.IsPlain

lemma Agrees.trans (h : Agrees lo nodes nodes') (h' : Agrees lo nodes' nodes'') :
    Agrees lo nodes nodes'' :=
  fun i node hi hnode => h' i node hi (h i node hi hnode)

lemma Agrees.mono (h : Agrees lo nodes nodes') (hle : lo ≤ id) : Agrees id nodes nodes' :=
  fun i node hi => h i node (Nat.le_trans hle hi)

lemma Agrees.size_le (h : Agrees 0 nodes nodes') : nodes.size ≤ nodes'.size := by
  refine Nat.not_lt.mp fun hlt => ?_
  have hnode := h _ _ (Nat.zero_le _) (Array.getElem?_eq_getElem hlt)
  rw [Array.getElem?_eq_none (Nat.le_refl _)] at hnode
  cases hnode

lemma Agrees.refl : Agrees lo nodes nodes := fun _ _ _ => id

lemma Extends.refl : Extends nodes nodes := ⟨.refl, id⟩

lemma Extends.trans (h : Extends nodes nodes') (h' : Extends nodes' nodes'') :
    Extends nodes nodes'' :=
  ⟨h.kept.trans h'.kept, fun hplain => h'.plain (h.plain hplain)⟩

lemma HasValue.mono (h : nodes.HasValue id d) (hagrees : Agrees id nodes nodes') :
    nodes'.HasValue id d := by
  obtain ⟨hlt, -⟩ := Array.getElem?_eq_some_iff.mp
    (hagrees id _ (Nat.le_refl id) (Array.getElem?_eq_getElem h.lt_size))
  exact ⟨hlt, fun nodes'' v h'' hv => h.value_eq nodes'' v (hagrees.trans h'') hv⟩

lemma agrees_push (node : Node) : Agrees 0 nodes (nodes.push node) := by
  intro i node' _ hnode'
  obtain ⟨hi, -⟩ := Array.getElem?_eq_some_iff.mp hnode'
  rw [Array.getElem?_push_lt hi, ← hnode', Array.getElem?_eq_getElem hi]

/-- A node fits a table that has more nodes. -/
lemma Fits.mono (h : nodes.Fits id node) (hsize : nodes.size ≤ nodes'.size)
    (hkeys : ∀ (i : NodeId) (key : Text), nodes[i]? = some ⟨.str, .scalar key⟩ →
      nodes'[i]? = some ⟨.str, .scalar key⟩) : nodes'.Fits id node := by
  cases h with
  | scalar value => exact .scalar value
  | sequence behind =>
    exact .sequence fun i hi => ⟨(behind i hi).1, Nat.lt_of_lt_of_le (behind i hi).2 hsize⟩
  | mapping keyed behind =>
    refine .mapping (fun p hp => ⟨(keyed p hp).1, ?_⟩)
      fun p hp => ⟨(behind p hp).1, Nat.lt_of_lt_of_le (behind p hp).2 hsize⟩
    obtain ⟨-, key, hkey⟩ := keyed p hp
    exact ⟨key, hkeys _ _ hkey⟩

/-- A node that fits is added. -/
lemma Extends.push (h : nodes.Fits nodes.size node) : Extends nodes (nodes.push node) := by
  have hsize : nodes.size ≤ (nodes.push node).size := (agrees_push node).size_le
  have hkeys : ∀ (i : NodeId) (key : Text), nodes[i]? = some ⟨.str, .scalar key⟩ →
      (nodes.push node)[i]? = some ⟨.str, .scalar key⟩ :=
    fun i key => agrees_push node i _ (Nat.zero_le i)
  refine ⟨agrees_push node, fun hplain i node' hnode' => ?_⟩
  rw [Array.getElem?_push] at hnode'
  split at hnode'
  · next heq =>
    cases hnode'
    subst heq
    exact h.mono hsize hkeys
  · exact (hplain i node' hnode').mono hsize hkeys

/-- A scalar that has a value is added. -/
lemma Extends.scalar (ha : atomValue tag text = .ok a) :
    Extends nodes (nodes.push ⟨tag, .scalar text⟩) := .push (.scalar ha)

lemma keyOf_atom (h : nodes[id]? = some ⟨tag, .scalar text⟩) (ha : atomValue tag text = .ok a) :
    (nodes.keyOf id).atom = a := by
  obtain ⟨-, origin, hatom⟩ := exists_atomOf h ha
  rw [keyOf, tagOf_eq h, hatom]

/-- The value of a scalar that is added. -/
lemma HasValue.scalar (ha : atomValue tag text = .ok a) :
    HasValue (nodes.push ⟨tag, .scalar text⟩) nodes.size (.atom a) := by
  refine ⟨by simp, fun nodes' v hagrees hv => ?_⟩
  have hnode := hagrees nodes.size _ (Nat.le_refl _) Array.getElem?_push_size
  obtain ⟨hlt, -⟩ := Array.getElem?_eq_some_iff.mp hnode
  rw [hv _ hlt, valueFrom, bodyOf_eq hnode]
  exact congrArg Datum.atom (keyOf_atom hnode ha)

/-! ## Collections -/

variable {body body' : NodeBody}

lemma agrees_setBody (h : id < lo) : Agrees lo nodes (nodes.setBody id body) := by
  intro i node hi hnode
  rwa [getElem?_setBody_of_ne (Nat.ne_of_gt (Nat.lt_of_lt_of_le h hi))]

/-- A collection that has been added gets its parts, which have been added behind it. -/
lemma Extends.setBody (h : Extends (nodes.push ⟨tag, body⟩) nodes')
    (hfits : Fits nodes nodes.size ⟨tag, body⟩) (htag : tag ≠ .str)
    (hfits' : nodes'.Fits nodes.size ⟨tag, body'⟩) :
    Extends nodes (nodes'.setBody nodes.size body') := by
  have hnode : nodes'[nodes.size]? = some ⟨tag, body⟩ :=
    h.kept _ _ (Nat.zero_le _) Array.getElem?_push_size
  have hsize : nodes'.size ≤ (nodes'.setBody nodes.size body').size := by simp [NodeTable.setBody]
  have hkeys : ∀ (i : NodeId) (key : Text), nodes'[i]? = some ⟨.str, .scalar key⟩ →
      (nodes'.setBody nodes.size body')[i]? = some ⟨.str, .scalar key⟩ := by
    intro i key hkey
    rw [getElem?_setBody_of_ne, hkey]
    rintro rfl
    rw [hnode] at hkey
    cases hkey
    exact htag rfl
  refine ⟨fun i node hi hi' => ?_, fun hplain i node hi => ?_⟩
  · obtain ⟨hlt, -⟩ := Array.getElem?_eq_some_iff.mp hi'
    rw [getElem?_setBody_of_ne (Nat.ne_of_lt hlt)]
    exact h.kept i node hi (agrees_push _ i node hi hi')
  · by_cases heq : i = nodes.size
    · subst heq
      rw [getElem?_setBody_self hnode] at hi
      cases hi
      exact hfits'.mono hsize hkeys
    · rw [getElem?_setBody_of_ne heq] at hi
      exact (h.plain ((Extends.push hfits).plain hplain) i node hi).mono hsize hkeys

/-- The node of a collection in the tables that come out of the one where it has got its parts. -/
lemma exists_getElem?_of_agrees (h : Extends (nodes.push ⟨tag, body⟩) nodes')
    (hagrees : Agrees nodes.size (nodes'.setBody nodes.size body') nodes'') :
    nodes''[nodes.size]? = some ⟨tag, body'⟩ ∧ Agrees (nodes.size + 1) nodes' nodes'' := by
  have hnode : nodes'[nodes.size]? = some ⟨tag, body⟩ :=
    h.kept _ _ (Nat.zero_le _) Array.getElem?_push_size
  refine ⟨hagrees _ _ (Nat.le_refl _) (getElem?_setBody_self hnode), ?_⟩
  exact (agrees_setBody (Nat.lt_succ_self _)).trans (hagrees.mono (Nat.le_succ _))

lemma setBody_lt_size (h : Extends (nodes.push ⟨tag, body⟩) nodes') :
    nodes.size < (nodes'.setBody nodes.size body').size := by
  have hsize := h.kept.size_le
  rw [Array.size_push] at hsize
  rwa [setBody, Array.size_modify]

/-- A list with items that have been added behind it. -/
lemma Extends.sequence {items : List NodeId} {values : List Datum}
    (h : Extends (nodes.push ⟨.seq, .sequence []⟩) nodes')
    (hitems : nodes'.HasItems (nodes.size + 1) items values) :
    Extends nodes (nodes'.setBody nodes.size (.sequence items)) ∧
      (nodes'.setBody nodes.size (.sequence items)).HasValue nodes.size (.list values) := by
  refine ⟨h.setBody (.sequence (by simp)) (by decide) (.sequence hitems.behind),
    setBody_lt_size h, fun nodes'' v hagrees hv => ?_⟩
  obtain ⟨hnode, hagrees'⟩ := exists_getElem?_of_agrees h hagrees
  obtain ⟨hroot, -⟩ := Array.getElem?_eq_some_iff.mp hnode
  rw [hv _ hroot, valueFrom, bodyOf_eq hnode]
  exact congrArg Datum.list (hitems.values_eq nodes'' v hagrees' hv)

/-- A mapping with entries that have been added behind it. -/
lemma Extends.mapping {pairs : List (NodeId × NodeId)} {entries : List (Atom × Datum)}
    (h : Extends (nodes.push ⟨.map, .mapping []⟩) nodes')
    (hpairs : nodes'.HasEntries (nodes.size + 1) pairs entries) :
    Extends nodes (nodes'.setBody nodes.size (.mapping pairs)) ∧
      (nodes'.setBody nodes.size (.mapping pairs)).HasValue nodes.size
        (.map (Entries.ofPairs entries)) := by
  refine ⟨h.setBody (.mapping (by simp) (by simp)) (by decide)
    (.mapping hpairs.keyed hpairs.behind), setBody_lt_size h, fun nodes'' v hagrees hv => ?_⟩
  obtain ⟨hnode, hagrees'⟩ := exists_getElem?_of_agrees h hagrees
  obtain ⟨hroot, -⟩ := Array.getElem?_eq_some_iff.mp hnode
  rw [hv _ hroot, valueFrom, bodyOf_eq hnode]
  exact congrArg (fun entries => Datum.map (Entries.ofPairs entries))
    (hpairs.entries_eq nodes'' v hagrees' hv)

lemma hasItems_nil : nodes.HasItems lo [] [] := ⟨by simp, fun _ _ _ _ => rfl⟩

lemma hasEntries_nil : nodes.HasEntries lo [] [] := ⟨by simp, by simp, fun _ _ _ _ => rfl⟩

/-- An item stands in front of others that have been added after it. -/
lemma HasItems.cons {items : List NodeId} {values : List Datum} (hid : nodes.HasValue id d)
    (hkept : Agrees 0 nodes nodes') (h : nodes'.HasItems nodes.size items values) :
    nodes'.HasItems id (id :: items) (d :: values) := by
  have hvalue := hid.mono (hkept.mono (Nat.zero_le id))
  have hle : id ≤ nodes.size := Nat.le_of_lt hid.lt_size
  refine ⟨List.forall_mem_cons.mpr ⟨⟨Nat.le_refl id, hvalue.lt_size⟩, fun i hi => ?_⟩,
    fun nodes'' v h' hv => ?_⟩
  · exact ⟨Nat.le_trans hle (h.behind i hi).1, (h.behind i hi).2⟩
  · rw [List.map_cons, hvalue.value_eq nodes'' v h' hv, h.values_eq nodes'' v (h'.mono hle) hv]

/-- The key and the value of an entry stand in front of others that have been added after them. -/
lemma HasEntries.cons {key : Text} {pairs : List (NodeId × NodeId)}
    {entries : List (Atom × Datum)} (hkey : nodes[id]? = some ⟨.str, .scalar key⟩)
    (hid : nodes.HasValue (id + 1) d) (hkept : Agrees 0 nodes nodes')
    (h : nodes'.HasEntries nodes.size pairs entries) :
    nodes'.HasEntries id ((id, id + 1) :: pairs) ((.text key, d) :: entries) := by
  have hkey' := hkept _ _ (Nat.zero_le _) hkey
  have hvalue := hid.mono (hkept.mono (Nat.zero_le _))
  have hle : id ≤ nodes.size := Nat.le_of_lt (Nat.lt_of_succ_lt hid.lt_size)
  refine ⟨List.forall_mem_cons.mpr ⟨⟨Nat.le_refl id, key, hkey'⟩, fun p hp => ?_⟩,
    List.forall_mem_cons.mpr ⟨⟨Nat.le_succ id, hvalue.lt_size⟩, fun p hp => ?_⟩,
    fun nodes'' v h' hv => ?_⟩
  · exact ⟨Nat.le_trans hle (h.keyed p hp).1, (h.keyed p hp).2⟩
  · exact ⟨Nat.le_trans hle (h.behind p hp).1, (h.behind p hp).2⟩
  · rw [List.map_cons, keyOf_text (h' _ _ (Nat.le_refl id) hkey'),
      hvalue.value_eq nodes'' v (h'.mono (Nat.le_succ id)) hv,
      h.entries_eq nodes'' v (h'.mono hle) hv]

end NodeTable

end StockFlow.Yaml
