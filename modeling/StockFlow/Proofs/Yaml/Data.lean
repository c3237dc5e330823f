import StockFlow.Proofs.Yaml.Tables
/-!
# Data of plain tables

A document whose nodes form a plain table has the value that its root has in any valuation of the
nodes (`value_of_isPlain`). Values are noted when they are found, and whatever has been noted is the
value of the valuation (`Content.Known`).
-/

namespace StockFlow.Yaml

namespace NodeTable

variable {nodes : NodeTable} {v w : NodeId → Datum}

/-- The value of a node, given the values of the nodes. -/
def valueFrom (nodes : NodeTable) (v : NodeId → Datum) (id : NodeId) : Datum :=
  match nodes.bodyOf id with
  | .scalar _ => .atom (nodes.keyOf id).atom
  | .sequence items => .list (items.map v)
  | .mapping pairs =>
    .map (Entries.ofPairs (pairs.map fun p => ((nodes.keyOf p.1).atom, v p.2)))

/-- Values of the nodes that fit together. -/
def IsValuation (nodes : NodeTable) (v : NodeId → Datum) : Prop :=
  ∀ id < nodes.size, v id = nodes.valueFrom v id

/-- A text is the key that it shows. -/
lemma keyOf_text {id : NodeId} {key : Text} (h : nodes[id]? = some ⟨.str, .scalar key⟩) :
    (nodes.keyOf id).atom = .text key := by
  obtain ⟨-, origin, hatom⟩ := exists_atomOf h (atomValue_text key)
  rw [keyOf, tagOf_eq h, hatom]

/-- The parts of a value stand behind it. -/
lemma IsPlain.lt_of_mem_parts (hplain : nodes.IsPlain) {id i : NodeId} (hid : id < nodes.size)
    (hi : i ∈ (nodes.plan id).parts) : id < i := by
  obtain ⟨node, hnode⟩ : ∃ node, nodes[id]? = some node := ⟨_, Array.getElem?_eq_getElem hid⟩
  rw [plan, bodyOf_eq hnode] at hi
  cases hplain id node hnode with
  | scalar value => cases hi
  | sequence behind => exact (behind i hi).1
  | mapping keyed behind =>
    rcases mem_of_mem_setKeys hi with hi | ⟨p, hp, rfl⟩
    · cases hi
    · exact (behind p hp).1

/-- The value of a node depends on those behind it only. -/
lemma IsPlain.valueFrom_congr (hplain : nodes.IsPlain) {id : NodeId} (hid : id < nodes.size)
    (h : ∀ i, id < i → v i = w i) : nodes.valueFrom v id = nodes.valueFrom w id := by
  obtain ⟨node, hnode⟩ : ∃ node, nodes[id]? = some node := ⟨_, Array.getElem?_eq_getElem hid⟩
  rw [valueFrom, valueFrom, bodyOf_eq hnode]
  cases hplain id node hnode with
  | scalar value => rfl
  | sequence behind =>
    exact congrArg Datum.list (List.map_congr_left fun i hi => h i (behind i hi).1)
  | mapping keyed behind =>
    refine congrArg (fun pairs => Datum.map (Entries.ofPairs pairs)) ?_
    exact List.map_congr_left fun p hp => congrArg _ (h p.2 (behind p hp).1)

/-- The nodes of a plain table have values, which are found from the last one on. -/
lemma IsPlain.exists_isValuation (hplain : nodes.IsPlain) : ∃ v, nodes.IsValuation v := by
  have hfrom : ∀ n, ∃ v : NodeId → Datum, ∀ id < nodes.size, nodes.size ≤ id + n →
      v id = nodes.valueFrom v id := by
    intro n
    induction n with
    | zero => exact ⟨fun _ => .null, fun id hid hn => absurd hid (Nat.not_lt.mpr hn)⟩
    | succ n ih =>
      obtain ⟨v, hv⟩ := ih
      refine ⟨fun i => if nodes.size = i + (n + 1) then nodes.valueFrom v i else v i, ?_⟩
      intro id hid hn
      have hbehind : ∀ i, id < i →
          v i = if nodes.size = i + (n + 1) then nodes.valueFrom v i else v i := by
        intro i hi
        rw [if_neg (Nat.ne_of_lt (Nat.lt_of_le_of_lt hn (Nat.add_lt_add_right hi _)))]
      rw [← hplain.valueFrom_congr hid hbehind]
      dsimp only
      split
      · rfl
      · next hne => exact hv id hid (Nat.le_of_lt_succ (Nat.lt_of_le_of_ne hn hne))
  obtain ⟨v, hv⟩ := hfrom nodes.size
  exact ⟨v, fun id hid => hv id hid (Nat.le_add_left _ _)⟩

end NodeTable

section

variable {σ α β : Type}

lemma runState_get_bind (f : σ → StateM σ β) (s : σ) : (get >>= f).run s = (f s).run s := rfl

lemma runState_bind_eq {x : StateM σ α} {f : α → StateM σ β} {s s' : σ} {a : α}
    (h : x.run s = (a, s')) : (x >>= f).run s = (f a).run s' := by
  rw [StateT.run_bind, h]
  rfl

/-- Steps that keep a property of the state give their results one after the other. -/
lemma exists_mapM_run {P : σ → Prop} {f : α → StateM σ β} {g : α → β} {xs : List α}
    (h : ∀ x ∈ xs, ∀ s, P s → ∃ s', (f x).run s = (g x, s') ∧ P s') {s : σ} (hs : P s) :
    ∃ s', (xs.mapM f).run s = (xs.map g, s') ∧ P s' := by
  induction xs generalizing s with
  | nil => exact ⟨s, rfl, hs⟩
  | cons x xs ih =>
    obtain ⟨hx, hxs⟩ := List.forall_mem_cons.mp h
    obtain ⟨s₁, hrun₁, hs₁⟩ := hx s hs
    obtain ⟨s₂, hrun₂, hs₂⟩ := ih hxs hs₁
    refine ⟨s₂, ?_, hs₂⟩
    rw [List.mapM_cons, runState_bind_eq hrun₁, runState_bind_eq hrun₂]
    rfl

end

namespace Content

variable {nodes : NodeTable} {v : NodeId → Datum} {contents : Array (Option Content)}

/-- Only values of nodes have been noted. -/
def Known (v : NodeId → Datum) (known : Array (Option Datum)) : Prop :=
  ∀ i d, known[i]?.join = some d → d = v i

/-- A text is the same key as another one if it is the same text. -/
lemma sameKey_eq {k key : Key} {text : Text} (hkey : key.atom = .text text) :
    k.same key = k.atom.sameKey key.atom := by
  unfold Key.same
  rw [hkey]
  split
  · next heq => cases heq
  · rfl

/-- Setting a value under a text, with the values put in. -/
lemma map_setKey {entries : List (Key × NodeId)} {key : Key} {text : Text} {value : NodeId}
    (hkey : key.atom = .text text) :
    (setKey entries key value).map (fun entry => (entry.1.atom, v entry.2)) =
      Entries.insert (entries.map fun entry => (entry.1.atom, v entry.2)) key.atom (v value) := by
  induction entries with
  | nil => rfl
  | cons entry entries ih =>
    rw [setKey, List.map_cons, Entries.insert, sameKey_eq hkey]
    split
    · rfl
    · rw [List.map_cons, ih]

/-- The entries of a mapping, with the values put in. -/
lemma map_setKeys {entries : List (Key × NodeId)} {pairs : List (NodeId × NodeId)}
    (hkeys : ∀ p ∈ pairs, ∃ text, (nodes.keyOf p.1).atom = .text text) :
    (nodes.setKeys entries pairs).map (fun entry => (entry.1.atom, v entry.2)) =
      (pairs.map fun p => ((nodes.keyOf p.1).atom, v p.2)).foldl
        (fun entries pair => Entries.insert entries pair.1 pair.2)
        (entries.map fun entry => (entry.1.atom, v entry.2)) := by
  induction pairs generalizing entries with
  | nil => rfl
  | cons p pairs ih =>
    obtain ⟨⟨text, hp⟩, hpairs⟩ := List.forall_mem_cons.mp hkeys
    rw [List.map_cons, List.foldl_cons, ← map_setKey hp, ← ih hpairs]
    rfl

lemma datumOf_run_known {depth : Nat} {id : NodeId} {known : Array (Option Datum)} {d : Datum}
    (h : known[id]?.join = some d) :
    (datumOf contents [] (depth + 1) id).run known = (d, known) := by
  unfold datumOf
  rw [runState_get_bind, h]
  rfl

lemma datumOf_run_unknown {depth : Nat} {id : NodeId} {known known' : Array (Option Datum)}
    {c : Content} {d : Datum} (h : known[id]?.join = none) (hc : contents[id]?.join = some c)
    (hrun : (c.toDatum (datumOf contents [] depth)).run known = (d, known')) :
    (datumOf contents [] (depth + 1) id).run known = (d, known'.setIfInBounds id (some d)) := by
  unfold datumOf
  rw [runState_get_bind, h, hc]
  exact (runState_bind_eq hrun).trans rfl

/-- The value of a node, given those of its parts. -/
lemma exists_toDatum (hplain : nodes.IsPlain) (hv : nodes.IsValuation v) {id : NodeId}
    (hid : id < nodes.size) {part : NodeId → StateM (Array (Option Datum)) Datum}
    (hpart : ∀ i ∈ (nodes.plan id).parts, ∀ known, Known v known →
      ∃ known', (part i).run known = (v i, known') ∧ Known v known')
    {known : Array (Option Datum)} (hknown : Known v known) :
    ∃ known', ((nodes.plan id).toDatum part).run known = (v id, known') ∧ Known v known' := by
  obtain ⟨node, hnode⟩ : ∃ node, nodes[id]? = some node := ⟨_, Array.getElem?_eq_getElem hid⟩
  have hbody := NodeTable.bodyOf_eq hnode
  rw [hv id hid, NodeTable.valueFrom]
  rw [NodeTable.plan] at hpart ⊢
  rw [hbody] at hpart ⊢
  cases hplain id node hnode with
  | scalar value => exact ⟨known, rfl, hknown⟩
  | @sequence items behind =>
    obtain ⟨known', hrun, hknown'⟩ := exists_mapM_run hpart hknown
    refine ⟨known', ?_, hknown'⟩
    exact (runState_bind_eq hrun).trans rfl
  | @mapping pairs keyed behind =>
    have hkeys : ∀ p ∈ pairs, ∃ text, (nodes.keyOf p.1).atom = .text text := by
      intro p hp
      obtain ⟨-, key, hkey⟩ := keyed p hp
      exact ⟨key, NodeTable.keyOf_text hkey⟩
    have hentry : ∀ entry ∈ nodes.setKeys [] pairs, ∀ known, Known v known →
        ∃ known', (do return (entry.1.atom, ← part entry.2) : StateM _ _).run known =
          ((entry.1.atom, v entry.2), known') ∧ Known v known' := by
      intro entry hentry known hknown
      obtain ⟨known', hrun, hknown'⟩ := hpart entry.2 (List.mem_map_of_mem hentry) known hknown
      exact ⟨known', (runState_bind_eq hrun).trans rfl, hknown'⟩
    obtain ⟨known', hrun, hknown'⟩ := exists_mapM_run hentry hknown
    refine ⟨known', ?_, hknown'⟩
    refine (runState_bind_eq hrun).trans ?_
    rw [map_setKeys hkeys]
    rfl

/-- The value that a node is found to have. -/
lemma exists_datumOf (hplain : nodes.IsPlain) (hv : nodes.IsValuation v)
    (hfinal : IsFinal nodes contents) {depth : Nat} {id : NodeId}
    (hid : (contents[id]?.join).isSome = true) (hdepth : nodes.size < depth + id)
    {known : Array (Option Datum)} (hknown : Known v known) :
    ∃ known', (datumOf contents [] depth id).run known = (v id, known') ∧ Known v known' := by
  induction depth generalizing id known with
  | zero =>
    rw [Nat.zero_add] at hdepth
    exact absurd (hfinal.lt_size hid) (Nat.lt_asymm hdepth)
  | succ depth ih =>
    obtain ⟨c, hc⟩ := Option.isSome_iff_exists.mp hid
    have hsize := hfinal.lt_size hid
    cases hd : known[id]?.join with
    | some d => exact ⟨known, by rw [datumOf_run_known hd, hknown id d hd], hknown⟩
    | none =>
      obtain rfl := hfinal.plan id c hc
      have hpart : ∀ i ∈ (nodes.plan id).parts, ∀ known, Known v known →
          ∃ known', (datumOf contents [] depth i).run known = (v i, known') ∧ Known v known' := by
        intro i hi known hknown
        have hmet := hfinal.parts id _ hc i hi
        have hdepth' : nodes.size < depth + i := by
          have : Nat.succ id ≤ i := hplain.lt_of_mem_parts hsize hi
          omega
        exact ih hmet hdepth' hknown
      obtain ⟨known', hrun, hknown'⟩ := exists_toDatum hplain hv hsize hpart hknown
      refine ⟨_, datumOf_run_unknown hd hc hrun, ?_⟩
      intro i d hi
      rw [Array.getElem?_setIfInBounds] at hi
      split at hi
      · next heq =>
        split at hi
        · cases hi
          rw [heq]
        · cases hi
      · exact hknown' i d hi

end Content

/-- A document that is a plain table has the value of its root. -/
theorem value_of_isPlain {nodes : NodeTable} (hplain : nodes.IsPlain) {v : NodeId → Datum}
    (hv : nodes.IsValuation v) {root : NodeId} (hroot : root < nodes.size) :
    Composition.value ⟨nodes, root, false⟩ = .ok (v root) := by
  obtain ⟨contents, hcontents, hmet, hfinal⟩ := exists_contents hplain hroot false
  have hnone : Content.Known v (Array.replicate contents.size none) := by
    intro i d hi
    rw [Array.getElem?_replicate] at hi
    split at hi <;> cases hi
  have hdepth : nodes.size < (contents.size + 1) + root := by
    rw [hfinal.size]
    omega
  obtain ⟨known, hrun, -⟩ := Content.exists_datumOf hplain hv hfinal hmet hdepth hnone
  unfold Composition.value
  rw [hcontents]
  have hvalues : (do return ([], ← Content.datumOf contents [] (contents.size + 1) root) :
      StateM (Array (Option Datum)) (List Datum × Datum)).run (Array.replicate contents.size none) =
        (([], v root), known) := (runState_bind_eq hrun).trans rfl
  exact congrArg (fun result : (List Datum × Datum) × Array (Option Datum) =>
    Except.ok (if result.1.1.isEmpty then result.1.2 else result.1.2.close result.1.1)) hvalues

end StockFlow.Yaml
