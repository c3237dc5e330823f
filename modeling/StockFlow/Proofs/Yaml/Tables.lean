import Mathlib.Tactic.Lemma
import StockFlow.Yaml.Value
/-!
# Evaluating plain tables

A table of nodes is plain if it holds no aliases, no tags and no merge keys: its scalars have values,
the parts of a collection stand behind it, and the keys of a mapping are texts. The nodes of a plain
table get their values (`exists_contents`). One invariant carries the evaluation: what has been met has
its final value, or is a collection that waits (`Evaluation.Sound`). The collections that wait lie
further behind from turn to turn, which ends the turns.
-/

namespace StockFlow

namespace Yaml

/-- A computation may ask for the state. -/
lemma run_get_bind {σ β : Type} (f : σ → StateT σ (Except Failure) β) (s : σ) :
    (get >>= f).run s = (f s).run s := rfl

/-- A computation goes on with what a first step gives. -/
lemma run_bind_eq {σ α β : Type} {x : StateT σ (Except Failure) α}
    {f : α → StateT σ (Except Failure) β} {s s' : σ} {a : α} (h : x.run s = .ok (a, s')) :
    (x >>= f).run s = (f a).run s' := by
  rw [StateT.run_bind, h]
  rfl

namespace NodeTable

variable {nodes : NodeTable} {id : NodeId} {node : Node} {tag : Tag} {text : Text}

/-- What a node of a plain table is: a scalar with a value, or a collection whose parts stand behind
it and whose keys are texts. -/
inductive Fits (nodes : NodeTable) (id : NodeId) : Node → Prop where
  | scalar {tag : Tag} {text : Text} {a : Atom} (value : atomValue tag text = .ok a) :
    Fits nodes id ⟨tag, .scalar text⟩
  | sequence {items : List NodeId} (behind : ∀ i ∈ items, id < i ∧ i < nodes.size) :
    Fits nodes id ⟨.seq, .sequence items⟩
  | mapping {pairs : List (NodeId × NodeId)}
    (keyed : ∀ p ∈ pairs, id < p.1 ∧ ∃ key, nodes[p.1]? = some ⟨.str, .scalar key⟩)
    (behind : ∀ p ∈ pairs, id < p.2 ∧ p.2 < nodes.size) : Fits nodes id ⟨.map, .mapping pairs⟩

/-- A table without aliases, tags and merge keys. -/
def IsPlain (nodes : NodeTable) : Prop := ∀ id node, nodes[id]? = some node → nodes.Fits id node

lemma tagOf_eq (h : nodes[id]? = some node) : nodes.tagOf id = node.tag := by
  rw [tagOf, h]
  rfl

lemma bodyOf_eq (h : nodes[id]? = some node) : nodes.bodyOf id = node.body := by
  rw [bodyOf, h]
  rfl

lemma getElem?_setBody_of_ne {body : NodeBody} {i : NodeId} (h : i ≠ id) :
    (nodes.setBody id body)[i]? = nodes[i]? := by
  rw [setBody, Array.getElem?_modify, if_neg (Ne.symm h)]

lemma getElem?_setBody_self {body body' : NodeBody} (h : nodes[id]? = some ⟨tag, body⟩) :
    (nodes.setBody id body')[id]? = some ⟨tag, body'⟩ := by
  rw [setBody, Array.getElem?_modify, if_pos rfl, h]
  rfl

/-- A text stands for itself. -/
lemma atomValue_text (s : Text) : atomValue .str s = .ok (.text s) := by
  unfold atomValue
  split
  · next cs hcs => rw [charsValue, ← Text.eq_ofChars_of_chars? hcs]
  · rfl

/-- The atom of a scalar that has a value. -/
lemma exists_atomOf (h : nodes[id]? = some ⟨tag, .scalar text⟩) {a : Atom}
    (ha : atomValue tag text = .ok a) : tag.isCollection = false ∧
      ∃ origin, Evaluation.atomOf nodes tag id = .ok ⟨a, origin⟩ := by
  have htext : Evaluation.textOf nodes (nodes.size + 1) id = .ok text := by
    rw [Evaluation.textOf, bodyOf_eq h]
  have hmapping : nodes.isMapping id = false := by
    rw [isMapping, bodyOf_eq h]
  have hvalued : tag = .null ∨ tag = .bool ∨ tag = .int ∨ tag = .float ∨ tag = .timestamp ∨
      tag = .binary ∨ tag = .str := by
    cases tag with
    | seq | map | set | omap | pairs | merge | value | unknown =>
      unfold atomValue charsValue brokenValue at ha
      split at ha <;> cases ha
    | _ => simp
  refine ⟨by rcases hvalued with rfl | rfl | rfl | rfl | rfl | rfl | rfl <;> rfl, ?_⟩
  rcases hvalued with rfl | rfl | rfl | rfl | rfl | rfl | rfl <;>
    simp [Evaluation.atomOf, htext, hmapping, ha, bind, Except.bind, pure, Except.pure]

/-- The atom of a scalar as a key. -/
def keyOf (nodes : NodeTable) (id : NodeId) : Key :=
  match Evaluation.atomOf nodes (nodes.tagOf id) id with
  | .ok key => key
  | .error _ => ⟨.null, none⟩

/-- Sets the values under the keys that nodes are. -/
def setKeys (nodes : NodeTable) (entries : List (Key × NodeId))
    (pairs : List (NodeId × NodeId)) : List (Key × NodeId) :=
  pairs.foldl (fun entries p => setKey entries (nodes.keyOf p.1) p.2) entries

/-- The values under keys are among those that have been set. -/
lemma mem_of_mem_setKey {entries : List (Key × NodeId)} {key : Key} {value part : NodeId}
    (h : part ∈ (setKey entries key value).map Prod.snd) :
    part ∈ entries.map Prod.snd ∨ part = value := by
  induction entries with
  | nil => simpa [setKey] using h
  | cons entry entries ih =>
    rw [setKey] at h
    split at h
    · rcases List.mem_cons.mp h with rfl | h
      · exact .inr rfl
      · exact .inl (List.mem_cons_of_mem _ h)
    · rcases List.mem_cons.mp h with rfl | h
      · exact .inl List.mem_cons_self
      · rcases ih h with h | h
        · exact .inl (List.mem_cons_of_mem _ h)
        · exact .inr h

lemma mem_of_mem_setKeys {entries : List (Key × NodeId)} {pairs : List (NodeId × NodeId)}
    {part : NodeId} (h : part ∈ (nodes.setKeys entries pairs).map Prod.snd) :
    part ∈ entries.map Prod.snd ∨ ∃ p ∈ pairs, part = p.2 := by
  induction pairs generalizing entries with
  | nil => exact .inl h
  | cons p pairs ih =>
    rcases ih h with h | ⟨q, hq, rfl⟩
    · rcases mem_of_mem_setKey h with h | rfl
      · exact .inl h
      · exact .inr ⟨p, List.mem_cons_self, rfl⟩
    · exact .inr ⟨q, List.mem_cons_of_mem p hq, rfl⟩

/-- The value that a node will have, in terms of its parts. -/
def plan (nodes : NodeTable) (id : NodeId) : Content :=
  match nodes.bodyOf id with
  | .scalar _ => .atom (nodes.keyOf id)
  | .sequence items => .list items
  | .mapping pairs => .map (nodes.setKeys [] pairs)

/-- A node of a plain table that is no collection is a scalar. -/
lemma IsPlain.exists_scalar (hplain : nodes.IsPlain) (hid : id < nodes.size)
    (h : (nodes.tagOf id).isCollection = false) :
    ∃ text, nodes[id]? = some ⟨nodes.tagOf id, .scalar text⟩ := by
  obtain ⟨node, hnode⟩ : ∃ node, nodes[id]? = some node := ⟨_, Array.getElem?_eq_getElem hid⟩
  rw [tagOf_eq hnode] at h ⊢
  cases hplain id node hnode with
  | scalar value => exact ⟨_, hnode⟩
  | sequence behind => cases h
  | mapping keyed behind => cases h

/-- The key that a text is. -/
lemma atomOf_eq (hplain : nodes.IsPlain) (h : nodes[id]? = some ⟨tag, .scalar text⟩) :
    tag.isCollection = false ∧ Evaluation.atomOf nodes tag id = .ok (nodes.keyOf id) ∧
      nodes.plan id = .atom (nodes.keyOf id) := by
  obtain ⟨a, ha⟩ : ∃ a, atomValue tag text = .ok a := by
    cases hplain id _ h with
    | scalar value => exact ⟨_, value⟩
  obtain ⟨hcollection, origin, hatom⟩ := exists_atomOf h ha
  refine ⟨hcollection, ?_, ?_⟩
  · rw [keyOf, tagOf_eq h, hatom]
  · rw [plan, bodyOf_eq h]

/-- No key of a plain table is a merge key or a mark for a default value. -/
lemma flatten_eq (hkeys : ∀ p ∈ nodes.pairsOf id, nodes.tagOf p.1 = .str) :
    (NodeTable.flatten id).run nodes = .ok ((), nodes) := by
  have hmerge : (nodes.pairsOf id).findIdx? (fun p => nodes.tagOf p.1 = .merge) = none := by
    rw [List.findIdx?_eq_none_iff]
    intro p hp
    simp [hkeys p hp]
  have hdefaults : nodes.spellDefaults id = nodes := by
    have hfold : ∀ pairs : List (NodeId × NodeId), (∀ p ∈ pairs, nodes.tagOf p.1 = .str) →
        pairs.foldl (fun nodes p =>
          if nodes.tagOf p.1 = .value then nodes.setTag p.1 .str else nodes) nodes = nodes := by
      intro pairs hpairs
      induction pairs with
      | nil => rfl
      | cons p pairs ih =>
        obtain ⟨hp, hpairs⟩ := List.forall_mem_cons.mp hpairs
        rw [List.foldl_cons, hp, if_neg (by decide), ih hpairs]
    exact hfold _ hkeys
  have htake : ∀ depth, (NodeTable.takeMerged (depth + 1) id).run nodes = .ok ([], nodes) := by
    intro depth
    unfold takeMerged
    refine (run_get_bind _ _).trans ?_
    dsimp only
    rw [hmerge]
    dsimp only
    refine (run_bind_eq (show _ = Except.ok ((), nodes) from ?_)).trans rfl
    rw [hdefaults]
    rfl
  unfold flatten
  refine (run_get_bind _ _).trans ?_
  exact (run_bind_eq (htake _)).trans rfl

end NodeTable

namespace Evaluation

variable {nodes : NodeTable} {pending : List NodeId} {e e' e'' : Evaluation} {id lo : NodeId}

/-- The values met so far are those of the table, except for collections whose turn has not come. -/
structure Sound (nodes : NodeTable) (pending : List NodeId) (e : Evaluation) : Prop where
  nodes_eq : e.nodes = nodes
  size_eq : e.contents.size = nodes.size
  unfinished : ∀ i, i ∈ e.waiting ∨ i ∈ pending →
    i < nodes.size ∧ (nodes.tagOf i).isCollection = true
  settled : ∀ i c, e.content? i = some c → i ∈ e.waiting ∨ i ∈ pending ∨
    c = nodes.plan i ∧ ∀ part ∈ c.parts, (e.content? part).isSome = true

/-- What has been met stays so, and only nodes behind another one have come to wait. -/
structure Follows (lo : NodeId) (e e' : Evaluation) : Prop where
  met : ∀ i, (e.content? i).isSome = true → (e'.content? i).isSome = true
  waiting : ∀ i ∈ e'.waiting, i ∈ e.waiting ∨ lo < i

lemma Follows.refl (lo : NodeId) (e : Evaluation) : Follows lo e e := ⟨fun _ => id, fun _ => .inl⟩

lemma Follows.trans (h : Follows lo e e') (h' : Follows lo e' e'') : Follows lo e e'' := by
  refine ⟨fun i hi => h'.met i (h.met i hi), fun i hi => ?_⟩
  rcases h'.waiting i hi with hi | hi
  · exact h.waiting i hi
  · exact .inr hi

/-- The evaluation with a value for a node and with other nodes that wait. -/
def withContent (e : Evaluation) (id : NodeId) (content : Content) (waiting : List NodeId) :
    Evaluation :=
  { e with contents := e.contents.setIfInBounds id (some content), waiting }

lemma content?_withContent {content : Content} {waiting : List NodeId}
    (h : id < e.contents.size) (i : NodeId) : (e.withContent id content waiting).content? i =
      if i = id then some content else e.content? i := by
  simp only [content?, withContent, Array.getElem?_setIfInBounds]
  by_cases hi : i = id
  · subst hi
    simp [h]
  · rw [if_neg (fun heq => hi heq.symm), if_neg hi]

lemma Follows.withContent {content : Content} {waiting : List NodeId} (h : id < e.contents.size)
    (hwaiting : ∀ i ∈ waiting, i ∈ e.waiting ∨ lo < i) :
    Follows lo e (e.withContent id content waiting) := by
  refine ⟨fun i hi => ?_, hwaiting⟩
  rw [content?_withContent h]
  split
  · rfl
  · exact hi

/-- A node has its final value, or waits. -/
lemma Sound.withContent (he : Sound nodes pending e) (hid : id < nodes.size) {content : Content}
    {waiting pending' : List NodeId} (hwaiting : ∀ i ∈ e.waiting, i ∈ waiting)
    (hopen : ∀ i ∈ waiting, i ∈ e.waiting ∨ i = id ∧ (nodes.tagOf id).isCollection = true)
    (hpending : ∀ i, i ∈ pending → i ∈ pending' ∨ i = id)
    (hpending' : ∀ i ∈ pending', i ∈ pending)
    (hcontent : id ∈ waiting ∨
      content = nodes.plan id ∧ ∀ part ∈ content.parts, (e.content? part).isSome = true) :
    Sound nodes pending' (e.withContent id content waiting) := by
  have hsize : id < e.contents.size := by rwa [he.size_eq]
  have hmet : ∀ i, (e.content? i).isSome = true →
      ((e.withContent id content waiting).content? i).isSome = true := by
    intro i hi
    rw [content?_withContent hsize]
    split
    · rfl
    · exact hi
  refine ⟨he.nodes_eq, ?_, ?_, ?_⟩
  · rw [← he.size_eq]
    exact Array.size_setIfInBounds
  · rintro i (hi | hi)
    · rcases hopen i hi with hi | ⟨rfl, hi⟩
      · exact he.unfinished i (.inl hi)
      · exact ⟨hid, hi⟩
    · exact he.unfinished i (.inr (hpending' i hi))
  · intro i c hc
    rw [content?_withContent hsize] at hc
    split at hc
    · next heq =>
      cases hc
      subst heq
      rcases hcontent with hwait | ⟨hplan, hparts⟩
      · exact .inl hwait
      · exact .inr (.inr ⟨hplan, fun part hpart => hmet part (hparts part hpart)⟩)
    · next hne =>
      rcases he.settled i c hc with hi | hi | ⟨hplan, hparts⟩
      · exact .inl (hwaiting i hi)
      · exact .inr (.inl ((hpending i hi).resolve_right hne))
      · exact .inr (.inr ⟨hplan, fun part hpart => hmet part (hparts part hpart)⟩)

/-- A node has got its final value, and its turn is over. -/
lemma Sound.finish (he : Sound nodes (id :: pending) e) (hid : id < nodes.size)
    (hparts : ∀ part ∈ (nodes.plan id).parts, (e.content? part).isSome = true) (lo : NodeId) :
    Sound nodes pending (e.withContent id (nodes.plan id) e.waiting) ∧
      Follows lo e (e.withContent id (nodes.plan id) e.waiting) := by
  refine ⟨he.withContent hid (fun _ hi => hi) (fun _ => .inl) (fun i hi => ?_)
    (fun i => List.mem_cons_of_mem id) (.inr ⟨rfl, hparts⟩), ?_⟩
  · exact (List.mem_cons.mp hi).symm
  · exact .withContent (by rwa [he.size_eq]) fun _ => .inl

/-- A node of a plain table that is met has a value then, and has to wait if it is a collection. -/
lemma exists_meet (hplain : nodes.IsPlain) (he : Sound nodes pending e) (hid : id < nodes.size) :
    ∃ e', (meet id).run e = .ok ((), e') ∧ Sound nodes pending e' ∧
      (∀ lo < id, Follows lo e e') ∧ (e'.content? id).isSome = true := by
  have hsize : id < e.contents.size := by rwa [he.size_eq]
  unfold meet
  rw [run_get_bind]
  split
  · next hnone =>
    dsimp only
    rw [he.nodes_eq]
    split
    · next hcollection =>
      refine ⟨e.withContent id (emptyContent (nodes.tagOf id)) (id :: e.waiting), rfl,
        he.withContent hid (fun i => List.mem_cons_of_mem id) ?_ (fun _ => .inl) (fun _ hi => hi)
          (.inl List.mem_cons_self),
        fun lo hlo => .withContent hsize ?_, by simp [content?_withContent hsize]⟩
      all_goals
        intro i hi
        rcases List.mem_cons.mp hi with rfl | hi
      · exact .inr ⟨rfl, hcollection⟩
      · exact .inl hi
      · exact .inr hlo
      · exact .inl hi
    · next hscalar =>
      obtain ⟨text, hnode⟩ := hplain.exists_scalar hid (by simpa using hscalar)
      obtain ⟨-, hatom, hplan⟩ := NodeTable.atomOf_eq hplain hnode
      have hlift : (liftM (atomOf nodes (nodes.tagOf id) id) : Evaluating Key).run e =
          .ok (nodes.keyOf id, e) := by
        rw [hatom]
        rfl
      rw [run_bind_eq hlift]
      exact ⟨e.withContent id (.atom (nodes.keyOf id)) e.waiting, rfl,
        he.withContent hid (fun _ hi => hi) (fun _ => .inl) (fun _ => .inl) (fun _ hi => hi)
          (.inr ⟨hplan.symm, nofun⟩),
        fun _ _ => .withContent hsize fun _ => .inl, by simp [content?_withContent hsize]⟩
  · next hsome =>
    refine ⟨e, rfl, he, fun lo _ => .refl lo e, ?_⟩
    simpa [Option.isSome_iff_ne_none] using hsome

/-- A key of a plain table is met as the key that it is. -/
lemma exists_meetKey (hplain : nodes.IsPlain) (he : Sound nodes pending e) {key : Text}
    (hkey : nodes[id]? = some ⟨.str, .scalar key⟩) (hlo : lo < id) :
    ∃ e', (meetKey id).run e = .ok (nodes.keyOf id, e') ∧ Sound nodes pending e' ∧
      Follows lo e e' := by
  obtain ⟨hid, -⟩ := Array.getElem?_eq_some_iff.mp hkey
  obtain ⟨e', hrun, he', hfollows, hmet⟩ := exists_meet hplain he hid
  obtain ⟨c, hc⟩ := Option.isSome_iff_exists.mp hmet
  obtain ⟨hcollection, -, hplan⟩ := NodeTable.atomOf_eq hplain hkey
  have hopen : ¬(id ∈ e'.waiting ∨ id ∈ pending) := by
    intro hmem
    have := (he'.unfinished id hmem).2
    rw [NodeTable.tagOf_eq hkey, hcollection] at this
    cases this
  have hcontent : c = .atom (nodes.keyOf id) := by
    rcases he'.settled id c hc with hmem | hmem | ⟨hc, -⟩
    · exact absurd (.inl hmem) hopen
    · exact absurd (.inr hmem) hopen
    · rw [hc, hplan]
  refine ⟨e', ?_, he', hfollows lo hlo⟩
  unfold meetKey
  rw [run_bind_eq hrun, run_get_bind, hc, hcontent]
  rfl

/-- The items of a sequence are met. -/
lemma exists_forM_meet (hplain : nodes.IsPlain) {items : List NodeId}
    (hitems : ∀ i ∈ items, lo < i ∧ i < nodes.size) (he : Sound nodes pending e) :
    ∃ e', (items.forM meet).run e = .ok (⟨⟩, e') ∧ Sound nodes pending e' ∧ Follows lo e e' ∧
      ∀ i ∈ items, (e'.content? i).isSome = true := by
  induction items generalizing e with
  | nil => exact ⟨e, rfl, he, .refl lo e, by simp⟩
  | cons i items ih =>
    obtain ⟨⟨hlo, hi⟩, hitems⟩ := List.forall_mem_cons.mp hitems
    obtain ⟨e₁, hrun₁, he₁, hfollows₁, hmet₁⟩ := exists_meet hplain he hi
    obtain ⟨e₂, hrun₂, he₂, hfollows₂, hmet₂⟩ := ih hitems he₁
    refine ⟨e₂, ?_, he₂, (hfollows₁ lo hlo).trans hfollows₂,
      List.forall_mem_cons.mpr ⟨hfollows₂.met i hmet₁, hmet₂⟩⟩
    exact (run_bind_eq hrun₁).trans hrun₂

/-- The entries of a mapping are met. -/
lemma exists_foldlM_meet (hplain : nodes.IsPlain) {pairs : List (NodeId × NodeId)}
    (hkeyed : ∀ p ∈ pairs, lo < p.1 ∧ ∃ key, nodes[p.1]? = some ⟨.str, .scalar key⟩)
    (hbehind : ∀ p ∈ pairs, lo < p.2 ∧ p.2 < nodes.size) (entries : List (Key × NodeId))
    (he : Sound nodes pending e) :
    ∃ e', (pairs.foldlM (fun entries (p : NodeId × NodeId) => do
        let key ← meetKey p.1
        meet p.2
        return setKey entries key p.2) entries).run e = .ok (nodes.setKeys entries pairs, e') ∧
      Sound nodes pending e' ∧ Follows lo e e' ∧
      ∀ p ∈ pairs, (e'.content? p.2).isSome = true := by
  induction pairs generalizing e entries with
  | nil => exact ⟨e, rfl, he, .refl lo e, by simp⟩
  | cons p pairs ih =>
    obtain ⟨⟨hkey, key, hnode⟩, hkeyed⟩ := List.forall_mem_cons.mp hkeyed
    obtain ⟨⟨hlo, hp⟩, hbehind⟩ := List.forall_mem_cons.mp hbehind
    obtain ⟨e₁, hrun₁, he₁, hfollows₁⟩ := exists_meetKey hplain he hnode hkey
    obtain ⟨e₂, hrun₂, he₂, hfollows₂, hmet₂⟩ := exists_meet hplain he₁ hp
    obtain ⟨e₃, hrun₃, he₃, hfollows₃, hmet₃⟩ :=
      ih hkeyed hbehind (setKey entries (nodes.keyOf p.1) p.2) he₂
    refine ⟨e₃, ?_, he₃, hfollows₁.trans ((hfollows₂ lo hlo).trans hfollows₃),
      List.forall_mem_cons.mpr ⟨hfollows₃.met p.2 hmet₂, hmet₃⟩⟩
    have hstep : (do
        let key ← meetKey p.1
        meet p.2
        return setKey entries key p.2 : Evaluating _).run e =
        .ok (setKey entries (nodes.keyOf p.1) p.2, e₂) := by
      rw [run_bind_eq hrun₁, run_bind_eq hrun₂]
      rfl
    rw [List.foldlM_cons, run_bind_eq hstep, hrun₃]
    rfl

/-- The items of a sequence. -/
lemma run_itemsOf {items : List NodeId} (hbody : e.nodes.bodyOf id = .sequence items) :
    (itemsOf id).run e = .ok (items, e) := by
  unfold itemsOf
  rw [run_get_bind, hbody]
  rfl

/-- The keys of a mapping of a plain table are texts, so there is nothing to merge into it. -/
lemma run_editNodes_flatten (hkeys : ∀ p ∈ e.nodes.pairsOf id, e.nodes.tagOf p.1 = .str) :
    (editNodes (NodeTable.flatten id)).run e = .ok ((), e) := by
  unfold editNodes
  rw [run_get_bind, NodeTable.flatten_eq hkeys]
  rfl

/-- The entries of a mapping of a plain table are those that its plan has. -/
lemma exists_entriesOf {pairs : List (NodeId × NodeId)} (hplain : nodes.IsPlain)
    (hnode : nodes[id]? = some ⟨.map, .mapping pairs⟩) (he : Sound nodes pending e) :
    ∃ e', (entriesOf id).run e = .ok (nodes.setKeys [] pairs, e') ∧ Sound nodes pending e' ∧
      Follows id e e' ∧ ∀ p ∈ pairs, (e'.content? p.2).isSome = true := by
  have hbody := NodeTable.bodyOf_eq hnode
  have hpairs : nodes.pairsOf id = pairs := by rw [NodeTable.pairsOf, hbody]
  have hmapping : nodes.isMapping id = true := by rw [NodeTable.isMapping, hbody]
  cases hplain id _ hnode with
  | mapping keyed behind =>
    have hkeys : ∀ p ∈ e.nodes.pairsOf id, e.nodes.tagOf p.1 = .str := by
      intro p hp
      rw [he.nodes_eq] at hp ⊢
      obtain ⟨-, key, hkey⟩ := keyed p (by rwa [hpairs] at hp)
      exact NodeTable.tagOf_eq hkey
    obtain ⟨e', hrun, he', hfollows, hmet⟩ := exists_foldlM_meet hplain keyed behind [] he
    refine ⟨e', ?_, he', hfollows, hmet⟩
    unfold entriesOf
    rw [run_get_bind, he.nodes_eq, hmapping, if_neg (by simp)]
    refine (run_bind_eq (run_editNodes_flatten hkeys)).trans ?_
    rw [run_get_bind, he.nodes_eq, hpairs]
    exact hrun

/-- A collection whose turn has come has its final value then. -/
lemma exists_complete (hplain : nodes.IsPlain) (he : Sound nodes (id :: pending) e) :
    ∃ e', (complete id).run e = .ok ((), e') ∧ Sound nodes pending e' ∧ Follows id e e' := by
  obtain ⟨hid, hcollection⟩ := he.unfinished id (.inr List.mem_cons_self)
  obtain ⟨node, hnode⟩ : ∃ node, nodes[id]? = some node := ⟨_, Array.getElem?_eq_getElem hid⟩
  have htag := NodeTable.tagOf_eq hnode
  have hbody := NodeTable.bodyOf_eq hnode
  rw [htag] at hcollection
  unfold complete
  rw [run_get_bind, he.nodes_eq, htag]
  cases hplain id node hnode with
  | scalar value => rw [(NodeTable.atomOf_eq hplain hnode).1] at hcollection; cases hcollection
  | @sequence items behind =>
    have hplan : nodes.plan id = .list items := by rw [NodeTable.plan, hbody]
    obtain ⟨e', hrun, he', hfollows, hmet⟩ := exists_forM_meet hplain behind he
    obtain ⟨he'', hfollows'⟩ := he'.finish hid (by rw [hplan]; exact hmet) id
    refine ⟨_, ?_, he'', hfollows.trans hfollows'⟩
    dsimp only
    rw [run_bind_eq (run_itemsOf (by rw [he.nodes_eq, hbody])), run_bind_eq hrun, hplan]
    rfl
  | @mapping pairs keyed behind =>
    have hplan : nodes.plan id = .map (nodes.setKeys [] pairs) := by rw [NodeTable.plan, hbody]
    obtain ⟨e', hrun, he', hfollows, hmet⟩ := exists_entriesOf hplain hnode he
    have hparts : ∀ part ∈ (nodes.plan id).parts, (e'.content? part).isSome = true := by
      rw [hplan]
      intro part hpart
      rcases NodeTable.mem_of_mem_setKeys hpart with hmem | ⟨p, hp, rfl⟩
      · cases hmem
      · exact hmet p hp
    obtain ⟨he'', hfollows'⟩ := he'.finish hid hparts id
    refine ⟨_, ?_, he'', hfollows.trans hfollows'⟩
    dsimp only
    rw [run_bind_eq hrun, hplan]
    rfl

lemma Follows.mono {lo' : NodeId} (h : Follows lo e e') (hlo : lo' ≤ lo) : Follows lo' e e' := by
  refine ⟨h.met, fun i hi => ?_⟩
  rcases h.waiting i hi with hi | hi
  · exact .inl hi
  · exact .inr (Nat.lt_of_le_of_lt hlo hi)

/-- The collections of a turn get their final values. -/
lemma exists_forM_complete (hplain : nodes.IsPlain) {turn : List NodeId}
    (hturn : ∀ i ∈ turn, lo ≤ i) (he : Sound nodes turn e) :
    ∃ e', (turn.forM complete).run e = .ok (⟨⟩, e') ∧ Sound nodes [] e' ∧ Follows lo e e' := by
  induction turn generalizing e with
  | nil => exact ⟨e, rfl, he, .refl lo e⟩
  | cons i turn ih =>
    obtain ⟨hi, hturn⟩ := List.forall_mem_cons.mp hturn
    obtain ⟨e₁, hrun₁, he₁, hfollows₁⟩ := exists_complete hplain he
    obtain ⟨e₂, hrun₂, he₂, hfollows₂⟩ := ih hturn he₁
    exact ⟨e₂, (run_bind_eq hrun₁).trans hrun₂, he₂, (hfollows₁.mono hi).trans hfollows₂⟩

/-- The nodes that wait lie further and further behind, so the turns come to an end. -/
lemma exists_completeAll (hplain : nodes.IsPlain) {depth : Nat} (hwaiting : ∀ i ∈ e.waiting, lo ≤ i)
    (hdepth : nodes.size < depth + lo) (he : Sound nodes [] e) :
    ∃ e', (completeAll depth).run e = .ok ((), e') ∧ Sound nodes [] e' ∧ e'.waiting = [] ∧
      ∀ i, (e.content? i).isSome = true → (e'.content? i).isSome = true := by
  induction depth generalizing e lo with
  | zero =>
    have hnone : e.waiting = [] := by
      rw [List.eq_nil_iff_forall_not_mem]
      intro i hi
      have hsize := (he.unfinished i (.inl hi)).1
      rw [Nat.zero_add] at hdepth
      exact Nat.lt_asymm hsize (Nat.lt_of_lt_of_le hdepth (hwaiting i hi))
    exact ⟨e, rfl, he, hnone, fun _ => id⟩
  | succ depth ih =>
    unfold completeAll
    rw [run_get_bind]
    dsimp only
    split
    · next hempty => exact ⟨e, rfl, he, by simpa using hempty, fun _ => id⟩
    · have hturn : ∀ i ∈ e.waiting.reverse, lo ≤ i :=
        fun i hi => hwaiting i (List.mem_reverse.mp hi)
      have he₁ : Sound nodes e.waiting.reverse { e with waiting := [] } := by
        refine ⟨he.nodes_eq, he.size_eq, fun i hi => ?_, fun i c hc => ?_⟩
        · rcases hi with hi | hi
          · cases hi
          · exact he.unfinished i (.inl (List.mem_reverse.mp hi))
        · rcases he.settled i c hc with hi | hi | hi
          · exact .inr (.inl (List.mem_reverse.mpr hi))
          · cases hi
          · exact .inr (.inr hi)
      obtain ⟨e₂, hrun₂, he₂, hfollows₂⟩ := exists_forM_complete hplain hturn he₁
      have hbehind : ∀ i ∈ e₂.waiting, lo + 1 ≤ i := by
        intro i hi
        rcases hfollows₂.waiting i hi with hi | hi
        · cases hi
        · exact hi
      obtain ⟨e₃, hrun₃, he₃, hnone, hmet⟩ := ih hbehind (by omega) he₂
      refine ⟨e₃, ?_, he₃, hnone, fun i hi => hmet i (hfollows₂.met i hi)⟩
      refine (run_bind_eq (show _ = Except.ok ((), { e with waiting := [] }) from rfl)).trans ?_
      exact (run_bind_eq hrun₂).trans hrun₃

end Evaluation

/-- The values of nodes, and of their parts. -/
structure IsFinal (nodes : NodeTable) (contents : Array (Option Content)) : Prop where
  size : contents.size = nodes.size
  plan : ∀ (i : NodeId) (c : Content), contents[i]?.join = some c → c = nodes.plan i
  parts : ∀ (i : NodeId) (c : Content), contents[i]?.join = some c →
    ∀ part ∈ c.parts, (contents[part]?.join).isSome = true

lemma IsFinal.lt_size {nodes : NodeTable} {contents : Array (Option Content)}
    (h : IsFinal nodes contents) {id : NodeId} (hid : (contents[id]?.join).isSome = true) :
    id < nodes.size := by
  rw [← h.size]
  refine Decidable.byContradiction fun hnot => ?_
  rw [Array.getElem?_eq_none (Nat.not_lt.mp hnot)] at hid
  cases hid

/-- Every node of a plain table that is met gets its final value. -/
lemma exists_contents {nodes : NodeTable} (hplain : nodes.IsPlain) {root : NodeId}
    (hroot : root < nodes.size) (knotted : Bool) :
    ∃ contents, Composition.contents ⟨nodes, root, knotted⟩ = .ok contents ∧
      (contents[root]?.join).isSome = true ∧ IsFinal nodes contents := by
  let start : Evaluation := { nodes, contents := Array.replicate nodes.size none }
  have hstart : Evaluation.Sound nodes [] start := by
    refine ⟨rfl, Array.size_replicate, by simp [start], fun i c hc => ?_⟩
    have hnone : start.content? i = none := by
      rw [Evaluation.content?, Array.getElem?_replicate]
      split <;> rfl
    rw [hnone] at hc
    cases hc
  obtain ⟨e₁, hrun₁, he₁, -, hmet₁⟩ := Evaluation.exists_meet hplain hstart hroot
  have hdepth : nodes.size < (nodes.size + 1) + 0 := Nat.lt_succ_self _
  obtain ⟨e₂, hrun₂, he₂, hnone, hmet₂⟩ :=
    Evaluation.exists_completeAll hplain (fun i _ => Nat.zero_le i) hdepth he₁
  have hsettled : ∀ i c, e₂.content? i = some c →
      c = nodes.plan i ∧ ∀ part ∈ c.parts, (e₂.content? part).isSome = true := by
    intro i c hc
    rcases he₂.settled i c hc with hi | hi | hi
    · rw [hnone] at hi
      cases hi
    · cases hi
    · exact hi
  refine ⟨e₂.contents, ?_, hmet₂ root hmet₁, he₂.size_eq, fun i c hc => (hsettled i c hc).1,
    fun i c hc => (hsettled i c hc).2⟩
  unfold Composition.contents
  dsimp only
  rw [run_bind_eq hrun₁, hrun₂]
  rfl

end Yaml

end StockFlow
