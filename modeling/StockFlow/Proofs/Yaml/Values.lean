import StockFlow.Proofs.Yaml.Nodes
import StockFlow.Proofs.Yaml.Tables
/-!
# Failures of values

The last stage of reading a YAML text carries out merge keys, reads scalars and puts values together. It
fails because the text is none, or because of a node: a scalar, or the default value of a mapping, is no
value of its kind, or a mapping that should be an atom has no default value at all
(`Yaml.Composition.Fault`). Tables of nodes are changed on the way, but never so that a node gets another
scalar or another kind that its scalar may not fit (`Yaml.NodeTable.IsFlattenedFrom`). With this, all
stages together fail for something in the text or in its nodes (`Yaml.failsIn_parse`).
-/

namespace StockFlow.Yaml

open Outcome

/-- The kinds of failures of YAML texts. -/
def IsFault : Failure → Prop
  | .load .invalidYaml | .badValue | .overflow | .wrongType | .missingKey | .outOfBounds
  | .exhausted => True
  | _ => False

@[simp]
lemma isFault_invalid : IsFault invalid := trivial

@[simp]
lemma isFault_badValue : IsFault .badValue := trivial

@[simp]
lemma isFault_overflow : IsFault .overflow := trivial

@[simp]
lemma isFault_wrongType : IsFault .wrongType := trivial

@[simp]
lemma isFault_missingKey : IsFault .missingKey := trivial

@[simp]
lemma isFault_outOfBounds : IsFault .outOfBounds := trivial

@[simp]
lemma isFault_exhausted : IsFault .exhausted := trivial

/-! ## Atoms -/

@[simp]
lemma failsIn_toBinary64 (a : Number) : FailsIn IsFault a.toBinary64 := by
  cases a with
  | int n => simp [Number.toBinary64]
  | float x => simp [Number.toBinary64]

@[simp]
lemma failsIn_combine (onInt : Int → Int → Int) (onFloat : Binary64 → Binary64 → Binary64)
    (a b : Number) : FailsIn IsFault (Number.combine onInt onFloat a b) := by
  unfold Number.combine
  split
  · simp
  · simp

@[simp]
lemma failsIn_integerOf (base : Nat) (cs : List Char) : FailsIn IsFault (integerOf base cs) := by
  unfold integerOf
  dsimp only
  split
  · simp
  · simp

@[simp]
lemma failsIn_intValue (cs : List Char) : FailsIn IsFault (intValue cs) := by
  have hparts : ∀ parts : List (List Char), FailsIn IsFault (parts.mapM (integerOf 10)) :=
    fun parts => failsIn_mapM fun part _ => failsIn_integerOf 10 part
  unfold intValue
  dsimp only
  split
  · simp
  · split <;> simp [hparts]

@[simp]
lemma failsIn_floatOf (cs : List Char) : FailsIn IsFault (floatOf cs) := by
  unfold floatOf
  split
  · simp
  · simp

@[simp]
lemma failsIn_sumSixties (parts : List Binary64) : FailsIn IsFault (sumSixties parts) := by
  unfold sumSixties
  rw [failsIn_bind_iff]
  refine ⟨failsIn_foldlM (fun total part _ => ?_) _, fun _ _ => failsIn_pure _⟩
  simp [Number.mul, Number.add]

@[simp]
lemma failsIn_floatValue (cs : List Char) : FailsIn IsFault (floatValue cs) := by
  have hparts : ∀ parts : List (List Char), FailsIn IsFault (parts.mapM floatOf) :=
    fun parts => failsIn_mapM fun part _ => failsIn_floatOf part
  simp [floatValue, hparts]

@[simp]
lemma failsIn_boolValue (cs : List Char) : FailsIn IsFault (boolValue cs) := by
  simp [boolValue]

@[simp]
lemma failsIn_bytesValue (cs : List Char) : FailsIn IsFault (bytesValue cs) := by
  unfold bytesValue
  split
  · simp
  · split <;> simp

@[simp]
lemma failsIn_timestampValue (cs : List Char) : FailsIn IsFault (timestampValue cs) := by
  unfold timestampValue
  dsimp only
  split
  · simp
  · split <;> simp
  · split
    · simp
    · split
      · simp
      · split <;> simp

@[simp]
lemma failsIn_charsValue (tag : Tag) (cs : List Char) : FailsIn IsFault (charsValue tag cs) := by
  cases tag <;> simp [charsValue]

@[simp]
lemma failsIn_brokenValue (tag : Tag) (s : Text) : FailsIn IsFault (brokenValue tag s) := by
  cases tag <;> simp [brokenValue]

@[simp]
lemma failsIn_atomValue (tag : Tag) (s : Text) : FailsIn IsFault (atomValue tag s) := by
  unfold atomValue
  split
  · simp
  · simp

/-! ## Tables that merge keys are carried out in -/

namespace NodeTable

/-- A table comes of another one by changes of its mappings and of the marks for default values, which
become texts. -/
structure IsFlattenedFrom (nodes original : NodeTable) : Prop where
  body : ∀ id, nodes.bodyOf id = original.bodyOf id ∨ nodes.isMapping id ∧ original.isMapping id
  tag : ∀ id, nodes.tagOf id = original.tagOf id ∨ nodes.tagOf id = .str ∧ original.tagOf id = .value

variable {nodes original : NodeTable} {id : NodeId}

lemma tagOf_setBody (nodes : NodeTable) (id : NodeId) (body : NodeBody) (i : NodeId) :
    (nodes.setBody id body).tagOf i = nodes.tagOf i := by
  unfold tagOf setBody
  rw [Array.getElem?_modify]
  split
  · rw [Option.map_map]
    rfl
  · rfl

lemma bodyOf_setBody_of_ne (nodes : NodeTable) (body : NodeBody) {i : NodeId} (hi : i ≠ id) :
    (nodes.setBody id body).bodyOf i = nodes.bodyOf i := by
  rw [bodyOf, getElem?_setBody_of_ne hi, bodyOf]

lemma bodyOf_setBody_self (hid : nodes.isMapping id) (body : NodeBody) :
    (nodes.setBody id body).bodyOf id = body := by
  unfold isMapping bodyOf at hid
  cases hnode : nodes[id]? with
  | none =>
    rw [hnode] at hid
    cases hid
  | some node => exact bodyOf_eq (getElem?_setBody_self hnode)

lemma bodyOf_setTag (nodes : NodeTable) (id : NodeId) (tag : Tag) (i : NodeId) :
    (nodes.setTag id tag).bodyOf i = nodes.bodyOf i := by
  unfold bodyOf setTag
  rw [Array.getElem?_modify]
  split
  · rw [Option.map_map]
    rfl
  · rfl

lemma tagOf_setTag_of_ne (nodes : NodeTable) (tag : Tag) {i : NodeId} (hi : id ≠ i) :
    (nodes.setTag id tag).tagOf i = nodes.tagOf i := by
  unfold tagOf setTag
  rw [Array.getElem?_modify, if_neg hi]

lemma tagOf_setTag_self (hid : nodes.tagOf id ≠ .unknown) (tag : Tag) :
    (nodes.setTag id tag).tagOf id = tag := by
  unfold tagOf setTag
  rw [Array.getElem?_modify, if_pos rfl]
  unfold tagOf at hid
  cases hnode : nodes[id]? with
  | none =>
    rw [hnode] at hid
    exact absurd rfl hid
  | some node => rfl

lemma isFlattenedFrom_refl (nodes : NodeTable) : nodes.IsFlattenedFrom nodes :=
  ⟨fun _ => Or.inl rfl, fun _ => Or.inl rfl⟩

namespace IsFlattenedFrom

variable (h : nodes.IsFlattenedFrom original)

include h

/-- Mappings stay mappings, and nothing becomes one. -/
lemma isMapping_iff (id : NodeId) : nodes.isMapping id ↔ original.isMapping id := by
  rcases h.body id with heq | ⟨hnodes, horiginal⟩
  · rw [isMapping, heq, isMapping]
  · exact iff_of_true hnodes horiginal

/-- A scalar has the text that it had. -/
lemma bodyOf_scalar {s : Text} (hs : nodes.bodyOf id = .scalar s) : original.bodyOf id = .scalar s := by
  rcases h.body id with heq | ⟨hmapping, -⟩
  · rw [← heq, hs]
  · rw [isMapping, hs] at hmapping
    cases hmapping

/-- A mapping gets other entries. -/
lemma setBody (hid : nodes.isMapping id) (pairs : List (NodeId × NodeId)) :
    (nodes.setBody id (.mapping pairs)).IsFlattenedFrom original where
  body i := by
    by_cases hi : i = id
    · subst hi
      refine Or.inr ⟨?_, (h.isMapping_iff i).mp hid⟩
      rw [isMapping, bodyOf_setBody_self hid]
    · rw [isMapping, bodyOf_setBody_of_ne nodes _ hi]
      exact h.body i
  tag i := by
    rw [tagOf_setBody]
    exact h.tag i

/-- A mark for a default value becomes a text. -/
lemma setTag (hid : nodes.tagOf id = .value) : (nodes.setTag id .str).IsFlattenedFrom original where
  body i := by
    rw [isMapping, bodyOf_setTag]
    exact h.body i
  tag i := by
    by_cases hi : id = i
    · subst hi
      have hknown : nodes.tagOf id ≠ .unknown := by simp [hid]
      refine Or.inr ⟨tagOf_setTag_self hknown .str, ?_⟩
      rcases h.tag id with heq | ⟨hstr, -⟩
      · rw [← heq, hid]
      · rw [hid] at hstr
        cases hstr
    · rw [tagOf_setTag_of_ne nodes .str hi]
      exact h.tag i

lemma spellDefaults (id : NodeId) : (nodes.spellDefaults id).IsFlattenedFrom original := by
  unfold NodeTable.spellDefaults
  generalize nodes.pairsOf id = pairs
  induction pairs generalizing nodes with
  | nil => exact h
  | cons pair pairs ih =>
    rw [List.foldl_cons]
    apply ih
    dsimp only
    split
    · next hvalue => exact h.setTag hvalue
    · exact h

lemma prepend (hid : original.isMapping id) (pairs : List (NodeId × NodeId)) :
    (nodes.prepend id pairs).IsFlattenedFrom original := by
  unfold NodeTable.prepend
  split
  · exact h
  · exact h.setBody ((h.isMapping_iff id).mpr hid) _

end IsFlattenedFrom

end NodeTable

/-! ## Merge keys -/

/-- Why a document has no value. -/
inductive Composition.Fault (c : Composition) : Failure → Prop
  /-- The text is no YAML. -/
  | invalid : c.Fault invalid
  /-- The text of a scalar, or of the default value of a mapping, is no value of the kind of the node. -/
  | text {id source : NodeId} {s : Text} {failure : Failure} (body : c.nodes.bodyOf source = .scalar s)
      (given : source = id ∨ c.nodes.isMapping id)
      (refused : atomValue (c.nodes.tagOf id) s = .error failure) : c.Fault failure
  /-- A mapping should be a date. -/
  | dated {id : NodeId} (mapping : c.nodes.isMapping id) (kind : c.nodes.tagOf id = .timestamp) :
      c.Fault .wrongType
  /-- A mapping should be an atom, and its default values have no end. -/
  | endless {id : NodeId} (mapping : c.nodes.isMapping id) (kind : (c.nodes.tagOf id).isCollection = false) :
      c.Fault .exhausted

section Values

variable {c : Composition} {α : Type}

/-- A computation on tables that come of that of a document, which fails only for its faults. -/
def NodeEdit.Faults (c : Composition) (edit : NodeEdit α) : Prop :=
  Keeps (fun nodes => nodes.IsFlattenedFrom c.nodes) c.Fault edit

namespace NodeTable

variable {nodes : NodeTable} {id : NodeId}

lemma isMapping_of_mem_pairsOf {pair : NodeId × NodeId} (h : pair ∈ nodes.pairsOf id) :
    nodes.isMapping id := by
  unfold pairsOf at h
  unfold isMapping
  split at h
  · rfl
  · cases h

/-- What a merge key stands for are mappings, or the text is no YAML. -/
lemma meets_mergeSources (nodes : NodeTable) (id : NodeId) :
    Meets (fun sources => ∀ source ∈ sources, nodes.isMapping source) c.Fault
      (nodes.mergeSources id) := by
  unfold mergeSources
  split
  · next hbody =>
    refine meets_ok (List.forall_mem_singleton.mpr ?_)
    rw [isMapping, hbody]
  · split
    · next hall => exact meets_ok (List.all_eq_true.mp hall)
    · exact meets_error .invalid
  · exact meets_error .invalid

lemma faults_takeMerged (depth : Nat) (id : NodeId) : (takeMerged depth id).Faults c := by
  induction depth generalizing id with
  | zero => exact keeps_pure _
  | succ depth ih =>
    unfold takeMerged
    refine keeps_get_bind fun nodes hnodes => ?_
    dsimp only
    split
    · exact Keeps.bind (keeps_set (hnodes.spellDefaults id)) fun _ => keeps_pure _
    · next position hposition =>
      have hid : nodes.isMapping id := by
        obtain ⟨hlt, -⟩ := List.findIdx?_eq_some_iff_findIdx_eq.mp hposition
        exact isMapping_of_mem_pairsOf (List.getElem_mem hlt)
      refine Keeps.bind (keeps_set (hnodes.setBody hid _)) fun _ => ?_
      refine keeps_get_bind fun nodes' hnodes' => ?_
      refine keeps_lift_bind (meets_mergeSources nodes' _) fun sources hsources => ?_
      refine (keeps_mapM fun source hsource => ?_).bind fun taken => ?_
      · have hmapping := (hnodes'.isMapping_iff source).mp (hsources source hsource)
        refine (ih source).bind fun inner => ?_
        refine Keeps.bind (keeps_modify fun _ hs => hs.prepend hmapping inner) fun _ => ?_
        exact keeps_get.bind fun _ => keeps_pure _
      · exact (ih id).bind fun further => keeps_pure _

lemma faults_flatten (hid : c.nodes.isMapping id) : (flatten id).Faults c := by
  unfold flatten
  refine keeps_get.bind fun nodes => (faults_takeMerged _ id).bind fun taken => ?_
  exact keeps_modify fun _ hs => hs.prepend hid taken

end NodeTable

/-! ## Values -/

/-- A computation that finds values in tables that come of that of a document, which fails only for its
faults. -/
def Evaluating.Faults (c : Composition) (x : Evaluating α) : Prop :=
  Keeps (fun e => e.nodes.IsFlattenedFrom c.nodes) c.Fault x

namespace Evaluation

variable {nodes : NodeTable} {id : NodeId}

/-- The text of a node is that of a scalar: of the node itself, unless it is a mapping. -/
lemma meets_textOf (h : nodes.IsFlattenedFrom c.nodes) (depth : Nat) (id : NodeId) :
    Meets (fun s => ∃ source, c.nodes.bodyOf source = .scalar s ∧ (source = id ∨ c.nodes.isMapping id))
      (fun failure => failure = invalid ∨ failure = .exhausted ∧ (depth = 0 ∨ c.nodes.isMapping id))
      (textOf nodes depth id) := by
  induction depth generalizing id with
  | zero => exact meets_error (Or.inr ⟨rfl, Or.inl rfl⟩)
  | succ depth ih =>
    unfold textOf
    split
    · next text hbody => exact meets_ok ⟨id, h.bodyOf_scalar hbody, Or.inl rfl⟩
    · exact meets_error (Or.inl rfl)
    · next pairs hbody =>
      have hmapping : c.nodes.isMapping id := by
        rw [← h.isMapping_iff, NodeTable.isMapping, hbody]
      split
      · next key value hdefault =>
        refine (ih value).mono ?_ ?_
        · rintro s ⟨source, hsource, -⟩
          exact ⟨source, hsource, Or.inr hmapping⟩
        · rintro failure (rfl | ⟨rfl, -⟩)
          · exact Or.inl rfl
          · exact Or.inr ⟨rfl, Or.inr hmapping⟩
      · exact meets_error (Or.inl rfl)

/-- A node of a kind that is no collection has an atom, or the document has a fault. A mark for a default
value that has become a text is no obstacle, since every text is one. -/
lemma failsIn_atom (h : nodes.IsFlattenedFrom c.nodes) {tag : Tag} (htag : nodes.tagOf id = tag)
    (hkind : tag.isCollection = false) :
    FailsIn c.Fault (do
      let text ← textOf nodes (nodes.size + 1) id
      if tag = .timestamp ∧ nodes.isMapping id then throw .wrongType
      let atom ← atomValue tag text
      return ({ atom, origin := if isNanWord text then none else some id } : Key)) := by
  have hmapping := h.isMapping_iff id
  refine failsIn_bind_iff.mpr ⟨fun failure hfailure => ?_, fun text htext => ?_⟩
  · rcases (meets_textOf h _ id).failsIn failure hfailure with rfl | ⟨rfl, hzero | hid⟩
    · exact .invalid
    · cases hzero
    · refine .endless hid ?_
      rcases h.tag id with heq | ⟨-, hvalue⟩
      · rwa [← heq, htag]
      · rw [hvalue]
        rfl
  have htext' := meets_textOf h (nodes.size + 1) id
  rw [htext] at htext'
  obtain ⟨source, hsource, hgiven⟩ := htext'
  rcases h.tag id with heq | ⟨hstr, -⟩
  · have hrefused : ∀ failure, atomValue tag text = .error failure → c.Fault failure := by
      intro failure hfailure
      rw [← htag, heq] at hfailure
      exact .text hsource hgiven hfailure
    have hatom : FailsIn c.Fault (do
        let atom ← atomValue tag text
        return ({ atom, origin := if isNanWord text then none else some id } : Key)) :=
      failsIn_bind_iff.mpr ⟨hrefused, fun _ _ => failsIn_pure _⟩
    dsimp only
    split
    · next hdated =>
      refine failsIn_bind_iff.mpr ⟨failsIn_throw_iff.mpr ?_, fun _ _ => hatom⟩
      refine .dated (hmapping.mp hdated.2) ?_
      rw [← heq, htag, hdated.1]
    · exact hatom
  · obtain rfl : tag = .str := htag.symm.trans hstr
    rw [if_neg (by simp)]
    refine failsIn_bind_iff.mpr ⟨fun failure hfailure => ?_, fun _ _ => failsIn_pure _⟩
    rw [NodeTable.atomValue_text] at hfailure
    cases hfailure

lemma failsIn_atomOf (h : nodes.IsFlattenedFrom c.nodes) (id : NodeId) :
    FailsIn c.Fault (atomOf nodes (nodes.tagOf id) id) := by
  generalize htag : nodes.tagOf id = tag
  cases tag with
  | null => exact failsIn_atom h htag rfl
  | bool => exact failsIn_atom h htag rfl
  | int => exact failsIn_atom h htag rfl
  | float => exact failsIn_atom h htag rfl
  | timestamp => exact failsIn_atom h htag rfl
  | binary => exact failsIn_atom h htag rfl
  | str => exact failsIn_atom h htag rfl
  | _ => exact failsIn_throw_iff.mpr .invalid

lemma faults_setContent (id : NodeId) (content : Content) : (setContent id content).Faults c :=
  keeps_modify fun _ hs => hs

lemma faults_meet (id : NodeId) : (meet id).Faults c := by
  unfold meet
  refine keeps_get_bind fun e he => ?_
  dsimp only
  split
  · split
    · exact (faults_setContent _ _).bind fun _ => keeps_modify fun _ hs => hs
    · exact Keeps.bind (keeps_lift (failsIn_atomOf he id)) fun key => faults_setContent _ _
  · exact keeps_pure _

lemma faults_meetKey (id : NodeId) : (meetKey id).Faults c := by
  unfold meetKey
  refine (faults_meet id).bind fun _ => keeps_get.bind fun e => ?_
  split
  · exact keeps_pure _
  · exact keeps_throw .invalid

lemma faults_editNodes {edit : NodeEdit Unit} (h : edit.Faults c) : (editNodes edit).Faults c := by
  unfold editNodes
  refine keeps_get_bind fun e he => ?_
  exact keeps_lift_bind (h e.nodes he) fun result hresult => keeps_set hresult

lemma faults_entriesOf (id : NodeId) : (entriesOf id).Faults c := by
  unfold entriesOf
  refine keeps_get_bind fun e he => ?_
  extract_lets entries
  split
  · exact keeps_throw_bind .invalid _
  · next hmapping =>
    have hid : c.nodes.isMapping id := by
      rw [← he.isMapping_iff]
      simpa using hmapping
    refine (faults_editNodes (NodeTable.faults_flatten hid)).bind fun _ => keeps_get.bind fun e => ?_
    refine keeps_foldlM (fun entries pair => ?_) _ _
    refine (faults_meetKey _).bind fun key => (faults_meet _).bind fun _ => ?_
    exact keeps_pure _

lemma faults_itemsOf (id : NodeId) : (itemsOf id).Faults c := by
  unfold itemsOf
  refine keeps_get.bind fun e => ?_
  split
  · exact keeps_pure _
  · exact keeps_throw .invalid

lemma faults_addPair (first second : NodeId) : (addPair first second).Faults c :=
  keeps_get_bind fun _ he => Keeps.bind (keeps_set he) fun _ => keeps_pure _

lemma faults_pairOf (id : NodeId) : (pairOf id).Faults c := by
  unfold pairOf
  refine keeps_get.bind fun e => ?_
  split
  · exact (faults_meet _).bind fun _ => (faults_meet _).bind fun _ => faults_addPair _ _
  · exact keeps_throw .invalid

lemma faults_complete (id : NodeId) : (complete id).Faults c := by
  unfold complete
  refine keeps_get.bind fun e => ?_
  have hpairs : Evaluating.Faults c (do setContent id (.list (← (← itemsOf id).mapM pairOf))) := by
    refine (faults_itemsOf id).bind fun items => ?_
    refine (keeps_mapM fun pair _ => faults_pairOf pair).bind fun pairs => ?_
    exact faults_setContent _ _
  split
  · exact (faults_entriesOf id).bind fun _ => faults_setContent _ _
  · exact (faults_entriesOf id).bind fun _ => faults_setContent _ _
  · exact hpairs
  · exact hpairs
  · refine (faults_itemsOf id).bind fun items => ?_
    exact (keeps_forM faults_meet items).bind fun _ => faults_setContent _ _

lemma faults_completeAll (depth : Nat) : (completeAll depth).Faults c := by
  induction depth with
  | zero => exact keeps_pure _
  | succ depth ih =>
    unfold completeAll
    refine keeps_get.bind fun e => ?_
    dsimp only
    split
    · exact keeps_pure _
    · refine Keeps.bind (keeps_modify fun _ hs => hs) fun _ => ?_
      exact (keeps_forM faults_complete _).bind fun _ => ih

end Evaluation

/-- A document has a value, or a fault. -/
lemma failsIn_value (c : Composition) : FailsIn c.Fault c.value := by
  have hcontents : FailsIn c.Fault c.contents := by
    unfold Composition.contents
    rw [failsIn_bind_iff]
    refine ⟨?_, fun _ _ => failsIn_pure _⟩
    have hroot := Evaluation.faults_meet (c := c) c.root
    have hall := hroot.bind fun _ => Evaluation.faults_completeAll (c.nodes.size + 1)
    exact (hall _ (NodeTable.isFlattenedFrom_refl c.nodes)).failsIn
  unfold Composition.value
  rw [failsIn_bind_iff]
  exact ⟨hcontents, fun _ _ => failsIn_pure _⟩

end Values

/-! ## Texts -/

/-- Why a YAML text has no value. -/
inductive Fault (text : Text) : Failure → Prop
  /-- The text is no YAML. -/
  | invalid : Fault text invalid
  /-- Something that stands in the text ends its tokens. -/
  | token {cs : List Char} {failure : Failure} (chars : text = .ofChars cs)
      (fault : TokenFault cs failure) : Fault text failure
  /-- Its document has no value. -/
  | document {c : Composition} {failure : Failure}
      (composed : Composition.ofTokens? (Token.ofText text).1 (Token.ofText text).2 = .ok (some c))
      (fault : c.Fault failure) : Fault text failure

/-- A fault of a text shows in one of a few ways. -/
lemma Fault.isFault {text : Text} {failure : Failure} (h : Fault text failure) : IsFault failure := by
  cases h with
  | invalid => exact isFault_invalid
  | token chars fault =>
    cases fault with
    | invalid => exact isFault_invalid
    | @escape mark digits code failure occurs count number refused =>
      have hcode : FailsIn IsFault (escapedPoint code) := by simp [escapedPoint]
      exact hcode failure refused
    | directive => exact isFault_badValue
  | document composed fault =>
    cases fault with
    | invalid => exact isFault_invalid
    | text body given refused => exact failsIn_atomValue _ _ _ refused
    | dated => exact isFault_wrongType
    | endless => exact isFault_exhausted

/-- **Failures of YAML texts.**  A YAML text has a value, or a fault. -/
theorem failsIn_parse (text : Text) : FailsIn (Fault text) (parse text) := by
  intro failure h
  unfold parse at h
  rcases bind_eq_error_iff.mp h with htokens | ⟨composition?, hcomposed, hvalue⟩
  · rcases failsIn_ofTokens? _ _ failure htokens with rfl | hstop
    · exact .invalid
    · rcases tokenFault_of_ofText hstop with rfl | ⟨cs, hcs, hfault⟩
      · exact .invalid
      · exact .token hcs hfault
  · cases composition? with
    | none => cases hvalue
    | some c => exact .document hcomposed (failsIn_value c failure hvalue)

end StockFlow.Yaml
