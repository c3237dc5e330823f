import StockFlow.Document.Format
import StockFlow.Proofs.Datum.Decoded
/-!
# What the formats decode

Every value that a reader of documents makes is decoded. JSON has no values that contain themselves,
so there is nothing to close. In YAML the values that contain themselves are the strands, and
everything else is put together of parts that mention them.
-/

namespace StockFlow

/-! ## JSON -/

namespace Json

/-- A number is no part that mentions anything. -/
lemma isPart_of_readNumber {cs rest : Text} {d : Datum} (h : readNumber cs = .ok (d, rest)) :
    d.isPart 0 := by
  unfold readNumber at h
  dsimp only at h
  -- with a sign and without one
  split at h
  all_goals
    split at h
    · cases h
    · split at h
      · split at h
        · cases h
        · cases h
          rfl
      · cases h
        rfl

/-- The values that names stand for mention nothing. -/
lemma isPart_of_readName? {cs rest : Text} {d : Datum} (h : readName? cs = some (d, rest)) :
    d.isPart 0 := by
  have hnames : ∀ entry ∈ names, entry.2.isPart 0 := by decide
  obtain ⟨⟨name, value⟩, hmem, hentry⟩ := List.exists_of_findSome?_eq_some h
  dsimp only at hentry
  split at hentry
  · cases hentry
    exact hnames _ hmem
  · cases hentry

/-- What is read with some fuel contains no knot and mentions no strand. -/
structure ReadsParts (fuel : Nat) : Prop where
  value : ∀ cs d rest, readValue fuel cs = .ok (d, rest) → d.isPart 0
  items : ∀ cs items rest, readItems fuel cs = .ok (items, rest) → ∀ item ∈ items, item.isPart 0
  pairs : ∀ cs pairs rest, readPairs fuel cs = .ok (pairs, rest) → ∀ pair ∈ pairs, pair.2.isPart 0

/-- A value is a text, a name, a number, or put together of values that are read with less fuel. -/
lemma ReadsParts.value_succ {fuel : Nat} (h : ReadsParts fuel) {cs rest : Text} {d : Datum}
    (hread : readValue (fuel + 1) cs = .ok (d, rest)) : d.isPart 0 := by
  unfold readValue at hread
  split at hread
  · obtain ⟨⟨s, rest'⟩, -, hok⟩ := Outcome.bind_eq_ok_iff.mp hread
    cases hok
    rfl
  · split at hread
    · cases hread
      rfl
    · obtain ⟨⟨items, rest'⟩, hitems, hok⟩ := Outcome.bind_eq_ok_iff.mp hread
      cases hok
      exact Datum.areParts_iff.mpr (h.items _ _ _ hitems)
  · split at hread
    · cases hread
      rfl
    · obtain ⟨⟨pairs, rest'⟩, hpairs, hok⟩ := Outcome.bind_eq_ok_iff.mp hread
      cases hok
      exact Datum.entriesAreParts_ofPairs (h.pairs _ _ _ hpairs)
  · split at hread
    · next result hname =>
      cases hread
      exact isPart_of_readName? hname
    · exact isPart_of_readNumber hread

/-- Items are read with less fuel, the first one and the others. -/
lemma ReadsParts.items_succ {fuel : Nat} (h : ReadsParts fuel) {cs rest : Text} {items : List Datum}
    (hread : readItems (fuel + 1) cs = .ok (items, rest)) : ∀ item ∈ items, item.isPart 0 := by
  unfold readItems at hread
  obtain ⟨⟨item, rest'⟩, hitem, hread⟩ := Outcome.bind_eq_ok_iff.mp hread
  dsimp only at hread
  have hfirst := h.value _ _ _ hitem
  split at hread
  · cases hread
    exact List.forall_mem_singleton.mpr hfirst
  · obtain ⟨⟨items', rest''⟩, hitems, hok⟩ := Outcome.bind_eq_ok_iff.mp hread
    cases hok
    exact List.forall_mem_cons.mpr ⟨hfirst, h.items _ _ _ hitems⟩
  · cases hread

/-- Entries are read with less fuel, the first one and the others. -/
lemma ReadsParts.pairs_succ {fuel : Nat} (h : ReadsParts fuel) {cs rest : Text}
    {pairs : List (Atom × Datum)} (hread : readPairs (fuel + 1) cs = .ok (pairs, rest)) :
    ∀ pair ∈ pairs, pair.2.isPart 0 := by
  unfold readPairs at hread
  split at hread
  · obtain ⟨⟨key, rest'⟩, -, hread⟩ := Outcome.bind_eq_ok_iff.mp hread
    dsimp only at hread
    split at hread
    · obtain ⟨⟨value, rest''⟩, hvalue, hread⟩ := Outcome.bind_eq_ok_iff.mp hread
      dsimp only at hread
      have hfirst := h.value _ _ _ hvalue
      split at hread
      · cases hread
        exact List.forall_mem_singleton.mpr hfirst
      · obtain ⟨⟨pairs', rest'''⟩, hpairs, hok⟩ := Outcome.bind_eq_ok_iff.mp hread
        cases hok
        exact List.forall_mem_cons.mpr ⟨hfirst, h.pairs _ _ _ hpairs⟩
      · cases hread
    · cases hread
  · cases hread

/-- Whatever is read contains no knot and mentions no strand. -/
lemma readsParts (fuel : Nat) : ReadsParts fuel := by
  induction fuel with
  | zero =>
    refine ⟨?_, ?_, ?_⟩
    · intro cs d rest h
      unfold readValue at h
      cases h
    · intro cs items rest h
      unfold readItems at h
      cases h
    · intro cs pairs rest h
      unfold readPairs at h
      cases h
  | succ fuel ih =>
    exact ⟨fun _ _ _ => ih.value_succ, fun _ _ _ => ih.items_succ, fun _ _ _ => ih.pairs_succ⟩

/-- The value of a JSON text contains no knot and mentions no strand. -/
theorem isPart_of_parse {text : Text} {d : Datum} (h : parse text = .ok d) : d.isPart 0 := by
  unfold parse at h
  split at h
  · next value hvalue =>
    cases h
    unfold readAll at hvalue
    split at hvalue
    · cases hvalue
    · obtain ⟨⟨value, rest⟩, hread, hok⟩ := Outcome.bind_eq_ok_iff.mp hvalue
      dsimp only at hok
      split at hok
      · cases hok
        exact (readsParts _).value _ _ _ hread
      · cases hok
  · cases h
  · cases h

end Json

/-! ## YAML -/

namespace Yaml.Content

/-- All values that are known are parts. -/
def KnowsParts (n : Nat) (known : Array (Option Datum)) : Prop :=
  ∀ (id : Nat) (d : Datum), known[id]?.join = some d → d.isPart n

/-- What a computation gives when all values that are known are parts, which they stay. -/
def Gives {α : Type} (n : Nat) (x : StateM (Array (Option Datum)) α) (P : α → Prop) : Prop :=
  ∀ known, KnowsParts n known → P (x known).1 ∧ KnowsParts n (x known).2

section Gives

variable {n : Nat} {α β : Type} {P : α → Prop} {Q : β → Prop}

/-- A value is given as it is. -/
lemma gives_pure {a : α} (h : P a) : Gives n (pure a) P :=
  fun _ hknown => ⟨h, hknown⟩

/-- What a computation gives has whatever follows of it. -/
lemma Gives.imp {P' : α → Prop} {x : StateM (Array (Option Datum)) α} (h : Gives n x P)
    (hP : ∀ a, P a → P' a) : Gives n x P' :=
  fun known hknown => (h known hknown).imp_left (hP _)

/-- What two computations give one after the other. -/
lemma Gives.bind {x : StateM (Array (Option Datum)) α} {f : α → StateM (Array (Option Datum)) β}
    (hx : Gives n x P) (hf : ∀ a, P a → Gives n (f a) Q) : Gives n (x >>= f) Q := by
  intro known hknown
  obtain ⟨ha, hknown'⟩ := hx known hknown
  exact hf _ ha _ hknown'

/-- The values that are known are given. -/
lemma gives_get : Gives n get (KnowsParts n) :=
  fun _ hknown => ⟨hknown, hknown⟩

/-- A part may become known. -/
lemma gives_remember {d : Datum} (hd : d.isPart n) (id : NodeId) :
    Gives n (modify fun known => known.setIfInBounds id (some d)) fun _ => True := by
  refine fun known hknown => ⟨trivial, fun id' d' hd' => ?_⟩
  change (known.setIfInBounds id (some d))[id']?.join = some d' at hd'
  rw [Array.getElem?_setIfInBounds] at hd'
  split at hd'
  · split at hd'
    · cases hd'
      exact hd
    · cases hd'
  · exact hknown id' d' hd'

/-- What a computation for every member of a list gives. -/
lemma gives_mapM {f : α → StateM (Array (Option Datum)) β} {as : List α}
    (hf : ∀ a ∈ as, Gives n (f a) Q) :
    Gives n (as.mapM f) fun bs => bs.length = as.length ∧ ∀ b ∈ bs, Q b := by
  induction as with
  | nil => exact gives_pure ⟨rfl, fun _ h => absurd h List.not_mem_nil⟩
  | cons a as ih =>
    rw [List.forall_mem_cons] at hf
    rw [List.mapM_cons]
    refine hf.1.bind fun b hb => (ih hf.2).bind fun bs hbs => gives_pure ⟨?_, ?_⟩
    · rw [List.length_cons, List.length_cons, hbs.1]
    · exact List.forall_mem_cons.mpr ⟨hb, hbs.2⟩

end Gives

variable {n : Nat} {part : NodeId → StateM (Array (Option Datum)) Datum}

/-- A value whose parts are put in is a part, and a strand if it has parts. -/
lemma gives_toDatum (hpart : ∀ id, Gives n (part id) fun d => d.isPart n) (content : Content) :
    Gives n (content.toDatum part) fun d => d.isPart n ∧ (content.parts ≠ [] → d.isStrand) := by
  cases content with
  | atom key => exact gives_pure ⟨rfl, fun h => absurd rfl h⟩
  | set elements => exact gives_pure ⟨rfl, fun h => absurd rfl h⟩
  | list items =>
    have hitems := gives_mapM fun id (_ : id ∈ items) => hpart id
    exact hitems.bind fun ds hds => gives_pure ⟨Datum.areParts_iff.mpr hds.2, fun _ => rfl⟩
  | map entries =>
    have hentry : ∀ entry ∈ entries, Gives n
        (do return (entry.1.atom, ← part entry.2) : StateM (Array (Option Datum)) (Atom × Datum))
        fun entry => entry.2.isPart n :=
      fun entry _ => (hpart entry.2).bind fun d hd => gives_pure hd
    exact (gives_mapM hentry).bind fun fields hfields =>
      gives_pure ⟨Datum.entriesAreParts_iff.mpr hfields.2, fun _ => rfl⟩
  | pair first second =>
    refine (hpart first).bind fun d hd => (hpart second).bind fun d' hd' => gives_pure ⟨?_, ?_⟩
    · rw [Datum.isPart, Bool.and_eq_true]
      exact ⟨hd, hd'⟩
    · exact fun _ => rfl

/-- The value of a number is a part that mentions the strands. -/
lemma gives_datumOf (contents : Array (Option Content)) (strands : List NodeId) (depth : Nat)
    (id : NodeId) :
    Gives strands.length (datumOf contents strands depth id) fun d => d.isPart strands.length := by
  induction depth generalizing id with
  | zero => exact gives_pure rfl
  | succ depth ih =>
    unfold datumOf
    refine gives_get.bind fun known hknown => ?_
    split
    · next place hplace =>
      have hlt : place < strands.length := by
        rw [List.idxOf?, List.findIdx?_eq_some_iff_getElem] at hplace
        exact hplace.1
      exact gives_pure (decide_eq_true hlt)
    · next d _ hd => exact gives_pure (hknown id d hd)
    · refine (gives_toDatum ih _).bind fun d hd => ?_
      exact (gives_remember hd.1 id).bind fun _ _ => gives_pure hd.1

/-- A value that contains itself has parts. -/
lemma parts_ne_nil_of_mem_knotted {contents : Array (Option Content)} {id : NodeId}
    (h : id ∈ knotted contents) :
    ((contents[id]?.join).getD (.atom ⟨.null, none⟩)).parts ≠ [] := by
  have hreach : ∀ fuel (found : Array Bool), reach contents fuel [] found = found := by
    intro fuel found
    cases fuel with
    | zero => rfl
    | succ fuel => rfl
  intro hnil
  have hparts : ((contents[id]?.join).map parts).getD [] = [] := by
    cases hcontent : contents[id]?.join with
    | none => rfl
    | some content =>
      rw [hcontent] at hnil
      exact hnil
  have hfound := (List.mem_filter.mp h).2
  dsimp only at hfound
  rw [hparts, hreach, Array.getD_eq_getD_getElem?, Array.getElem?_replicate] at hfound
  split at hfound
  · cases hfound
  · cases hfound

/-- The strands and the value of a number are parts that mention the strands. -/
lemma gives_strands {contents : Array (Option Content)} {ids : List NodeId}
    (hids : ∀ id ∈ ids, ((contents[id]?.join).getD (.atom ⟨.null, none⟩)).parts ≠ [])
    (depth : Nat) (root : NodeId) :
    Gives ids.length
      (do
        let strands ← ids.mapM fun id =>
          ((contents[id]?.join).getD (.atom ⟨.null, none⟩)).toDatum (datumOf contents ids depth)
        return (strands, ← datumOf contents ids depth root))
      fun values => Datum.AreStrands values.1 ∧ values.2.isPart values.1.length := by
  have hpart := gives_datumOf contents ids depth
  have hstrand : ∀ id ∈ ids, Gives ids.length
      (((contents[id]?.join).getD (.atom ⟨.null, none⟩)).toDatum (datumOf contents ids depth))
      fun s => s.isPart ids.length ∧ s.isStrand :=
    fun id hid => (gives_toDatum hpart _).imp fun s hs => ⟨hs.1, hs.2 (hids id hid)⟩
  refine (gives_mapM hstrand).bind fun strands hs => (hpart root).bind fun d hd => gives_pure ?_
  obtain ⟨hlength, hall⟩ := hs
  rw [← hlength] at hall hd
  refine ⟨⟨?_, ?_⟩, hd⟩
  · exact List.all_eq_true.mpr fun s hmem => (hall s hmem).2
  · exact Datum.areParts_iff.mpr fun s hmem => (hall s hmem).1

end Yaml.Content

namespace Yaml

/-- The value of a document is decoded. -/
lemma isDecoded_of_value {c : Composition} {d : Datum} (h : c.value = .ok d) : d.IsDecoded := by
  obtain ⟨contents, -, h⟩ := Outcome.bind_eq_ok_iff.mp h
  dsimp only at h
  generalize hids : (if c.knotted then Content.knotted contents else []) = ids at h
  have hparts : ∀ id ∈ ids, ((contents[id]?.join).getD (.atom ⟨.null, none⟩)).parts ≠ [] := by
    intro id hid
    rw [← hids] at hid
    split at hid
    · exact Content.parts_ne_nil_of_mem_knotted hid
    · exact absurd hid List.not_mem_nil
  have hempty : Content.KnowsParts ids.length (Array.replicate contents.size none) := by
    intro id d hd
    rw [Array.getElem?_replicate] at hd
    split at hd
    · cases hd
    · cases hd
  have hvalues := (Content.gives_strands hparts (contents.size + 1) c.root _ hempty).1
  -- without strands there is nothing to close
  have hclosed : ∀ values : List Datum × Datum,
      Datum.AreStrands values.1 ∧ values.2.isPart values.1.length →
      (if values.1.isEmpty then values.2 else values.2.close values.1).IsDecoded := by
    rintro ⟨strands, d⟩ ⟨hstrands, hd⟩
    cases strands with
    | nil => exact Datum.isDecoded_of_isPart hd
    | cons s strands => exact ⟨s :: strands, d, hstrands, hd, rfl⟩
  cases h
  exact hclosed _ hvalues

/-- The value of a YAML text is decoded. -/
theorem isDecoded_of_parse {text : Text} {d : Datum} (h : parse text = .ok d) : d.IsDecoded := by
  unfold parse at h
  obtain ⟨composition?, -, h⟩ := Outcome.bind_eq_ok_iff.mp h
  cases composition? with
  | none =>
    cases h
    exact Datum.isDecoded_of_isPart rfl
  | some c => exact isDecoded_of_value h

end Yaml

namespace Format

/-- A sheet of lines contains no knot and mentions no strand. -/
lemma isPart_parseLines (text : Text) : (parseLines text).isPart 0 := by
  refine Datum.entriesAreParts_iff.mpr (List.forall_mem_singleton.mpr ?_)
  refine Datum.areParts_iff.mpr (List.forall_mem_map.mpr fun line _ => ?_)
  rfl

/-- A format that makes only decoded values. -/
def Decodes (f : Format) : Prop :=
  ∀ text d, f.parse text = .ok d → d.IsDecoded

/-- All formats make decoded values only. -/
theorem decodes_of_mem {f : Format} (h : f ∈ [yaml, json, lines]) : f.Decodes := by
  intro text d hparse
  rcases h with _ | ⟨_, _ | ⟨_, _ | ⟨_, h⟩⟩⟩
  · exact Yaml.isDecoded_of_parse hparse
  · exact Datum.isDecoded_of_isPart (Json.isPart_of_parse hparse)
  · cases hparse
    exact Datum.isDecoded_of_isPart (isPart_parseLines text)
  · cases h

end Format

end StockFlow
