import StockFlow.Proofs.Datum.Layers
import StockFlow.Proofs.Outcome
/-!
# Decoded values

What a reader makes of a text is put together without knots first: it and the strands that it mentions
contain none (`Datum.isPart`). Closed with the strands it is the decoded value (`Datum.IsDecoded`).
Every decoded value is a value by itself, and what is under its keys and what it gives is decoded
again.
-/

namespace StockFlow

namespace Datum

/-! ## Parts -/

mutual

/-- Whether a value contains no knot and mentions the first `n` strands only. -/
def isPart (n : Nat) : Datum → Bool
  | .list items => areParts n items
  | .map entries => entriesAreParts n entries
  | .pair first second => first.isPart n && second.isPart n
  | .strand place => place < n
  | .knot _ _ => false
  | .atom _ => true
  | .set _ => true

/-- Whether all items of a list are parts. -/
def areParts (n : Nat) : List Datum → Bool
  | [] => true
  | item :: rest => item.isPart n && areParts n rest

/-- Whether the values of all entries of a mapping are parts. -/
def entriesAreParts (n : Nat) : List (Atom × Datum) → Bool
  | [] => true
  | (_, value) :: rest => value.isPart n && entriesAreParts n rest

end

mutual

/-- A part that mentions no strand is free. -/
lemma isFree_of_isPart : (d : Datum) → d.isPart 0 → d.isFree
  | .atom _, _ => rfl
  | .list items, h => areFree_of_areParts items h
  | .map entries, h => entriesAreFree_of_entriesAreParts entries h
  | .set _, _ => rfl
  | .pair first second, h => by
    rw [isPart, Bool.and_eq_true] at h
    rw [isFree, Bool.and_eq_true]
    exact ⟨isFree_of_isPart first h.1, isFree_of_isPart second h.2⟩
  | .knot _ _, _ => rfl
  | .strand _, h => absurd (of_decide_eq_true h) (Nat.not_lt_zero _)

/-- Items that mention no strand are free. -/
lemma areFree_of_areParts : (items : List Datum) → areParts 0 items → areFree items
  | [], _ => rfl
  | item :: rest, h => by
    rw [areParts, Bool.and_eq_true] at h
    rw [areFree, Bool.and_eq_true]
    exact ⟨isFree_of_isPart item h.1, areFree_of_areParts rest h.2⟩

/-- Entries that mention no strand are free. -/
lemma entriesAreFree_of_entriesAreParts :
    (entries : List (Atom × Datum)) → entriesAreParts 0 entries → entriesAreFree entries
  | [], _ => rfl
  | (_, value) :: rest, h => by
    rw [entriesAreParts, Bool.and_eq_true] at h
    rw [entriesAreFree, Bool.and_eq_true]
    exact ⟨isFree_of_isPart value h.1, entriesAreFree_of_entriesAreParts rest h.2⟩

end

variable {n : Nat}

/-- Items are parts if each of them is. -/
lemma areParts_iff {items : List Datum} : areParts n items ↔ ∀ item ∈ items, item.isPart n := by
  induction items with
  | nil => exact ⟨fun _ _ h => absurd h List.not_mem_nil, fun _ => rfl⟩
  | cons item items ih => rw [areParts, Bool.and_eq_true, List.forall_mem_cons, ih]

/-- Entries are parts if the value of each of them is. -/
lemma entriesAreParts_iff {entries : Entries} :
    entriesAreParts n entries ↔ ∀ entry ∈ entries, entry.2.isPart n := by
  induction entries with
  | nil => exact ⟨fun _ _ h => absurd h List.not_mem_nil, fun _ => rfl⟩
  | cons entry entries ih => rw [entriesAreParts, Bool.and_eq_true, List.forall_mem_cons, ih]

/-- What is under a key of a mapping that is a part is a part. -/
lemma isPart_get {entries : Entries} (h : entriesAreParts n entries) (key : Text) :
    (Entries.get entries key).isPart n := by
  unfold Entries.get Entries.find?
  cases hfind : List.find? (fun entry => entry.1.sameKey (.text key)) entries with
  | none => rfl
  | some entry => exact entriesAreParts_iff.mp h entry (List.mem_of_find?_eq_some hfind)

/-- Entries that are parts stay parts with another one among them. -/
lemma entriesAreParts_insert {entries : Entries} (h : entriesAreParts n entries) (key : Atom)
    {value : Datum} (hvalue : value.isPart n) :
    entriesAreParts n (Entries.insert entries key value) := by
  induction entries with
  | nil =>
    rw [Entries.insert, entriesAreParts, hvalue]
    rfl
  | cons entry rest ih =>
    obtain ⟨k, v⟩ := entry
    rw [entriesAreParts, Bool.and_eq_true] at h
    unfold Entries.insert
    split
    · rw [entriesAreParts, Bool.and_eq_true]
      exact ⟨hvalue, h.2⟩
    · rw [entriesAreParts, Bool.and_eq_true]
      exact ⟨h.1, ih h.2⟩

/-- Pairs whose values are parts make a mapping that is a part. -/
lemma entriesAreParts_ofPairs {pairs : List (Atom × Datum)} (h : ∀ pair ∈ pairs, pair.2.isPart n) :
    entriesAreParts n (Entries.ofPairs pairs) := by
  have hfold : ∀ entries : Entries, entriesAreParts n entries →
      entriesAreParts n
        (pairs.foldl (fun entries pair => Entries.insert entries pair.1 pair.2) entries) := by
    induction pairs with
    | nil => exact fun entries hentries => hentries
    | cons pair pairs ih =>
      rw [List.forall_mem_cons] at h
      exact fun entries hentries => ih h.2 _ (entriesAreParts_insert hentries pair.1 h.1)
  exact hfold [] rfl

/-- The elements of a part are parts. -/
lemma isPart_of_mem_elements {d : Datum} (h : d.isPart n) {items : List Datum}
    (hitems : d.elements? = some items) : ∀ item ∈ items, item.isPart n := by
  intro item hitem
  have hparts : d.parts? = some items := by
    cases d with
    | knot strands place => cases h
    | _ => exact hitems
  rcases mem_parts_cases hparts hitem with
    ⟨a, rfl⟩ | ⟨items', rfl, hmem⟩ | ⟨first, second, rfl, hmem⟩
  · rfl
  · exact areParts_iff.mp h item hmem
  · rw [isPart, Bool.and_eq_true] at h
    rcases hmem with rfl | rfl
    · exact h.1
    · exact h.2

/-- What a part gives is parts. -/
lemma isPart_of_mem_givenElements {d : Datum} (h : d.isPart n) {items : List Datum}
    (hitems : d.givenElements = .ok items) : ∀ item ∈ items, item.isPart n := by
  rcases givenElements_eq_ok_iff.mp hitems with ⟨-, rfl⟩ | ⟨-, helements⟩
  · exact fun _ hitem => absurd hitem List.not_mem_nil
  · exact isPart_of_mem_elements h helements

/-- The entries of a mapping that is a part are parts. -/
lemma entriesAreParts_of_fields? {d : Datum} (h : d.isPart n) {fields : Entries}
    (hfields : d.fields? = some fields) : entriesAreParts n fields := by
  cases d with
  | map entries =>
    cases hfields
    exact h
  | knot strands place => cases h
  | _ => cases hfields

/-! ## Decoded values -/

/-- Lists, mappings and pairs that mention only each other and contain no knot. -/
structure AreStrands (strands : List Datum) : Prop where
  all_isStrand : strands.all isStrand
  areParts : areParts strands.length strands

/-- A value is decoded if it is a part closed with strands. -/
def IsDecoded (d : Datum) : Prop :=
  ∃ (strands : List Datum) (part : Datum),
    AreStrands strands ∧ part.isPart strands.length ∧ d = part.close strands

/-- There may be no strands at all. -/
lemma areStrands_nil : AreStrands [] := ⟨rfl, rfl⟩

/-- What takes the place of a part in a layer is a part. -/
lemma AreStrands.isPart_inLayer {strands : List Datum} (h : AreStrands strands) {d : Datum}
    (hd : d.isPart strands.length) : (d.inLayer strands).isPart strands.length := by
  cases d with
  | strand place =>
    change ((strands[place]?).getD .null).isPart strands.length
    cases hplace : strands[place]? with
    | none => rfl
    | some s => exact areParts_iff.mp h.areParts s (List.mem_of_getElem? hplace)
  | _ => exact hd

/-- A part that mentions no strand is decoded. -/
lemma isDecoded_of_isPart {d : Datum} (h : d.isPart 0) : d.IsDecoded :=
  ⟨[], d, areStrands_nil, h, (close_of_isFree [] d (isFree_of_isPart d h)).symm⟩

namespace IsDecoded

variable {d : Datum}

/-- A decoded value is a value by itself. -/
lemma isClosed (h : d.IsDecoded) : d.isClosed := by
  obtain ⟨strands, part, hstrands, hpart, rfl⟩ := h
  cases part with
  | strand place => exact hstrands.all_isStrand
  | knot inner place => cases hpart
  | list items => exact areFree_closeItems strands items
  | map entries => exact entriesAreFree_closeEntries strands entries
  | pair first second => exact isFree_close strands (.pair first second)
  | atom a => rfl
  | set elements => rfl

/-- What is under a key of a decoded mapping is decoded. -/
lemma get (h : d.IsDecoded) {fields : Entries} (hfields : d.fields? = some fields) (key : Text) :
    (Entries.get fields key).IsDecoded := by
  obtain ⟨strands, part, hstrands, hpart, rfl⟩ := h
  rw [fields?_inLayer hstrands.all_isStrand, Option.map_eq_some_iff] at hfields
  obtain ⟨fields', hfields', rfl⟩ := hfields
  have hparts := entriesAreParts_of_fields? (hstrands.isPart_inLayer hpart) hfields'
  exact ⟨strands, Entries.get fields' key, hstrands, isPart_get hparts key,
    get_closeEntries strands fields' key⟩

/-- What a decoded value gives is decoded. -/
lemma of_mem_givenElements (h : d.IsDecoded) {items : List Datum}
    (hitems : d.givenElements = .ok items) : ∀ item ∈ items, item.IsDecoded := by
  obtain ⟨strands, part, hstrands, hpart, rfl⟩ := h
  rw [givenElements_inLayer hstrands.all_isStrand, Outcome.map_eq_ok_iff] at hitems
  obtain ⟨items', hitems', rfl⟩ := hitems
  have hparts := isPart_of_mem_givenElements (hstrands.isPart_inLayer hpart) hitems'
  rw [List.forall_mem_map]
  exact fun item hitem => ⟨strands, item, hstrands, hparts item hitem, rfl⟩

end IsDecoded

end Datum

end StockFlow
