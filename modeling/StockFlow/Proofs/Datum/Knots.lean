import Mathlib.Data.List.Forall2
import StockFlow.Sheet.Collection
/-!
# Values that contain themselves

A part of a knot mentions the strands of the knot, and is a value by itself once it is closed with
them. What mentions none of them is *free*, and is that value already (`Datum.close_of_isFree`).
Whatever is closed is free, and so are the parts of what is free.
-/

namespace StockFlow

namespace Entries

/-- Setting a value under a key leaves some entry. -/
lemma insert_ne_nil (entries : Entries) (key : Atom) (value : Datum) :
    insert entries key value ≠ [] := by
  cases entries with
  | nil => exact List.cons_ne_nil _ _
  | cons entry entries =>
    unfold insert
    split
    · exact List.cons_ne_nil _ _
    · exact List.cons_ne_nil _ _

/-- Setting a value under a key that is present changes no key. -/
lemma map_fst_insert {entries : Entries} {key : Atom} (h : (find? entries key).isSome)
    (value : Datum) : (insert entries key value).map Prod.fst = entries.map Prod.fst := by
  induction entries with
  | nil => cases h
  | cons entry entries ih =>
    obtain ⟨k, v⟩ := entry
    unfold insert
    by_cases hk : k.sameKey key
    · rw [if_pos hk, List.map_cons, List.map_cons]
    · have hrest : (find? entries key).isSome := by
        unfold find? at h ⊢
        rw [List.find?_cons] at h
        simpa [hk] using h
      rw [if_neg hk, List.map_cons, List.map_cons, ih hrest]

/-- What is set under a text is what is under it. -/
lemma get_insert (entries : Entries) (key : Text) (value : Datum) :
    get (insert entries (.text key) value) key = value := by
  unfold get
  rw [find?_insert_text, Option.getD_some]

/-- Setting a value under a text changes nothing under another one. -/
lemma get_insert_of_ne (entries : Entries) {key other : Text} (hne : key ≠ other)
    (value : Datum) : get (insert entries (.text key) value) other = get entries other := by
  unfold get
  rw [find?_insert_text_of_ne entries hne]

/-- A key that is present keeps its place, so setting another one before or after makes no
difference. -/
lemma insert_comm {entries : Entries} {key other : Text} {value value' : Datum}
    (hkey : (find? entries (.text key)).isSome) (hne : key ≠ other) :
    insert (insert entries (.text key) value) (.text other) value' =
      insert (insert entries (.text other) value') (.text key) value := by
  induction entries with
  | nil => cases hkey
  | cons entry entries ih =>
    obtain ⟨a, v⟩ := entry
    by_cases hfirst : a.sameKey (.text key)
    · have hother : ¬ a.sameKey (.text other) := by
        rw [Atom.sameKey_text_iff] at hfirst ⊢
        rw [hfirst]
        simpa using hne
      simp [insert, hfirst, hother]
    · have hrest : (find? entries (.text key)).isSome := by
        simpa [find?, hfirst] using hkey
      by_cases hother : a.sameKey (.text other)
      · simp [insert, hfirst, hother]
      · simp [insert, hfirst, hother, ih hrest]

/-- A key with something under it is present. -/
lemma isSome_find?_of_get_ne_null {entries : Entries} {key : Text} (h : get entries key ≠ .null) :
    (find? entries (.text key)).isSome := by
  unfold get at h
  cases hfind : find? entries (.text key) with
  | some value => rfl
  | none =>
    rw [hfind] at h
    exact absurd rfl h

end Entries

namespace Datum

/-! ## Free values -/

mutual

/-- Whether a value mentions no strand of a knot around it. -/
def isFree : Datum → Bool
  | .list items => areFree items
  | .map entries => entriesAreFree entries
  | .pair first second => first.isFree && second.isFree
  | .strand _ => false
  | .knot _ _ => true
  | .atom _ => true
  | .set _ => true

/-- Whether all items of a list are free. -/
def areFree : List Datum → Bool
  | [] => true
  | item :: rest => item.isFree && areFree rest

/-- Whether the values of all entries of a mapping are free. -/
def entriesAreFree : List (Atom × Datum) → Bool
  | [] => true
  | (_, value) :: rest => value.isFree && entriesAreFree rest

end

mutual

/-- A free value is a value by itself. -/
lemma close_of_isFree (strands : List Datum) : (d : Datum) → d.isFree → d.close strands = d
  | .atom _, _ => rfl
  | .list items, h => by
    rw [close, closeItems_of_areFree strands items h]
  | .map entries, h => by
    rw [close, closeEntries_of_entriesAreFree strands entries h]
  | .set _, _ => rfl
  | .pair first second, h => by
    rw [isFree, Bool.and_eq_true] at h
    rw [close, close_of_isFree strands first h.1, close_of_isFree strands second h.2]
  | .knot _ _, _ => rfl
  | .strand _, h => by cases h

/-- Free items are values by themselves. -/
lemma closeItems_of_areFree (strands : List Datum) :
    (items : List Datum) → areFree items → closeItems strands items = items
  | [], _ => rfl
  | item :: rest, h => by
    rw [areFree, Bool.and_eq_true] at h
    rw [closeItems, close_of_isFree strands item h.1, closeItems_of_areFree strands rest h.2]

/-- Free entries are values by themselves. -/
lemma closeEntries_of_entriesAreFree (strands : List Datum) :
    (entries : List (Atom × Datum)) → entriesAreFree entries →
      closeEntries strands entries = entries
  | [], _ => rfl
  | (_, value) :: rest, h => by
    rw [entriesAreFree, Bool.and_eq_true] at h
    rw [closeEntries, close_of_isFree strands value h.1,
      closeEntries_of_entriesAreFree strands rest h.2]

end

mutual

/-- A closed value is free. -/
lemma isFree_close (strands : List Datum) : (d : Datum) → (d.close strands).isFree
  | .atom _ => rfl
  | .list items => areFree_closeItems strands items
  | .map entries => entriesAreFree_closeEntries strands entries
  | .set _ => rfl
  | .pair first second => by
    rw [close, isFree, Bool.and_eq_true]
    exact ⟨isFree_close strands first, isFree_close strands second⟩
  | .knot _ _ => rfl
  | .strand _ => rfl

/-- Closed items are free. -/
lemma areFree_closeItems (strands : List Datum) :
    (items : List Datum) → areFree (closeItems strands items)
  | [] => rfl
  | item :: rest => by
    rw [closeItems, areFree, Bool.and_eq_true]
    exact ⟨isFree_close strands item, areFree_closeItems strands rest⟩

/-- Closed entries are free. -/
lemma entriesAreFree_closeEntries (strands : List Datum) :
    (entries : List (Atom × Datum)) → entriesAreFree (closeEntries strands entries)
  | [] => rfl
  | (_, value) :: rest => by
    rw [closeEntries, entriesAreFree, Bool.and_eq_true]
    exact ⟨isFree_close strands value, entriesAreFree_closeEntries strands rest⟩

end

/-- Items are free if each of them is. -/
lemma areFree_iff {items : List Datum} : areFree items ↔ ∀ item ∈ items, item.isFree := by
  induction items with
  | nil => exact ⟨fun _ _ h => absurd h List.not_mem_nil, fun _ => rfl⟩
  | cons item items ih => rw [areFree, Bool.and_eq_true, List.forall_mem_cons, ih]

/-- What is under a key of free entries is free. -/
lemma isFree_get {entries : Entries} (h : entriesAreFree entries) (key : Text) :
    (Entries.get entries key).isFree := by
  induction entries with
  | nil => rfl
  | cons entry rest ih =>
    obtain ⟨k, v⟩ := entry
    rw [entriesAreFree, Bool.and_eq_true] at h
    unfold Entries.get Entries.find? at ih ⊢
    rw [List.find?_cons]
    split
    · exact h.1
    · exact ih h.2

/-- Free entries stay free with another free value among them. -/
lemma entriesAreFree_insert {entries : Entries} (h : entriesAreFree entries) (key : Atom)
    {value : Datum} (hvalue : value.isFree) :
    entriesAreFree (Entries.insert entries key value) := by
  induction entries with
  | nil =>
    rw [Entries.insert, entriesAreFree, hvalue]
    rfl
  | cons entry rest ih =>
    obtain ⟨k, v⟩ := entry
    rw [entriesAreFree, Bool.and_eq_true] at h
    unfold Entries.insert
    split
    · rw [entriesAreFree, Bool.and_eq_true]
      exact ⟨hvalue, h.2⟩
    · rw [entriesAreFree, Bool.and_eq_true]
      exact ⟨h.1, ih h.2⟩

/-! ## Closed parts -/

/-- The items of a strand are closed one by one. -/
lemma closeItems_eq_map (strands items : List Datum) :
    closeItems strands items = items.map (close strands) := by
  induction items with
  | nil => rfl
  | cons item items ih => rw [closeItems, ih, List.map_cons]

/-- The entries of a strand are closed one by one. -/
lemma closeEntries_eq_map (strands : List Datum) (entries : Entries) :
    closeEntries strands entries = entries.map fun entry => (entry.1, entry.2.close strands) := by
  induction entries with
  | nil => rfl
  | cons entry entries ih =>
    obtain ⟨k, v⟩ := entry
    rw [closeEntries, ih, List.map_cons]

/-- Free items are not changed by closing them. -/
lemma map_close_of_isFree {items : List Datum} (h : ∀ item ∈ items, item.isFree)
    (strands : List Datum) : items.map (close strands) = items := by
  rw [← closeItems_eq_map]
  exact closeItems_of_areFree strands items (areFree_iff.mpr h)

/-- What is under a key of a strand is closed with it. -/
lemma find?_closeEntries (strands : List Datum) (entries : Entries) (key : Atom) :
    Entries.find? (closeEntries strands entries) key =
      (Entries.find? entries key).map (close strands) := by
  unfold Entries.find?
  rw [closeEntries_eq_map, List.find?_map, Option.map_map, Option.map_map]
  rfl

/-- What is under a text of a strand is closed with it. -/
lemma get_closeEntries (strands : List Datum) (entries : Entries) (key : Text) :
    Entries.get (closeEntries strands entries) key = (Entries.get entries key).close strands := by
  unfold Entries.get
  rw [find?_closeEntries]
  cases Entries.find? entries (.text key) with
  | none => rfl
  | some value => rfl

/-! ## Values by themselves -/

/-- Whether a value can be a strand of a knot. -/
def isStrand : Datum → Bool
  | .list _ | .map _ | .pair _ _ => true
  | _ => false

/-- Whether a value is one by itself: it mentions strands only inside knots, and if it is a knot, its
strands are lists, mappings and pairs. -/
def isClosed : Datum → Bool
  | .knot strands _ => strands.all isStrand
  | d => d.isFree

/-- A value by itself is free. -/
lemma isFree_of_isClosed {d : Datum} (h : d.isClosed) : d.isFree := by
  cases d with
  | knot strands place => rfl
  | _ => exact h

/-- The outermost layer of a free value is free. -/
lemma isFree_opened {d : Datum} (h : d.isFree) : d.opened.isFree := by
  cases d with
  | knot strands place => exact isFree_close strands _
  | _ => exact h

/-- The entries of a free value are free. -/
lemma entriesAreFree_of_fields? {d : Datum} (h : d.isFree) {fields : Entries}
    (hfields : d.fields? = some fields) : entriesAreFree fields := by
  have hopened := isFree_opened h
  unfold fields? at hfields
  split at hfields
  · next entries hmap =>
    cases hfields
    rw [hmap] at hopened
    exact hopened
  · cases hfields

/-- A part of a value is an atom, an item of a list, or one of the two of a pair. -/
lemma mem_parts_cases {d : Datum} {items : List Datum} (hitems : d.parts? = some items)
    {item : Datum} (hitem : item ∈ items) : (∃ a, item = .atom a) ∨
      (∃ items', d = .list items' ∧ item ∈ items') ∨
      ∃ first second, d = .pair first second ∧ (item = first ∨ item = second) := by
  cases d with
  | list items' =>
    cases hitems
    exact Or.inr (Or.inl ⟨items, rfl, hitem⟩)
  | map entries =>
    cases hitems
    obtain ⟨entry, -, rfl⟩ := List.mem_map.mp hitem
    exact Or.inl ⟨entry.1, rfl⟩
  | set elements =>
    cases hitems
    obtain ⟨a, -, rfl⟩ := List.mem_map.mp hitem
    exact Or.inl ⟨a, rfl⟩
  | pair first second =>
    cases hitems
    exact Or.inr (Or.inr ⟨first, second, rfl, List.mem_pair.mp hitem⟩)
  | atom a =>
    cases a with
    | text t =>
      cases hitems
      obtain ⟨c, -, rfl⟩ := List.mem_map.mp hitem
      exact Or.inl ⟨.text [c], rfl⟩
    | bytes bs =>
      cases hitems
      obtain ⟨b, -, rfl⟩ := List.mem_map.mp hitem
      exact Or.inl ⟨.int b.toNat, rfl⟩
    | _ => cases hitems
  | knot strands place => cases hitems
  | strand place => cases hitems

/-- The parts of a free value are free. -/
lemma isFree_of_mem_parts {d : Datum} (h : d.isFree) {items : List Datum}
    (hitems : d.parts? = some items) : ∀ item ∈ items, item.isFree := by
  intro item hitem
  rcases mem_parts_cases hitems hitem with
    ⟨a, rfl⟩ | ⟨items', rfl, hmem⟩ | ⟨first, second, rfl, hmem⟩
  · rfl
  · exact areFree_iff.mp h item hmem
  · rw [isFree, Bool.and_eq_true] at h
    rcases hmem with rfl | rfl
    · exact h.1
    · exact h.2

/-- What a value gives is none of its parts or all of them. -/
lemma givenElements_eq_ok_iff {d : Datum} {items : List Datum} :
    d.givenElements = .ok items ↔
      d.isTruthy = false ∧ items = [] ∨ d.isTruthy = true ∧ d.elements? = some items := by
  unfold givenElements
  cases d.isTruthy with
  | false =>
    simp only [Bool.false_eq_true, if_false, Except.ok.injEq, true_and, false_and, or_false]
    exact eq_comm
  | true =>
    rw [if_pos rfl]
    cases d.elements? with
    | none => simp
    | some items' => simp

/-- What a free value gives is free. -/
lemma isFree_of_mem_givenElements {d : Datum} (h : d.isFree) {items : List Datum}
    (hitems : d.givenElements = .ok items) : ∀ item ∈ items, item.isFree := by
  rcases givenElements_eq_ok_iff.mp hitems with ⟨-, rfl⟩ | ⟨-, hparts⟩
  · exact fun _ hitem => absurd hitem List.not_mem_nil
  · exact isFree_of_mem_parts (isFree_opened h) hparts

/-- A list gives its items. -/
lemma givenElements_list (items : List Datum) : (list items).givenElements = .ok items := by
  cases items with
  | nil => rfl
  | cons item items => rfl

/-- A mapping gives its keys. -/
lemma givenElements_map (entries : Entries) :
    (map entries).givenElements = .ok ((entries.map Prod.fst).map atom) := by
  rw [List.map_map]
  cases entries with
  | nil => rfl
  | cons entry entries => rfl

end Datum

end StockFlow
