import Mathlib.Data.List.Perm.Subperm
import Mathlib.Logic.Relation
import StockFlow.Datum.Display
import StockFlow.Proofs.Datum.Decoded
/-!
# Values that cannot be written

A decoded value has a literal unless a whole number of more than 4300 digits is somewhere in it
(`Datum.IsDecoded.exists_long_of_literal?_eq_none`). The strands of a knot are no obstacle: each of them
is written once on every path, and a path has no more strands than the knot.
-/

namespace StockFlow

namespace Datum

/-! ## What is in a value -/

/-- A mapping contains its values, and whatever has elements contains those. -/
inductive Contains (whole : Datum) : Datum → Prop
  | value {entries : Entries} {entry : Atom × Datum} (fields : whole.fields? = some entries)
      (mem : entry ∈ entries) : Contains whole entry.2
  | element {items : List Datum} {item : Datum} (elements : whole.elements? = some items)
      (mem : item ∈ items) : Contains whole item

/-- A mapping contains its keys. -/
lemma Contains.key {whole : Datum} {entries : Entries} {entry : Atom × Datum}
    (fields : whole.fields? = some entries) (mem : entry ∈ entries) :
    whole.Contains (.atom entry.1) := by
  have helements : whole.elements? = some (entries.map fun entry => .atom entry.1) := by
    unfold fields? at fields
    split at fields
    · next entries' hopened =>
      cases fields
      rw [elements?, hopened]
      rfl
    · cases fields
  exact .element helements (List.mem_map_of_mem mem)

/-- A list contains its items. -/
lemma Contains.item {whole : Datum} {items : List Datum} {item : Datum}
    (list : whole.items? = some items) (mem : item ∈ items) : whole.Contains item := by
  have helements : whole.elements? = some items := by
    unfold items? at list
    split at list
    · next items' hopened =>
      cases list
      rw [elements?, hopened]
      rfl
    · cases list
  exact .element helements mem

/-- One value is somewhere in another one. -/
abbrev Includes (whole part : Datum) : Prop := Relation.ReflTransGen Contains whole part

/-- What has an element counts as given. -/
lemma isTruthy_of_mem_elements {d item : Datum} {items : List Datum}
    (hitems : d.elements? = some items) (hitem : item ∈ items) : d.isTruthy := by
  have hne : items ≠ [] := List.ne_nil_of_mem hitem
  unfold elements? at hitems
  unfold isTruthy
  generalize d.opened = outer at hitems ⊢
  cases outer with
  | atom a =>
    cases a with
    | text t => cases hitems; simpa using hne
    | bytes bs => cases hitems; simpa using hne
    | _ => cases hitems
  | list items' => cases hitems; simpa using hne
  | map entries => cases hitems; simpa using hne
  | set elements => cases hitems; simpa using hne
  | pair first second => rfl
  | knot strands place => cases hitems
  | strand place => cases hitems

/-- What is in a decoded value is decoded. -/
lemma IsDecoded.of_contains {whole part : Datum} (h : whole.IsDecoded) (hpart : whole.Contains part) :
    part.IsDecoded := by
  cases hpart with
  | @value entries entry hfields hmem =>
    obtain ⟨strands, outer, hstrands, houter, rfl⟩ := h
    rw [fields?_inLayer hstrands.all_isStrand, Option.map_eq_some_iff] at hfields
    obtain ⟨entries', hentries', rfl⟩ := hfields
    have hparts := entriesAreParts_of_fields? (hstrands.isPart_inLayer houter) hentries'
    rw [closeEntries_eq_map] at hmem
    obtain ⟨entry', hentry', rfl⟩ := List.mem_map.mp hmem
    exact ⟨strands, entry'.2, hstrands, entriesAreParts_iff.mp hparts entry' hentry', rfl⟩
  | @element items item helements hmem =>
    have hgiven : whole.givenElements = .ok items :=
      givenElements_eq_ok_iff.mpr (Or.inr ⟨isTruthy_of_mem_elements helements hmem, helements⟩)
    exact h.of_mem_givenElements hgiven _ hmem

/-- Whatever is somewhere in a decoded value is decoded. -/
lemma IsDecoded.of_includes {whole part : Datum} (h : whole.IsDecoded) (hpart : whole.Includes part) :
    part.IsDecoded := by
  induction hpart with
  | refl => exact h
  | tail _ hcontains ih => exact ih.of_contains hcontains

/-! ## Obstacles -/

/-- What is done with a result has none only if there is no result. -/
lemma eq_none_of_bind_pure {α β : Type} {x : Option α} {f : α → β}
    (h : (do let a ← x; return f a) = none) : x = none := by
  cases x with
  | none => rfl
  | some a => cases h

/-- What is not written by itself: a whole number that is too long, or a strand without a literal. -/
inductive Obstructs (strand : Nat → Option Text) : Datum → Prop
  | int {n : Int} (long : intText? n = none) : Obstructs strand (.int n)
  | strand {place : Nat} (unwritten : strand place = none) : Obstructs strand (.strand place)

/-- Of the atoms only a whole number that is too long is not written. -/
lemma obstructs_of_literal?_eq_none {a : Atom} (h : a.literal? = none) (strand : Nat → Option Text) :
    Obstructs strand (.atom a) := by
  cases a with
  | int n => exact .int h
  | _ => cases h

/-- Atoms that are not all written have one that is not. -/
lemma exists_of_atomLiterals?_eq_none {atoms : List Atom} (h : atomLiterals? atoms = none) :
    ∃ a ∈ atoms, a.literal? = none := by
  by_contra hall
  push Not at hall
  obtain ⟨texts, htexts⟩ : ∃ texts, atoms.mapM Atom.literal? = some texts := by
    clear h
    induction atoms with
    | nil => exact ⟨[], rfl⟩
    | cons a atoms ih =>
      rw [List.forall_mem_cons] at hall
      obtain ⟨text, htext⟩ := Option.ne_none_iff_exists'.mp hall.1
      obtain ⟨texts, htexts⟩ := ih hall.2
      exact ⟨text :: texts, by rw [List.mapM_cons, htext, htexts]; rfl⟩
  rw [atomLiterals?, htexts] at h
  cases h

/-- Somewhere in a part, closed with its strands, is something that is not written. -/
def HasObstacle (strands : List Datum) (strand : Nat → Option Text) (d : Datum) : Prop :=
  ∃ obstacle : Datum, Obstructs strand obstacle ∧ obstacle.isPart strands.length ∧
    (d.close strands).Includes (obstacle.close strands)

section Obstacles

variable {strands : List Datum} {strand : Nat → Option Text}

lemma Obstructs.hasObstacle {d : Datum} (h : Obstructs strand d) (hpart : d.isPart strands.length) :
    HasObstacle strands strand d :=
  ⟨d, h, hpart, .refl⟩

/-- An obstacle in a part of a part is one in that. -/
lemma HasObstacle.of_contains {inner outer : Datum} (h : HasObstacle strands strand inner)
    (hcontains : (outer.close strands).Contains (inner.close strands)) :
    HasObstacle strands strand outer := by
  obtain ⟨obstacle, hobstructs, hpart, hincludes⟩ := h
  exact ⟨obstacle, hobstructs, hpart, .head hcontains hincludes⟩

mutual

/-- A part without a literal has an obstacle. -/
lemma hasObstacle_of_writeLiteral (strands : List Datum) (strand : Nat → Option Text) :
    (d : Datum) → d.isPart strands.length → d.writeLiteral strand = none →
      HasObstacle strands strand d
  | .atom a, hpart, h => (obstructs_of_literal?_eq_none h strand).hasObstacle hpart
  | .list items, hpart, h => by
    have hclosed : ((Datum.list items).close strands).items? = some (items.map (close strands)) := by
      rw [close, closeItems_eq_map]
      rfl
    obtain ⟨item, hitem, hobstacle⟩ :=
      hasObstacle_of_writeLiterals strands strand items hpart (eq_none_of_bind_pure h)
    exact hobstacle.of_contains (.item hclosed (List.mem_map_of_mem hitem))
  | .map entries, hpart, h => by
    have hfields : ((Datum.map entries).close strands).fields? =
        some (entries.map fun entry => (entry.1, entry.2.close strands)) := by
      rw [close, closeEntries_eq_map]
      rfl
    obtain ⟨entry, hentry, hobstacle⟩ :=
      hasObstacle_of_writeEntryLiterals strands strand entries hpart (eq_none_of_bind_pure h)
    have hmem : (entry.1, entry.2.close strands) ∈
        entries.map fun entry => (entry.1, entry.2.close strands) :=
      List.mem_map_of_mem hentry
    have hcontains := Contains.key hfields hmem
    rcases hobstacle with hkey | hvalue
    · exact hkey.of_contains hcontains
    · exact hvalue.of_contains (.value hfields hmem)
  | .set elements, _, h => by
    obtain ⟨a, ha, hnone⟩ := exists_of_atomLiterals?_eq_none (eq_none_of_bind_pure h)
    have hobstacle : HasObstacle strands strand (.atom a) :=
      (obstructs_of_literal?_eq_none hnone strand).hasObstacle rfl
    have hparts : ((Datum.set elements).close strands).elements? = some (elements.map .atom) := rfl
    exact hobstacle.of_contains (.element hparts (List.mem_map_of_mem ha))
  | .pair first second, hpart, h => by
    rw [isPart, Bool.and_eq_true] at hpart
    rw [writeLiteral] at h
    have helements : ((Datum.pair first second).close strands).elements? =
        some [first.close strands, second.close strands] := rfl
    cases hfirst : first.writeLiteral strand with
    | none =>
      exact (hasObstacle_of_writeLiteral strands strand first hpart.1 hfirst).of_contains
        (.element helements List.mem_cons_self)
    | some text =>
      rw [hfirst] at h
      exact (hasObstacle_of_writeLiteral strands strand second hpart.2
        (eq_none_of_bind_pure h)).of_contains
          (.element helements (List.mem_cons_of_mem _ List.mem_cons_self))
  | .knot _ _, hpart, _ => by cases hpart
  | .strand _, hpart, h => (Obstructs.strand h).hasObstacle hpart

/-- Items of which one has no literal have an obstacle. -/
lemma hasObstacle_of_writeLiterals (strands : List Datum) (strand : Nat → Option Text) :
    (items : List Datum) → areParts strands.length items → writeLiterals items strand = none →
      ∃ item ∈ items, HasObstacle strands strand item
  | [], _, h => by cases h
  | item :: rest, hparts, h => by
    rw [areParts, Bool.and_eq_true] at hparts
    rw [writeLiterals] at h
    cases hitem : item.writeLiteral strand with
    | none =>
      exact ⟨item, List.mem_cons_self, hasObstacle_of_writeLiteral strands strand item hparts.1 hitem⟩
    | some text =>
      rw [hitem] at h
      obtain ⟨other, hother, hobstacle⟩ :=
        hasObstacle_of_writeLiterals strands strand rest hparts.2 (eq_none_of_bind_pure h)
      exact ⟨other, List.mem_cons_of_mem item hother, hobstacle⟩

/-- Entries of which one has no literal have an obstacle in a key or in a value. -/
lemma hasObstacle_of_writeEntryLiterals (strands : List Datum) (strand : Nat → Option Text) :
    (entries : List (Atom × Datum)) → entriesAreParts strands.length entries →
      writeEntryLiterals entries strand = none →
      ∃ entry ∈ entries, HasObstacle strands strand (.atom entry.1) ∨
        HasObstacle strands strand entry.2
  | [], _, h => by cases h
  | (key, value) :: rest, hparts, h => by
    rw [entriesAreParts, Bool.and_eq_true] at hparts
    rw [writeEntryLiterals] at h
    cases hkey : key.literal? with
    | none =>
      exact ⟨_, List.mem_cons_self,
        Or.inl ((obstructs_of_literal?_eq_none hkey strand).hasObstacle rfl)⟩
    | some keyText =>
      cases hvalue : value.writeLiteral strand with
      | none =>
        exact ⟨_, List.mem_cons_self,
          Or.inr (hasObstacle_of_writeLiteral strands strand value hparts.1 hvalue)⟩
      | some valueText =>
        rw [hkey, hvalue] at h
        obtain ⟨other, hother, hobstacle⟩ :=
          hasObstacle_of_writeEntryLiterals strands strand rest hparts.2 (eq_none_of_bind_pure h)
        exact ⟨other, List.mem_cons_of_mem _ hother, hobstacle⟩

end

end Obstacles

/-! ## Knots -/

mutual

/-- A closed part is written with its strands as knots. -/
lemma writeLiteral_close (strands : List Datum) (strand : Nat → Option Text) :
    (d : Datum) → d.isPart strands.length → (d.close strands).writeLiteral strand =
      d.writeLiteral fun place => (knot strands place).literal?
  | .atom _, _ => rfl
  | .list items, h => by
    rw [close, writeLiteral, writeLiteral, writeLiterals_closeItems strands strand items h]
  | .map entries, h => by
    rw [close, writeLiteral, writeLiteral, writeEntryLiterals_closeEntries strands strand entries h]
  | .set _, _ => rfl
  | .pair first second, h => by
    rw [isPart, Bool.and_eq_true] at h
    rw [close, writeLiteral, writeLiteral, writeLiteral_close strands strand first h.1,
      writeLiteral_close strands strand second h.2]
  | .knot _ _, h => by cases h
  | .strand _, _ => rfl

/-- Closed items are written with their strands as knots. -/
lemma writeLiterals_closeItems (strands : List Datum) (strand : Nat → Option Text) :
    (items : List Datum) → areParts strands.length items →
      writeLiterals (closeItems strands items) strand =
        writeLiterals items fun place => (knot strands place).literal?
  | [], _ => rfl
  | item :: rest, h => by
    rw [areParts, Bool.and_eq_true] at h
    rw [closeItems, writeLiterals, writeLiterals, writeLiteral_close strands strand item h.1,
      writeLiterals_closeItems strands strand rest h.2]

/-- Closed entries are written with their strands as knots. -/
lemma writeEntryLiterals_closeEntries (strands : List Datum) (strand : Nat → Option Text) :
    (entries : List (Atom × Datum)) → entriesAreParts strands.length entries →
      writeEntryLiterals (closeEntries strands entries) strand =
        writeEntryLiterals entries fun place => (knot strands place).literal?
  | [], _ => rfl
  | (_, value) :: rest, h => by
    rw [entriesAreParts, Bool.and_eq_true] at h
    rw [closeEntries, writeEntryLiterals, writeEntryLiterals,
      writeLiteral_close strands strand value h.1,
      writeEntryLiterals_closeEntries strands strand rest h.2]

end

/-- Every strand has a writer in its place. -/
lemma getElem?_strandWriters (strands : List Datum) (place : Nat) :
    (strandWriters strands)[place]? = strands[place]?.map fun d => ⟨d.ellipsis, d.writeLiteral⟩ := by
  induction strands generalizing place with
  | nil => rfl
  | cons d strands ih =>
    cases place with
    | zero => rfl
    | succ place => exact ih place

/-- There are as many writers as strands. -/
lemma length_strandWriters (strands : List Datum) : (strandWriters strands).length = strands.length := by
  induction strands with
  | nil => rfl
  | cons d strands ih => rw [strandWriters, List.length_cons, ih, List.length_cons]

/-- Places that are all different are no more than there are. -/
lemma length_le_of_nodup {path : List Nat} {n : Nat} (hnodup : path.Nodup)
    (hlt : ∀ place ∈ path, place < n) : path.length ≤ n := by
  have hsub : path ⊆ List.range n := fun place hplace => List.mem_range.mpr (hlt place hplace)
  have hle := (hnodup.subperm hsub).length_le
  rwa [List.length_range] at hle

/-- What is in a strand without being all of it is in the knot in its place. -/
lemma includes_knot {strands : List Datum} {place : Nat} {d part : Datum} (hall : strands.all isStrand)
    (hd : strands[place]? = some d) (hincludes : (d.close strands).Includes part)
    (hne : d.close strands ≠ part) : (knot strands place).Includes part := by
  have hopened : (d.close strands).opened = (knot strands place).opened := by
    rw [opened_knot hall, hd, Option.getD_some]
  obtain heq | ⟨inner, hcontains, hrest⟩ := hincludes.cases_head
  · exact absurd heq hne
  refine .head ?_ hrest
  cases hcontains with
  | value hfields hmem =>
    rw [fields?, hopened] at hfields
    exact .value hfields hmem
  | element helements hmem =>
    rw [elements?, hopened] at helements
    exact .element helements hmem

/-- A strand is none of the things that are not written by themselves. -/
lemma Obstructs.close_ne {strands : List Datum} {strand : Nat → Option Text} {d obstacle : Datum}
    (h : Obstructs strand obstacle) (hd : d.isStrand) : d.close strands ≠ obstacle.close strands := by
  cases d with
  | list items => cases h <;> nofun
  | map entries => cases h <;> nofun
  | pair first second => cases h <;> nofun
  | _ => cases hd

/-- A strand that is not written has a whole number in it that is too long. No strand is on the path to
it twice, so it is not for lack of depth. -/
lemma exists_long_of_writeStrand {strands : List Datum} (hstrands : AreStrands strands) {depth : Nat}
    {path : List Nat} {place : Nat} (hnodup : path.Nodup) (hpath : ∀ p ∈ path, p < strands.length)
    (hdepth : strands.length < depth + path.length) (hplace : place < strands.length)
    (h : writeStrand (strandWriters strands) depth path place = none) :
    ∃ n, intText? n = none ∧ (knot strands place).Includes (.int n) := by
  induction depth generalizing path place with
  | zero =>
    have hle := length_le_of_nodup hnodup hpath
    omega
  | succ depth ih =>
    have hd : strands[place]? = some strands[place] := List.getElem?_eq_getElem hplace
    unfold writeStrand at h
    rw [getElem?_strandWriters, hd, Option.map_some] at h
    dsimp only at h
    split at h
    · cases h
    next hnew =>
    have hpart : strands[place].isPart strands.length :=
      areParts_iff.mp hstrands.areParts _ (List.getElem_mem hplace)
    obtain ⟨obstacle, hobstructs, hobstacle, hwithin⟩ :=
      hasObstacle_of_writeLiteral strands _ _ hpart h
    have hstrand : strands[place].isStrand :=
      List.all_eq_true.mp hstrands.all_isStrand _ (List.getElem_mem hplace)
    have hincludes : (knot strands place).Includes (obstacle.close strands) :=
      includes_knot hstrands.all_isStrand hd hwithin (hobstructs.close_ne hstrand)
    cases hobstructs with
    | int hlong => exact ⟨_, hlong, hincludes⟩
    | @strand inner hunwritten =>
      have hinner : inner < strands.length := of_decide_eq_true hobstacle
      have hfresh : (place :: path).Nodup := by
        refine List.nodup_cons.mpr ⟨?_, hnodup⟩
        simpa using hnew
      have hplaces : ∀ p ∈ place :: path, p < strands.length :=
        List.forall_mem_cons.mpr ⟨hplace, hpath⟩
      have hroom : strands.length < depth + (place :: path).length := by
        rw [List.length_cons]
        omega
      obtain ⟨n, hlong, hrest⟩ := ih hfresh hplaces hroom hinner hunwritten
      exact ⟨n, hlong, hincludes.trans hrest⟩

/-- A whole number has no text where it has more digits than are written. -/
lemma intText?_eq_none_iff {n : Int} : intText? n = none ↔ Nat.pow 10 maxDigits ≤ n.natAbs := by
  unfold intText?
  generalize Nat.pow 10 maxDigits = most
  split
  · next hlt => exact iff_of_false nofun (Nat.not_le.mpr hlt)
  · next hle => exact iff_of_true rfl (Nat.not_lt.mp hle)

/-- **Values that cannot be written.**  A decoded value without a literal has a whole number in it that
is too long to be written. -/
theorem IsDecoded.exists_long_of_literal?_eq_none {d : Datum} (hd : d.IsDecoded)
    (h : d.literal? = none) : ∃ n : Int, Nat.pow 10 maxDigits ≤ n.natAbs ∧ d.Includes (.int n) := by
  obtain ⟨strands, part, hstrands, hpart, rfl⟩ := hd
  rw [literal?, writeLiteral_close strands _ part hpart] at h
  obtain ⟨obstacle, hobstructs, hobstacle, hincludes⟩ :=
    hasObstacle_of_writeLiteral strands _ part hpart h
  cases hobstructs with
  | int hlong => exact ⟨_, intText?_eq_none_iff.mp hlong, hincludes⟩
  | @strand place hunwritten =>
    have hplace : place < strands.length := of_decide_eq_true hobstacle
    have hroom : strands.length < (strandWriters strands).length + 2 + ([] : List Nat).length := by
      rw [length_strandWriters, List.length_nil]
      omega
    obtain ⟨n, hlong, hrest⟩ := exists_long_of_writeStrand hstrands List.nodup_nil
      (List.forall_mem_nil _) hroom hplace hunwritten
    exact ⟨n, intText?_eq_none_iff.mp hlong, hincludes.trans hrest⟩

/-- A decoded value without a display has no literal either. -/
theorem literal?_eq_none_of_display? {d : Datum} (h : d.display? = none) : d.literal? = none := by
  cases d with
  | atom a =>
    cases a with
    | text s => cases h
    | date day => cases h
    | moment m => cases h
    | _ => exact h
  | _ => exact h

end Datum

end StockFlow
