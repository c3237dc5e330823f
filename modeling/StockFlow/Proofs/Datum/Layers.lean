import StockFlow.Proofs.Datum.Knots
/-!
# Layers

A mapping that contains itself is seen in two ways: by itself, where its parts are closed, and inside
its layer, where strands stay as they are. Both sights have the same entries, links and truth values
(`Datum.fields?_inLayer`, `Datum.givenElements_inLayer`, `Datum.isTruthy_inLayer`).

Setting an entry of such a mapping reaches every place where it is mentioned, so every part of it may
have become another value. Inside the layer, however, nothing else has changed (`Datum.Edited`).
-/

namespace StockFlow

namespace Datum

/-! ## Two sights of a value -/

/-- A free value is no strand of a layer. -/
lemma inLayer_of_isFree {d : Datum} (h : d.isFree) (strands : List Datum) :
    d.inLayer strands = d := by
  cases d with
  | strand place => cases h
  | _ => rfl

/-- The strands of a layer are lists, mappings and pairs, and there is nothing beyond them. -/
lemma isStrand_or_eq_null {strands : List Datum} (hstrands : strands.all isStrand) (place : Nat) :
    ((strands[place]?).getD .null).isStrand ∨ (strands[place]?).getD .null = .null := by
  cases hplace : strands[place]? with
  | none => exact Or.inr rfl
  | some d => exact Or.inl (List.all_eq_true.mp hstrands d (List.mem_of_getElem? hplace))

/-- A strand by itself is opened as what it is in its layer. -/
lemma opened_knot {strands : List Datum} (hstrands : strands.all isStrand) (place : Nat) :
    (knot strands place).opened = (((strands[place]?).getD .null).close strands).opened := by
  have hlayer := isStrand_or_eq_null hstrands place
  change ((strands[place]?).getD .null).close strands = _
  generalize (strands[place]?).getD .null = d at hlayer
  rcases hlayer with hlayer | rfl
  · cases d with
    | list items => rfl
    | map entries => rfl
    | pair first second => rfl
    | _ => cases hlayer
  · rfl

/-- What a layer of a knot has under keys becomes, closed, what the value has under them. -/
lemma fields?_inLayer {strands : List Datum} (hstrands : strands.all isStrand) (d : Datum) :
    (d.close strands).fields? = (d.inLayer strands).fields?.map (closeEntries strands) := by
  cases d with
  | strand place =>
    have hlayer := isStrand_or_eq_null hstrands place
    change (knot strands place).fields? = (((strands[place]?).getD .null).fields?).map _
    unfold fields?
    rw [opened_knot hstrands]
    generalize (strands[place]?).getD .null = d at hlayer
    rcases hlayer with hlayer | rfl
    · cases d with
      | list items => rfl
      | map entries => rfl
      | pair first second => rfl
      | _ => cases hlayer
    · rfl
  | knot inner place =>
    change (knot inner place).fields? = ((knot inner place).fields?).map _
    cases hfields : (knot inner place).fields? with
    | none => rfl
    | some fields =>
      have hfree : entriesAreFree fields := entriesAreFree_of_fields? rfl hfields
      rw [Option.map_some, closeEntries_of_entriesAreFree strands fields hfree]
  | _ => rfl

/-- A value that is no strand gives its parts, closed or not. -/
lemma givenElements_close {strands : List Datum} {d : Datum} (hd : d.isStrand ∨ d.isFree) :
    (d.close strands).givenElements = List.map (close strands) <$> d.givenElements := by
  rcases hd with hd | hd
  · cases d with
    | list items =>
      rw [close, givenElements_list, givenElements_list, closeItems_eq_map]
      rfl
    | map entries =>
      -- keys are atoms, which closing leaves as they are
      have hkeys : (closeEntries strands entries).map Prod.fst = entries.map Prod.fst := by
        rw [closeEntries_eq_map, List.map_map]
        rfl
      have hclosed : ((entries.map Prod.fst).map atom).map (close strands) =
          (entries.map Prod.fst).map atom := by
        rw [List.map_map]
        rfl
      rw [close, givenElements_map, givenElements_map, hkeys]
      exact congrArg Except.ok hclosed.symm
    | pair first second => rfl
    | _ => cases hd
  · rw [close_of_isFree strands d hd]
    cases hitems : d.givenElements with
    | error failure => rfl
    | ok items =>
      change _ = Except.ok (items.map (close strands))
      rw [map_close_of_isFree (isFree_of_mem_givenElements hd hitems)]

/-- What a layer of a knot gives becomes, closed, what it gives as a value by itself. -/
lemma givenElements_inLayer {strands : List Datum} (hstrands : strands.all isStrand) (d : Datum) :
    (d.close strands).givenElements =
      List.map (close strands) <$> (d.inLayer strands).givenElements := by
  cases d with
  | strand place =>
    have hlayer := isStrand_or_eq_null hstrands place
    change (knot strands place).givenElements =
      List.map (close strands) <$> ((strands[place]?).getD .null).givenElements
    have hsame : (knot strands place).givenElements =
        (((strands[place]?).getD .null).close strands).givenElements := by
      unfold givenElements isTruthy elements?
      rw [opened_knot hstrands]
    rw [hsame]
    exact givenElements_close (hlayer.imp id fun hnull => by rw [hnull]; rfl)
  | list items => exact givenElements_close (Or.inl rfl)
  | map entries => exact givenElements_close (Or.inl rfl)
  | pair first second => exact givenElements_close (Or.inl rfl)
  | _ => exact givenElements_close (Or.inr rfl)

/-- What a layer of a knot has counts as given if it does as a value by itself. -/
lemma isTruthy_inLayer {strands : List Datum} (hstrands : strands.all isStrand) (d : Datum) :
    (d.close strands).isTruthy = (d.inLayer strands).isTruthy := by
  have hclose : ∀ d : Datum, d.isStrand ∨ d.isFree → (d.close strands).isTruthy = d.isTruthy := by
    intro d hd
    rcases hd with hd | hd
    · cases d with
      | list items => cases items <;> rfl
      | map entries => cases entries <;> rfl
      | pair first second => rfl
      | _ => cases hd
    · rw [close_of_isFree strands d hd]
  cases d with
  | strand place =>
    have hlayer := isStrand_or_eq_null hstrands place
    have hsame : (knot strands place).isTruthy =
        (((strands[place]?).getD .null).close strands).isTruthy := by
      unfold isTruthy
      rw [opened_knot hstrands]
    change (knot strands place).isTruthy = ((strands[place]?).getD .null).isTruthy
    rw [hsame]
    exact hclose _ (hlayer.imp id fun hnull => by rw [hnull]; rfl)
  | list items => exact hclose _ (Or.inl rfl)
  | map entries => exact hclose _ (Or.inl rfl)
  | pair first second => exact hclose _ (Or.inl rfl)
  | _ => exact hclose _ (Or.inr rfl)

/-- A part asks for a random colour by itself if it does inside a layer. -/
lemma isRandom_close (strands : List Datum) (d : Datum) :
    (d.close strands).isRandom = d.isRandom := by
  cases d with
  | atom a => rfl
  | _ => rfl

/-! ## Mappings in their layers -/

section Mappings

variable {d : Datum} {strands : List Datum} {entries : Entries}

/-- A mapping has entries in its layer. -/
lemma exists_layer_eq (h : d.fields?.isSome) :
    ∃ strands entries, d.layer = (strands, .map entries) := by
  cases d with
  | map entries => exact ⟨[], entries, rfl⟩
  | knot strands place =>
    refine ⟨strands, ?_⟩
    dsimp only [fields?, opened, layer] at h ⊢
    generalize (strands[place]?).getD .null = outermost at h ⊢
    cases outermost with
    | map entries => exact ⟨entries, rfl⟩
    | _ => cases h
  | _ => cases h

/-- What is present in a mapping is present in its layer. -/
lemma isSome_find?_fields? (h : d.layer = (strands, .map entries)) (key : Atom) :
    (Entries.find? (d.fields?.getD []) key).isSome = (Entries.find? entries key).isSome := by
  cases d with
  | map fields =>
    cases h
    rfl
  | knot strands' place =>
    obtain ⟨rfl, hplace⟩ := Prod.mk.inj h
    dsimp only [fields?, opened]
    rw [hplace]
    change (Entries.find? (closeEntries strands' entries) key).isSome = _
    rw [find?_closeEntries, Option.isSome_map]
  | _ =>
    obtain ⟨-, hmap⟩ := Prod.mk.inj h
    cases hmap

/-- How a mapping is seen inside its layer: the strands of the knot that it is one of, if any, and its
entries as they are there. -/
structure IsLayered (d : Datum) (strands : List Datum) (entries : Entries) : Prop where
  layer_eq : d.layer = (strands, .map entries)
  all_isStrand : strands.all isStrand
  fields_eq : d.fields? = some (closeEntries strands entries)

/-- A mapping by itself is seen in its layer as it is there. -/
lemma isLayered_of_layer_eq (hd : d.isClosed) (h : d.layer = (strands, .map entries)) :
    d.IsLayered strands entries := by
  cases d with
  | map fields =>
    cases h
    exact ⟨rfl, rfl, congrArg some (closeEntries_of_entriesAreFree [] entries hd).symm⟩
  | knot strands' place =>
    obtain ⟨rfl, hplace⟩ := Prod.mk.inj h
    refine ⟨h, hd, ?_⟩
    dsimp only [fields?, opened]
    rw [hplace]
    rfl
  | _ =>
    obtain ⟨-, hmap⟩ := Prod.mk.inj h
    cases hmap

/-- A mapping by itself has a layer. -/
lemma exists_isLayered {d : Datum} (hd : d.isClosed) {fields : Entries}
    (hfields : d.fields? = some fields) : ∃ strands entries, d.IsLayered strands entries ∧
      fields = closeEntries strands entries := by
  obtain ⟨strands, entries, hlayer⟩ := exists_layer_eq (Option.isSome_of_eq_some hfields)
  have hlayered := isLayered_of_layer_eq hd hlayer
  exact ⟨strands, entries, hlayered, Option.some.inj (hfields.symm.trans hlayered.fields_eq)⟩

end Mappings

/-! ## Changing the entries of a mapping -/

/-- The second of two layers has other entries wherever the first one has given ones, and is the same
elsewhere. -/
def Edited (entries entries' : Entries) (strands strands' : List Datum) : Prop :=
  ∀ place : Nat, strands'[place]? = strands[place]? ∨
    strands[place]? = some (.map entries) ∧ strands'[place]? = some (.map entries')

/-- Whatever is seen inside the layers is the same or has the other entries. -/
lemma Edited.inLayer {entries entries' : Entries} {strands strands' : List Datum}
    (h : Edited entries entries' strands strands') (d : Datum) :
    d.inLayer strands' = d.inLayer strands ∨
      d.inLayer strands = .map entries ∧ d.inLayer strands' = .map entries' := by
  cases d with
  | strand place =>
    change (strands'[place]?).getD .null = (strands[place]?).getD .null ∨
      (strands[place]?).getD .null = .map entries ∧ (strands'[place]?).getD .null = .map entries'
    rcases h place with hplace | ⟨hplace, hplace'⟩
    · exact Or.inl (by rw [hplace])
    · exact Or.inr ⟨by rw [hplace, Option.getD_some], by rw [hplace', Option.getD_some]⟩
  | _ => exact Or.inl rfl

section Edits

variable {d : Datum} {strands : List Datum} {entries : Entries}

/-- Changing the entries of a mapping changes them in its layer, and nothing else there. -/
lemma exists_layer_editFields (h : d.layer = (strands, .map entries)) (edit : Entries → Entries) :
    ∃ strands', (d.editFields edit).layer = (strands', .map (edit entries)) ∧
      Edited entries (edit entries) strands strands' := by
  cases d with
  | map fields =>
    cases h
    exact ⟨[], rfl, fun _ => Or.inl rfl⟩
  | knot strands' place =>
    obtain ⟨rfl, hmap⟩ := Prod.mk.inj h
    have hplace : strands'[place]? = some (.map entries) := by
      cases hget : strands'[place]? with
      | none =>
        rw [hget] at hmap
        cases hmap
      | some d => exact congrArg some (by rwa [hget] at hmap)
    obtain ⟨hlt, -⟩ := List.getElem?_eq_some_iff.mp hplace
    have hself := List.getElem?_set_self (a := map (edit entries)) hlt
    refine ⟨strands'.set place (.map (edit entries)), ?_, fun other => ?_⟩
    · dsimp only [editFields]
      rw [hplace]
      dsimp only [layer]
      rw [hself, Option.getD_some]
    · by_cases hother : place = other
      · subst hother
        exact Or.inr ⟨hplace, hself⟩
      · exact Or.inl (List.getElem?_set_ne hother)
  | _ =>
    obtain ⟨-, hmap⟩ := Prod.mk.inj h
    cases hmap

/-- What is no mapping has no entries to change. -/
lemma editFields_of_fields?_eq_none (h : d.fields? = none) (edit : Entries → Entries) :
    d.editFields edit = d := by
  cases d with
  | map entries => cases h
  | knot strands place =>
    dsimp only [editFields]
    split
    · next entries hplace =>
      dsimp only [fields?, opened] at h
      rw [hplace] at h
      cases h
    · rfl
  | _ => rfl

/-- Changing the entries twice changes them by both changes. -/
lemma editFields_editFields (d : Datum) (edit edit' : Entries → Entries) :
    (d.editFields edit).editFields edit' = d.editFields fun entries => edit' (edit entries) := by
  cases d with
  | knot strands place =>
    cases hplace : strands[place]? with
    | none => simp only [editFields, hplace]
    | some outermost =>
      obtain ⟨hlt, -⟩ := List.getElem?_eq_some_iff.mp hplace
      cases outermost with
      | map entries => simp only [editFields, hplace, List.getElem?_set_self hlt, List.set_set]
      | _ => simp only [editFields, hplace]
  | _ => rfl

/-- Changes that are the same for the entries of a mapping in its layer are the same for it. -/
lemma editFields_congr (h : d.layer = (strands, .map entries)) {edit edit' : Entries → Entries}
    (hedit : edit entries = edit' entries) : d.editFields edit = d.editFields edit' := by
  cases d with
  | map fields =>
    cases h
    exact congrArg map hedit
  | knot strands' place =>
    obtain ⟨rfl, hmap⟩ := Prod.mk.inj h
    dsimp only [editFields]
    split
    · next entries' hplace =>
      rw [hplace] at hmap
      cases hmap
      rw [hedit]
    · rfl
  | _ => rfl

/-- A mapping by itself stays one when its entries are changed, if it mentions no strands then. -/
lemma isClosed_editFields (hd : d.isClosed) {edit : Entries → Entries}
    (hedit : ∀ fields, d = .map fields → entriesAreFree (edit fields)) :
    (d.editFields edit).isClosed := by
  cases d with
  | map fields => exact hedit fields rfl
  | knot strands place =>
    dsimp only [editFields]
    split
    · refine List.all_eq_true.mpr fun d hmem => ?_
      rcases List.mem_or_eq_of_mem_set hmem with hold | rfl
      · exact List.all_eq_true.mp hd d hold
      · rfl
    · exact hd
  | _ => exact hd

/-- A mapping with an entry set has that entry inside its layer, and nothing else has changed there.
The value may mention strands if the mapping is a strand. -/
lemma IsLayered.insert (hd : d.isClosed) (h : d.IsLayered strands entries) (key : Atom)
    {value : Datum} (hvalue : strands = [] → value.isFree) :
    ∃ strands', Edited entries (Entries.insert entries key value) strands strands' ∧
      (d.editFields fun fields => Entries.insert fields key value).IsLayered strands'
        (Entries.insert entries key value) ∧
      (d.editFields fun fields => Entries.insert fields key value).isClosed := by
  obtain ⟨strands', hlayer, hedited⟩ := exists_layer_editFields h.layer_eq fun fields =>
    Entries.insert fields key value
  have hclosed : (d.editFields fun fields => Entries.insert fields key value).isClosed := by
    refine isClosed_editFields hd ?_
    rintro fields rfl
    exact entriesAreFree_insert hd key (hvalue (Prod.mk.inj h.layer_eq).1.symm)
  exact ⟨strands', hedited, isLayered_of_layer_eq hclosed hlayer, hclosed⟩

end Edits

end Datum

end StockFlow
