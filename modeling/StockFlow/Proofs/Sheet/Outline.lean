import StockFlow.Proofs.Datum.Layers
import StockFlow.Proofs.Outcome
import StockFlow.Sheet.Builder
/-!
# Outlines of declarations

Whether a graph can be built depends on little of what is declared: on the names, on the targets of
the links, on whether colours are given or random, and on the presence of the key that no attribute
can have. This is the outline of a declaration. Adding further links to a declaration changes its
outline in a way that the outlines alone decide (`declaredOutline_mergeLinks`), and giving it another
value does not change its outline at all (`declaredOutline_withValue`).

Both need that no target contains the declaration, since the text of such a target changes with every
change of the declaration. Only a declaration that contains itself can have one
(`Datum.hasSteadyNames_of_isFree`).
-/

namespace StockFlow

/-! ## Outlines -/

/-- What matters of a declared link: the target, and whether the colour is given and random. -/
structure LinkOutline where
  target : Datum
  given : Bool
  random : Bool

/-- The outline of a declared link, which has to be a mapping. -/
def linkOutline? (link : Datum) : Option LinkOutline :=
  link.fields?.map fun fields =>
    { target := Entries.get fields "to"
      given := (Entries.get fields "color").isTruthy
      random := (Entries.get fields "color").isRandom }

/-- What matters of a declared node: whether it has the key that no attribute can have, whether its
colour is given and random, and the outlines of its links, if it lists any. -/
structure NodeOutline where
  forbidden : Bool
  given : Bool
  random : Bool
  links? : Option (List (Option LinkOutline))

/-- The outline of a declared node. -/
def nodeOutline (fields : Entries) : NodeOutline where
  forbidden := (Entries.find? fields (.text forbiddenAttribute)).isSome
  given := (Entries.get fields "color").isTruthy
  random := (Entries.get fields "color").isRandom
  links? := (declaredLinks fields).toOption.map (List.map linkOutline?)

/-- The outline of a declaration. -/
def declaredOutline (d : Datum) : NodeOutline := nodeOutline (d.fields?.getD [])

/-- What matters of a collection: the names and the outlines that they stand for. -/
abbrev Outline := List (Text × NodeOutline)

/-- The outline with the links of another one behind its own. -/
def NodeOutline.merge (o further : NodeOutline) : Option NodeOutline := do
  return { o with links? := some ((← o.links?) ++ (← further.links?)) }

/-- The outline with another declaration. -/
def Outline.add (o : Outline) (name : Text) (node : NodeOutline) : Option Outline :=
  match o.find? fun entry => entry.1 == name with
  | none => some (o ++ [(name, node)])
  | some (_, existing) => do
    let merged ← existing.merge node
    return o.map fun entry => if entry.1 == name then (entry.1, merged) else entry

/-- The outline of a collection. -/
def Collection.outline (c : Collection) : Outline :=
  c.declarations.map fun d => (d.name, nodeOutline d.fields)

/-! ## Names -/

/-- The name that a value stands for. -/
def Datum.nameText? (d : Datum) : Option Text :=
  match d with
  | .null => none
  | d => d.display?

/-- A value has a text if it can be displayed. -/
lemma Datum.displayed_eq_ok_iff {d : Datum} {t : Text} :
    d.displayed = .ok t ↔ d.display? = some t := by
  unfold displayed
  cases d.display? with
  | none => simp
  | some s => simp

/-- A declaration has a name if it is a mapping with a value that stands for one. -/
lemma declaredName_eq_ok_iff {d : Datum} {name : Text} :
    declaredName d = .ok name ↔
      ∃ fields, d.fields? = some fields ∧ (Entries.get fields "name").nameText? = some name := by
  unfold declaredName declaredFields
  cases d.fields? with
  | none =>
    constructor
    · intro h
      cases h
    · rintro ⟨fields, hfields, -⟩
      cases hfields
  | some fields =>
    have hsome : (∃ fields', some fields = some fields' ∧
        (Entries.get fields' "name").nameText? = some name) ↔
        (Entries.get fields "name").nameText? = some name := by simp
    rw [hsome]
    change (match Entries.get fields "name" with
      | .null => _
      | name => name.displayed : Except Failure Text) = _ ↔ _
    unfold Datum.nameText?
    split
    · constructor
      · intro h
        obtain ⟨_, _, h⟩ := Outcome.bind_eq_ok_iff.mp h
        cases h
      · intro h
        cases h
    · exact Datum.displayed_eq_ok_iff

/-- A declaration that gives a name is a mapping. -/
lemma isSome_fields?_of_declaredName {d : Datum} {name : Text} (hname : declaredName d = .ok name) :
    d.fields?.isSome := by
  obtain ⟨fields, hfields, -⟩ := declaredName_eq_ok_iff.mp hname
  rw [hfields]
  rfl

/-! ## Links inside layers -/

/-- The links of a mapping as they are inside its layer. -/
def layerLinks (strands : List Datum) (entries : Entries) : Except Failure (List Datum) :=
  ((Entries.get entries "links").inLayer strands).givenElements

/-- The links of a mapping are those of its layer, closed. -/
lemma declaredLinks_closeEntries {strands : List Datum} (hstrands : strands.all Datum.isStrand)
    (entries : Entries) : declaredLinks (Datum.closeEntries strands entries) =
      List.map (Datum.close strands) <$> layerLinks strands entries := by
  unfold declaredLinks layerLinks
  rw [Datum.get_closeEntries]
  exact Datum.givenElements_inLayer hstrands _

/-- Whether the target of a link mentions no strand of the layer. -/
def Datum.HasFreeTarget (strands : List Datum) (link : Datum) : Prop :=
  ∀ fields, (link.inLayer strands).fields? = some fields → (Entries.get fields "to").isFree

/-- Whether no target of a link mentions a strand of the layer. -/
def HasFreeTargets (strands : List Datum) (entries : Entries) : Prop :=
  ∀ links, layerLinks strands entries = .ok links → ∀ link ∈ links, link.HasFreeTarget strands

/-- A free link has a free target. -/
lemma Datum.hasFreeTarget_of_isFree {link : Datum} (h : link.isFree) (strands : List Datum) :
    link.HasFreeTarget strands := by
  intro fields hfields
  rw [inLayer_of_isFree h] at hfields
  exact isFree_get (entriesAreFree_of_fields? h hfields) "to"

/-- The outline of a link in terms of its layer. -/
lemma linkOutline?_close {strands : List Datum} (hstrands : strands.all Datum.isStrand)
    (link : Datum) : linkOutline? (link.close strands) =
      (link.inLayer strands).fields?.map fun fields =>
        { target := (Entries.get fields "to").close strands
          given := ((Entries.get fields "color").inLayer strands).isTruthy
          random := (Entries.get fields "color").isRandom } := by
  unfold linkOutline?
  rw [Datum.fields?_inLayer hstrands, Option.map_map]
  congr 1
  funext fields
  dsimp only [Function.comp_apply]
  rw [Datum.get_closeEntries, Datum.get_closeEntries, Datum.isTruthy_inLayer hstrands,
    Datum.isRandom_close]

/-! ## Declarations with an entry set -/

/-- A layer of a mapping with entries, before and after one of these has been set. -/
structure Resets (key : Text) (value : Datum) (strands strands' : List Datum)
    (entries entries' : Entries) : Prop where
  eq_insert : entries' = Entries.insert entries (.text key) value
  edited : Datum.Edited entries entries' strands strands'
  ne_nil : entries ≠ []
  all_isStrand : strands.all Datum.isStrand
  all_isStrand' : strands'.all Datum.isStrand

namespace Resets

variable {key : Text} {value : Datum} {strands strands' : List Datum} {entries entries' : Entries}

/-- Under other keys the layer has what it has had. -/
lemma get_of_ne (h : Resets key value strands strands' entries entries') {other : Text}
    (hother : key ≠ other) : Entries.get entries' other = Entries.get entries other := by
  rw [h.eq_insert]
  exact Entries.get_insert_of_ne entries hother value

/-- What is given in the layer stays given. -/
lemma isTruthy_inLayer (h : Resets key value strands strands' entries entries') (d : Datum) :
    (d.inLayer strands').isTruthy = (d.inLayer strands).isTruthy := by
  rcases h.edited.inLayer d with hsame | ⟨hold, hnew⟩
  · rw [hsame]
  · obtain ⟨entry, rest, hcons⟩ := List.exists_cons_of_ne_nil h.ne_nil
    obtain ⟨entry', rest', hcons'⟩ := List.exists_cons_of_ne_nil
      (Entries.insert_ne_nil entries (.text key) value)
    rw [hold, hnew, h.eq_insert, hcons', hcons]
    rfl

/-- A link keeps its outline and its free target. -/
lemma linkOutline?_close_eq (h : Resets key value strands strands' entries entries')
    (hto : key ≠ "to") (hcolor : key ≠ "color") {link : Datum}
    (hlink : link.HasFreeTarget strands) :
    linkOutline? (link.close strands') = linkOutline? (link.close strands) ∧
      link.HasFreeTarget strands' := by
  rw [linkOutline?_close h.all_isStrand, linkOutline?_close h.all_isStrand']
  unfold Datum.HasFreeTarget at hlink ⊢
  -- inside the layers the link has the same target and the same colour
  have hfields : Option.Rel (fun fields fields' : Entries =>
      Entries.get fields' "to" = Entries.get fields "to" ∧
        Entries.get fields' "color" = Entries.get fields "color")
      (link.inLayer strands).fields? (link.inLayer strands').fields? := by
    rcases h.edited.inLayer link with hsame | ⟨hold, hnew⟩
    · rw [hsame]
      cases (link.inLayer strands).fields? with
      | none => exact .none
      | some fields => exact .some ⟨rfl, rfl⟩
    · rw [hold, hnew]
      exact .some ⟨h.get_of_ne hto, h.get_of_ne hcolor⟩
  generalize (link.inLayer strands).fields? = fields?, (link.inLayer strands').fields? = fields?'
    at hfields hlink
  cases hfields with
  | none => exact ⟨rfl, fun _ hnone => by cases hnone⟩
  | @some fields fields' hsame =>
    have hfree := hlink fields rfl
    constructor
    · rw [Option.map_some, Option.map_some, hsame.1, hsame.2,
        Datum.close_of_isFree strands _ hfree, Datum.close_of_isFree strands' _ hfree,
        h.isTruthy_inLayer]
    · rintro _ ⟨⟩
      rw [hsame.1]
      exact hfree

/-- Links keep their outlines. -/
lemma map_linkOutline?_close_eq (h : Resets key value strands strands' entries entries')
    (hto : key ≠ "to") (hcolor : key ≠ "color") {links : List Datum}
    (hlinks : ∀ link ∈ links, link.HasFreeTarget strands) :
    (links.map (Datum.close strands')).map linkOutline? =
      (links.map (Datum.close strands)).map linkOutline? := by
  rw [List.map_map, List.map_map]
  exact List.map_congr_left fun link hlink =>
    (h.linkOutline?_close_eq hto hcolor (hlinks link hlink)).1

/-- A mapping keeps its outline but for the links. -/
lemma nodeOutline_eq (h : Resets key value strands strands' entries entries')
    (hcolor : key ≠ "color") (hforbidden : key ≠ forbiddenAttribute) :
    nodeOutline (Datum.closeEntries strands' entries') =
      { nodeOutline (Datum.closeEntries strands entries) with
        links? := (declaredLinks (Datum.closeEntries strands' entries')).toOption.map
          (List.map linkOutline?) } := by
  unfold nodeOutline
  dsimp only
  rw [Datum.find?_closeEntries, Datum.find?_closeEntries, Option.isSome_map, Option.isSome_map,
    Datum.get_closeEntries, Datum.get_closeEntries, Datum.isTruthy_inLayer h.all_isStrand,
    Datum.isTruthy_inLayer h.all_isStrand', Datum.isRandom_close, Datum.isRandom_close,
    h.isTruthy_inLayer]
  have hpresent : Entries.find? entries' (.text forbiddenAttribute) =
      Entries.find? entries (.text forbiddenAttribute) := by
    rw [h.eq_insert]
    exact Entries.find?_insert_text_of_ne entries hforbidden value
  rw [hpresent, h.get_of_ne hcolor]

end Resets

/-- Setting an entry of a mapping resets its layer. -/
lemma Datum.IsLayered.exists_resets {d : Datum} {strands : List Datum} {entries : Entries}
    (h : d.IsLayered strands entries) (hd : d.isClosed) (hne : entries ≠ []) (key : Text)
    {value : Datum} (hvalue : strands = [] → value.isFree) :
    ∃ strands' entries', Resets key value strands strands' entries entries' ∧
      (d.editFields fun fields => Entries.insert fields (.text key) value).IsLayered strands'
        entries' ∧
      (d.editFields fun fields => Entries.insert fields (.text key) value).isClosed := by
  obtain ⟨strands', hedited, hlayered, hclosed⟩ := h.insert hd (.text key) hvalue
  exact ⟨strands', _, ⟨rfl, hedited, hne, h.all_isStrand, hlayered.all_isStrand⟩, hlayered, hclosed⟩

/-! ## Steady names -/

/-- A declaration that is a value by itself, and in which neither the name nor the target of a link
mentions a strand of the knot that the declaration is one of. -/
structure Datum.HasSteadyNames (d : Datum) : Prop where
  closed : d.isClosed
  name : ∀ strands entries, d.layer = (strands, .map entries) → (Entries.get entries "name").isFree
  targets : ∀ strands entries, d.layer = (strands, .map entries) → HasFreeTargets strands entries

/-- A declaration that does not contain itself has steady names. -/
lemma Datum.hasSteadyNames_of_isFree {d : Datum} (hd : d.isFree)
    (hknot : ∀ strands place, d ≠ .knot strands place) : d.HasSteadyNames := by
  cases d with
  | knot strands place => exact absurd rfl (hknot strands place)
  | map fields =>
    refine ⟨hd, ?_, ?_⟩
    · rintro _ _ ⟨⟩
      exact isFree_get hd "name"
    · rintro _ _ ⟨⟩ links hlinks link hlink
      unfold layerLinks at hlinks
      rw [inLayer_of_isFree (isFree_get hd "links")] at hlinks
      exact hasFreeTarget_of_isFree
        (isFree_of_mem_givenElements (isFree_get hd "links") hlinks link hlink) []
  | _ => exact ⟨hd, fun _ _ hlayer => (by cases hlayer), fun _ _ hlayer => (by cases hlayer)⟩

/-! ## Further links -/

/-- A declaration that is a value by itself, is a mapping with entries, and has no target that
mentions a strand of its own knot. -/
structure Datum.IsProper (d : Datum) : Prop where
  closed : d.isClosed
  fields : ∃ fields, d.fields? = some fields ∧ fields ≠ []
  targets : ∀ strands entries, d.layer = (strands, .map entries) → HasFreeTargets strands entries

/-- The layer of a proper declaration. -/
lemma Datum.IsProper.exists_isLayered {d : Datum} (hd : d.IsProper) :
    ∃ strands entries,
      d.IsLayered strands entries ∧ entries ≠ [] ∧ HasFreeTargets strands entries := by
  obtain ⟨fields, hfields, hne⟩ := hd.fields
  obtain ⟨strands, entries, hlayered, rfl⟩ := Datum.exists_isLayered hd.closed hfields
  refine ⟨strands, entries, hlayered, ?_, hd.targets strands entries hlayered.layer_eq⟩
  rintro rfl
  exact hne rfl

/-- The outline of a declaration in its layer. -/
lemma Datum.IsLayered.declaredOutline_eq {d : Datum} {strands : List Datum} {entries : Entries}
    (h : d.IsLayered strands entries) :
    declaredOutline d = nodeOutline (Datum.closeEntries strands entries) := by
  unfold declaredOutline
  rw [h.fields_eq, Option.getD_some]

/-- The links in the outline of a declaration in its layer. -/
lemma Datum.IsLayered.links?_eq {d : Datum} {strands : List Datum} {entries : Entries}
    (h : d.IsLayered strands entries) : (declaredOutline d).links? =
      (layerLinks strands entries).toOption.map fun links =>
        (links.map (Datum.close strands)).map linkOutline? := by
  rw [h.declaredOutline_eq]
  unfold nodeOutline
  dsimp only
  rw [declaredLinks_closeEntries h.all_isStrand]
  cases layerLinks strands entries with
  | error failure => rfl
  | ok links => rfl

namespace Collection

/-- Links are put behind those of the layer. -/
lemma mergeLinks_eq {d : Datum} {strands : List Datum} {entries : Entries}
    (h : d.IsLayered strands entries) (further : List Datum) :
    mergeLinks d further = (do
      let own ← layerLinks strands entries
      return d.editFields fun fields =>
        Entries.insert fields (.text "links") (.list (own ++ further))) := by
  unfold mergeLinks
  rw [h.layer_eq]
  rfl

/-- The layer of a mapping that is no strand has free links. -/
lemma isFree_of_mem_layerLinks {d : Datum} {entries : Entries} (hd : d.isClosed)
    (h : d.IsLayered [] entries) {links : List Datum} (hlinks : layerLinks [] entries = .ok links) :
    ∀ link ∈ links, link.isFree := by
  have hfree : (Entries.get entries "links").isFree := by
    cases d with
    | map fields =>
      cases h.layer_eq
      exact Datum.isFree_get hd "links"
    | knot strands place =>
      obtain ⟨rfl, hmap⟩ := Prod.mk.inj h.layer_eq
      cases hmap
    | _ => cases h.layer_eq
  unfold layerLinks at hlinks
  rw [Datum.inLayer_of_isFree hfree] at hlinks
  exact Datum.isFree_of_mem_givenElements hfree hlinks

/-- Merging further links into a declaration puts their outlines behind those of its own. -/
lemma mergeLinks_eq_ok {d merged : Datum} {further : List Datum} (hd : d.IsProper)
    (hfurther : ∀ link ∈ further, link.isFree) (h : mergeLinks d further = .ok merged) :
    merged.IsProper ∧ ∃ own, (declaredOutline d).links? = some own ∧
      declaredOutline merged =
        { declaredOutline d with links? := some (own ++ further.map linkOutline?) } := by
  obtain ⟨strands, entries, hlayered, hne, htargets⟩ := hd.exists_isLayered
  rw [mergeLinks_eq hlayered] at h
  obtain ⟨own, hown, hmerged⟩ := Outcome.bind_eq_ok_iff.mp h
  cases hmerged
  have hvalue : strands = [] → (Datum.list (own ++ further)).isFree := by
    rintro rfl
    refine Datum.areFree_iff.mpr fun link hlink => ?_
    rcases List.mem_append.mp hlink with hlink | hlink
    · exact isFree_of_mem_layerLinks hd.closed hlayered hown link hlink
    · exact hfurther link hlink
  obtain ⟨strands', entries', hresets, hlayered', hclosed'⟩ :=
    hlayered.exists_resets hd.closed hne "links" hvalue
  have hlinks' : layerLinks strands' entries' = .ok (own ++ further) := by
    unfold layerLinks
    rw [hresets.eq_insert, Entries.get_insert]
    exact Datum.givenElements_list _
  refine ⟨⟨hclosed', ⟨_, hlayered'.fields_eq, ?_⟩, ?_⟩,
    (own.map (Datum.close strands)).map linkOutline?, ?_, ?_⟩
  · rw [hresets.eq_insert, Datum.closeEntries_eq_map, ne_eq, List.map_eq_nil_iff]
    exact Entries.insert_ne_nil entries _ _
  · intro strands'' entries'' hlayer links hlinks link hlink
    rw [hlayered'.layer_eq] at hlayer
    cases hlayer
    rw [hlinks'] at hlinks
    cases hlinks
    rcases List.mem_append.mp hlink with hlink | hlink
    · exact (hresets.linkOutline?_close_eq (by decide) (by decide)
        (htargets own hown link hlink)).2
    · exact Datum.hasFreeTarget_of_isFree (hfurther link hlink) strands'
  · rw [hlayered.links?_eq, hown]
    rfl
  · rw [hlayered'.declaredOutline_eq, hresets.nodeOutline_eq (by decide) (by decide),
      declaredLinks_closeEntries hresets.all_isStrand', hlinks', hlayered.declaredOutline_eq]
    change NodeOutline.mk _ _ _ (some (((own ++ further).map (Datum.close strands')).map
      linkOutline?)) = NodeOutline.mk _ _ _ (some _)
    rw [List.map_append, List.map_append, Datum.map_close_of_isFree hfurther,
      hresets.map_linkOutline?_close_eq (by decide) (by decide) (htargets own hown)]

/-- Further links are merged into a declaration if its own can be listed. -/
lemma mergeLinks_eq_error {d : Datum} {further : List Datum} {failure : Failure} (hd : d.IsProper)
    (h : mergeLinks d further = .error failure) : (declaredOutline d).links? = none := by
  obtain ⟨strands, entries, hlayered, -, -⟩ := hd.exists_isLayered
  rw [mergeLinks_eq hlayered] at h
  rw [hlayered.links?_eq]
  cases hown : layerLinks strands entries with
  | error failure' => rfl
  | ok own =>
    rw [hown] at h
    cases h

end Collection

/-! ## Another value -/

namespace Builder

/-- A declaration with another value has that value. -/
lemma get_value_withValue {d : Datum} (hd : d.fields?.isSome) (part : Text) :
    ∃ fields, (withValue d part).fields? = some fields ∧
      Entries.get fields "value" = .text part := by
  cases d with
  | map fields => exact ⟨_, rfl, Entries.get_insert fields "value" (.text part)⟩
  | knot strands place =>
    unfold withValue
    dsimp only [Datum.fields?, Datum.opened, Datum.editFields] at hd ⊢
    cases hplace : strands[place]? with
    | none =>
      rw [hplace] at hd
      cases hd
    | some d =>
      rw [hplace] at hd
      cases d with
      | map entries =>
        obtain ⟨hlt, -⟩ := List.getElem?_eq_some_iff.mp hplace
        dsimp only
        rw [List.getElem?_set_self hlt, Option.getD_some]
        refine ⟨_, rfl, ?_⟩
        rw [Datum.get_closeEntries, Entries.get_insert]
        rfl
      | _ => cases hd
  | _ => cases hd

/-- In its layer, a declaration with another value has the same name and the same links. -/
lemma exists_layer_withValue {d : Datum} (hd : d.HasSteadyNames)
    (hvalue : (Entries.find? (d.fields?.getD []) (.text "value")).isSome) (part : Text) :
    ∃ strands entries strands' entries', d.IsLayered strands entries ∧
      (withValue d part).IsLayered strands' entries' ∧ (withValue d part).isClosed ∧
      Resets "value" (.text part) strands strands' entries entries' ∧
      layerLinks strands' entries' = layerLinks strands entries := by
  cases hfields : d.fields? with
  | none =>
    rw [hfields] at hvalue
    cases hvalue
  | some fields =>
    obtain ⟨strands, entries, hlayered, rfl⟩ := Datum.exists_isLayered hd.closed hfields
    rw [hfields, Option.getD_some, Datum.find?_closeEntries, Option.isSome_map] at hvalue
    have hne : entries ≠ [] := by
      rintro rfl
      cases hvalue
    have hfree : strands = [] → (Datum.text part).isFree := fun _ => rfl
    obtain ⟨strands', entries', hresets, hlayered', hclosed'⟩ :=
      hlayered.exists_resets hd.closed hne "value" hfree
    refine ⟨strands, entries, strands', entries', hlayered, hlayered', hclosed', hresets, ?_⟩
    unfold layerLinks
    rw [hresets.get_of_ne (by decide)]
    rcases hresets.edited.inLayer (Entries.get entries "links") with hsame | ⟨hold, hnew⟩
    · rw [hsame]
    · -- the links are a mapping that has got another value, and these are its keys
      rw [hold, hnew, Datum.givenElements_map, Datum.givenElements_map, hresets.eq_insert,
        Entries.map_fst_insert hvalue]

/-- Another value changes neither the name nor the outline of a declaration with steady names. -/
theorem declaredOutline_withValue {d : Datum} (hd : d.HasSteadyNames)
    (hvalue : (Entries.find? (d.fields?.getD []) (.text "value")).isSome) (part : Text) :
    (withValue d part).HasSteadyNames ∧
      Entries.get ((withValue d part).fields?.getD []) "name" =
        Entries.get (d.fields?.getD []) "name" ∧
      declaredOutline (withValue d part) = declaredOutline d := by
  obtain ⟨strands, entries, strands', entries', hlayered, hlayered', hclosed', hresets, hlinks⟩ :=
    exists_layer_withValue hd hvalue part
  have hname := hd.name strands entries hlayered.layer_eq
  have htargets := hd.targets strands entries hlayered.layer_eq
  have hname' : Entries.get entries' "name" = Entries.get entries "name" :=
    hresets.get_of_ne (by decide)
  refine ⟨⟨hclosed', ?_, ?_⟩, ?_, ?_⟩
  · intro strands'' entries'' hlayer
    rw [hlayered'.layer_eq] at hlayer
    cases hlayer
    rw [hname']
    exact hname
  · intro strands'' entries'' hlayer links hlinks' link hlink
    rw [hlayered'.layer_eq] at hlayer
    cases hlayer
    rw [hlinks] at hlinks'
    exact (hresets.linkOutline?_close_eq (by decide) (by decide) (htargets links hlinks' link hlink)).2
  · rw [hlayered'.fields_eq, hlayered.fields_eq, Option.getD_some, Option.getD_some,
      Datum.get_closeEntries, Datum.get_closeEntries, hname', Datum.close_of_isFree strands _ hname,
      Datum.close_of_isFree strands' _ hname]
  · rw [hlayered'.declaredOutline_eq, hresets.nodeOutline_eq (by decide) (by decide),
      declaredLinks_closeEntries hresets.all_isStrand', hlinks, hlayered.declaredOutline_eq]
    have hsame : (List.map (Datum.close strands') <$> layerLinks strands entries).toOption.map
        (List.map linkOutline?) =
          (nodeOutline (Datum.closeEntries strands entries)).links? := by
      rw [← hlayered.declaredOutline_eq, hlayered.links?_eq]
      cases hown : layerLinks strands entries with
      | error failure => rfl
      | ok own =>
        exact congrArg some
          (hresets.map_linkOutline?_close_eq (by decide) (by decide) (htargets own hown))
    rw [hsame]

end Builder

/-! ## Graphs of sheets -/

/-- What is computed of the first graph of a sheet is computed of a graph that is built. -/
lemma exists_graph_of_head? {β : Type} {s : Settings} {ds : List Datum} {f : Graph → β} {b : β}
    (h : ((buildGraphs s ds).toOption.bind fun gs => gs.head?.map f) = some b) :
    ∃ gs g, buildGraphs s ds = .ok gs ∧ g ∈ gs ∧ f g = b := by
  obtain ⟨gs, hgs, hhead⟩ := Option.bind_eq_some_iff.mp h
  obtain ⟨g, hg, hb⟩ := Option.map_eq_some_iff.mp hhead
  exact ⟨gs, g, Outcome.toOption_eq_some_iff.mp hgs, List.mem_of_head? hg, hb⟩

end StockFlow
