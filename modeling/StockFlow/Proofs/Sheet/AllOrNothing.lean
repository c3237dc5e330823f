import StockFlow.Proofs.Sheet.Variants
/-!
# Declarations that are refused

A builder that refuses a declaration is left as it was, and goes on as if it had never seen it, if no
declaration that it has taken changes its name with its value (`Builder.addAll_accepted`). The
collections are changed one after the other, so this needs that none of them takes what a later one
refuses. The invariant is that all collections hold the same names in the same order, and under a name
either all or none a declaration whose links can be listed: this is all that decides whether a
declaration is taken. If also no declaration changes its links with its value, the collections differ in
the values of declarations only.

A declaration changes its name or its links with its value only if it contains itself.
-/

namespace StockFlow

/-! ## Own links -/

/-- The links of a declaration as its layer has them. -/
def ownLinks (d : Datum) : Except Failure (List Datum) :=
  layerLinks d.layer.1 (d.layer.2.fields?.getD [])

/-- The links of a mapping in its layer. -/
lemma ownLinks_eq {d : Datum} {strands : List Datum} {entries : Entries}
    (h : d.layer = (strands, .map entries)) : ownLinks d = layerLinks strands entries := by
  unfold ownLinks
  rw [h]
  rfl

/-- Links are put behind the own ones. -/
lemma Collection.mergeLinks_eq_map (d : Datum) (further : List Datum) :
    mergeLinks d further = (fun own => d.editFields fun fields =>
      Entries.insert fields (.text "links") (.list (own ++ further))) <$> ownLinks d := rfl

/-- A declaration with links merged into it has links that can be listed. -/
lemma Collection.exists_ownLinks_of_mergeLinks {d merged : Datum} {further : List Datum}
    (h : mergeLinks d further = .ok merged) : ∃ links, ownLinks merged = .ok links := by
  rw [mergeLinks_eq_map] at h
  obtain ⟨own, hown, rfl⟩ := Outcome.map_eq_ok_iff.mp h
  cases hfields : d.fields? with
  | none =>
    rw [Datum.editFields_of_fields?_eq_none hfields]
    exact ⟨own, hown⟩
  | some fields =>
    obtain ⟨strands, entries, hlayer⟩ :=
      Datum.exists_layer_eq (Option.isSome_iff_exists.mpr ⟨fields, hfields⟩)
    obtain ⟨strands', hlayer', -⟩ := Datum.exists_layer_editFields hlayer fun fields =>
      Entries.insert fields (.text "links") (.list (own ++ further))
    refine ⟨own ++ further, ?_⟩
    rw [ownLinks_eq hlayer']
    unfold layerLinks
    rw [Entries.get_insert]
    exact Datum.givenElements_list _

namespace Builder

/-- Whether a declaration gives a value. -/
def HasValue (d : Datum) : Prop := (Entries.find? (d.fields?.getD []) (.text "value")).isSome

instance (d : Datum) : Decidable (HasValue d) := inferInstanceAs (Decidable (_ = true))

/-- A declaration that gives a value gives it in its layer. -/
lemma HasValue.exists_layer_eq {d : Datum} (h : HasValue d) :
    ∃ strands entries, d.layer = (strands, .map entries) ∧
      (Entries.find? entries (.text "value")).isSome := by
  have hfields : d.fields?.isSome := by
    unfold HasValue at h
    cases hfields : d.fields? with
    | none =>
      rw [hfields] at h
      cases h
    | some fields => rfl
  obtain ⟨strands, entries, hlayer⟩ := Datum.exists_layer_eq hfields
  exact ⟨strands, entries, hlayer, Datum.isSome_find?_fields? hlayer (.text "value") ▸ h⟩

/-- With another value a declaration has the same links in its layer. -/
lemma ownLinks_withValue {d : Datum} (h : HasValue d) (value : Text) :
    ownLinks (withValue d value) = ownLinks d := by
  obtain ⟨strands, entries, hlayer, hvalue⟩ := h.exists_layer_eq
  obtain ⟨strands', hlayer', hedited⟩ := Datum.exists_layer_editFields hlayer fun fields =>
    Entries.insert fields (.text "value") (.text value)
  unfold withValue
  rw [ownLinks_eq hlayer', ownLinks_eq hlayer]
  unfold layerLinks
  rw [Entries.get_insert_of_ne entries (by decide)]
  rcases hedited.inLayer (Entries.get entries "links") with hsame | ⟨hold, hnew⟩
  · rw [hsame]
  · -- the links are the mapping that has got another value, and these are its keys
    rw [hold, hnew, Datum.givenElements_map, Datum.givenElements_map, Entries.map_fst_insert hvalue]

/-- Links are merged into a declaration as into the same one with another value. -/
lemma mergeLinks_withValue {d : Datum} (h : HasValue d) (value : Text) (further : List Datum) :
    Collection.mergeLinks (withValue d value) further =
      (withValue · value) <$> Collection.mergeLinks d further := by
  obtain ⟨strands, entries, hlayer, hvalue⟩ := h.exists_layer_eq
  rw [Collection.mergeLinks_eq_map, Collection.mergeLinks_eq_map, ownLinks_withValue h]
  cases ownLinks d with
  | error failure => rfl
  | ok own =>
    refine congrArg Except.ok ?_
    unfold withValue
    dsimp only
    rw [Datum.editFields_editFields, Datum.editFields_editFields]
    exact Datum.editFields_congr hlayer (Entries.insert_comm hvalue (by decide))

/-- A declaration that gives a value still does when links have been merged into it. -/
lemma HasValue.of_mergeLinks {d merged : Datum} {further : List Datum} (h : HasValue d)
    (hmerged : Collection.mergeLinks d further = .ok merged) : HasValue merged := by
  obtain ⟨strands, entries, hlayer, hvalue⟩ := h.exists_layer_eq
  rw [Collection.mergeLinks_eq_map] at hmerged
  obtain ⟨own, -, rfl⟩ := Outcome.map_eq_ok_iff.mp hmerged
  obtain ⟨strands', hlayer', -⟩ := Datum.exists_layer_editFields hlayer fun fields =>
    Entries.insert fields (.text "links") (.list (own ++ further))
  unfold HasValue
  rw [Datum.isSome_find?_fields? hlayer', Entries.find?_insert_text_of_ne entries (by decide)]
  exact hvalue

end Builder

/-! ## Collections side by side -/

section Pairs

variable {R : Datum → Datum → Prop} {c c' c₁ c₁' : Collection} {d d' : Datum}

/-- Collections with the same names in the same order, and related declarations under each. -/
def Collection.Pairs (R : Datum → Datum → Prop) (c c' : Collection) : Prop :=
  List.Forall₂ (fun e e' : Declared => e.name = e'.name ∧ R e.declaration e'.declaration)
    c.declarations c'.declarations

/-- Declarations that keep a relation when they are added side by side. -/
structure KeepsPairs (R : Datum → Datum → Prop) (d d' : Datum) : Prop where
  name : ∀ name, declaredName d = .ok name ↔ declaredName d' = .ok name
  new : R d d'
  merge : ∀ {e e' merged merged' further further'}, R e e' →
    declaredLinks (d.fields?.getD []) = .ok further →
    declaredLinks (d'.fields?.getD []) = .ok further' →
    Collection.mergeLinks e further = .ok merged →
    Collection.mergeLinks e' further' = .ok merged' → R merged merged'

namespace Collection

/-- Collections side by side have the same names in the same order. -/
lemma Pairs.map_name_eq (h : Pairs R c c') :
    c.declarations.map Declared.name = c'.declarations.map Declared.name := by
  unfold Pairs at h
  generalize c.declarations = es at h ⊢
  generalize c'.declarations = es' at h ⊢
  induction h with
  | nil => rfl
  | cons hfirst _ ih => rw [List.map_cons, List.map_cons, hfirst.1, ih]

/-- Collections side by side have related declarations under a name, or none. -/
lemma Pairs.find? (h : Pairs R c c') (name : Text) :
    (c.find? name = none ∧ c'.find? name = none) ∨
      ∃ e e', c.find? name = some e ∧ c'.find? name = some e' ∧
        R e.declaration e'.declaration := by
  unfold Pairs at h
  unfold Collection.find?
  generalize c.declarations = es at h ⊢
  generalize c'.declarations = es' at h ⊢
  induction h with
  | nil => exact Or.inl ⟨rfl, rfl⟩
  | @cons e e' es es' hfirst _ ih =>
    rw [List.find?_cons, List.find?_cons, ← hfirst.1]
    cases e.name == name with
    | true => exact Or.inr ⟨e, e', rfl, rfl, hfirst.2⟩
    | false => exact ih

/-- What a declaration of a known name makes of a collection. -/
lemma exists_merged_of_add {name : Text} {existing : Declared} (hname : declaredName d = .ok name)
    (hfind : c.find? name = some existing) (hadd : c.add d = .ok c₁) :
    ∃ further merged, declaredLinks (d.fields?.getD []) = .ok further ∧
      mergeLinks existing.declaration further = .ok merged ∧
      c₁.declarations = c.declarations.map fun e =>
        if e.name == name then { e with declaration := merged } else e := by
  rw [add_of_find?_eq_some (isSome_fields?_of_declaredName hname) hname hfind] at hadd
  obtain ⟨merged, hmerged, hdone⟩ := Outcome.bind_eq_ok_iff.mp hadd
  obtain ⟨further, hfurther, hmerged⟩ := Outcome.bind_eq_ok_iff.mp hmerged
  cases hdone
  exact ⟨further, merged, hfurther, hmerged, rfl⟩

/-- Adding declarations side by side leaves collections side by side. -/
lemma Pairs.add (h : Pairs R c c') (hd : KeepsPairs R d d') (hadd : c.add d = .ok c₁)
    (hadd' : c'.add d' = .ok c₁') : Pairs R c₁ c₁' := by
  obtain ⟨name, hname, -⟩ := Outcome.bind_eq_ok_iff.mp hadd
  have hname' := (hd.name name).mp hname
  rcases h.find? name with ⟨hfind, hfind'⟩ | ⟨e, e', hfind, hfind', hrelated⟩
  · rw [add_of_find?_eq_none hname hfind] at hadd
    rw [add_of_find?_eq_none hname' hfind'] at hadd'
    cases hadd
    cases hadd'
    exact List.rel_append h (.cons ⟨rfl, hd.new⟩ .nil)
  · obtain ⟨further, merged, hfurther, hmerged, heq⟩ := exists_merged_of_add hname hfind hadd
    obtain ⟨further', merged', hfurther', hmerged', heq'⟩ :=
      exists_merged_of_add hname' hfind' hadd'
    have hkept := hd.merge hrelated hfurther hfurther' hmerged hmerged'
    unfold Pairs
    rw [heq, heq', List.forall₂_map_left_iff, List.forall₂_map_right_iff]
    refine h.imp fun e e' hpair => ?_
    have hsame : (e'.name == name) = (e.name == name) := by rw [hpair.1]
    rw [hsame]
    split
    · exact ⟨hpair.1, hkept⟩
    · exact hpair

end Collection

end Pairs

/-! ## Builders in step -/

/-- The links of both declarations or of neither can be listed. -/
def ListedAlike (d d' : Datum) : Prop :=
  (∃ links, ownLinks d = .ok links) ↔ ∃ links, ownLinks d' = .ok links

/-- Collections in which the same declarations can be listed take the same declarations. -/
lemma Collection.Pairs.exists_add {c c' c₁ : Collection} (h : Pairs ListedAlike c c') {d : Datum}
    (hadd : c.add d = .ok c₁) : ∃ c₁', c'.add d = .ok c₁' := by
  obtain ⟨name, hname, -⟩ := Outcome.bind_eq_ok_iff.mp hadd
  rcases h.find? name with ⟨-, hfind'⟩ | ⟨e, e', hfind, hfind', hlisted⟩
  · exact ⟨_, add_of_find?_eq_none hname hfind'⟩
  · obtain ⟨further, merged, hfurther, hmerged, -⟩ := exists_merged_of_add hname hfind hadd
    rw [mergeLinks_eq_map] at hmerged
    obtain ⟨own, hown, -⟩ := Outcome.map_eq_ok_iff.mp hmerged
    obtain ⟨own', hown'⟩ := hlisted.mp ⟨own, hown⟩
    rw [add_of_find?_eq_some (isSome_fields?_of_declaredName hname) hname hfind', hfurther]
    change ∃ c₁', (mergeLinks e'.declaration further >>= fun merged => _) = .ok c₁'
    rw [mergeLinks_eq_map, hown']
    exact ⟨_, rfl⟩

namespace Builder

variable {R : Datum → Datum → Prop} {b b' : Builder} {d : Datum}

/-- Whether the collections of a builder are pairwise side by side. -/
structure IsInStep (R : Datum → Datum → Prop) (b : Builder) : Prop where
  ne_nil : b.collections ≠ []
  pairs : ∀ c ∈ b.collections, ∀ c' ∈ b.collections, c.Pairs R c'

/-- A new builder is in step. -/
lemma isInStep_ofSettings (R : Datum → Datum → Prop) (s : Settings) :
    (ofSettings s).IsInStep R := by
  refine ⟨List.cons_ne_nil _ _, fun c hc c' hc' => ?_⟩
  rw [List.mem_singleton.mp hc, List.mem_singleton.mp hc']
  exact .nil

/-- Every collection of a builder that has taken a declaration goes on from one that it had, with a
choice for the declaration. -/
lemma exists_grow_of_mem_add (hne : b.collections ≠ []) (h : b.add d = (b', none)) :
    b'.collections ≠ [] ∧ ∀ c₁ ∈ b'.collections, ∃ number, ∃ c ∈ b.collections, ∃ added,
      c.add (chosen d number) = .ok added ∧ c₁.declarations = added.declarations := by
  have hadd := completed_add_eq_mapM hne d
  rw [h] at hadd
  obtain ⟨collections, hcollections, heq⟩ := Outcome.map_eq_ok_iff.mp hadd.symm
  obtain ⟨blocks, hblocks, rfl⟩ := Outcome.map_eq_ok_iff.mp hcollections
  cases heq
  refine ⟨?_, fun c₁ hc₁ => ?_⟩
  · obtain ⟨block, hblock, hfirst⟩ := Outcome.exists_mem_of_mapM_eq_ok hblocks
      (List.mem_range.mpr (choiceCount_pos d))
    obtain ⟨c, hc⟩ := List.exists_mem_of_ne_nil _ hne
    obtain ⟨c₁, hc₁, -⟩ := Outcome.exists_mem_of_mapM_eq_ok hfirst hc
    exact List.ne_nil_of_mem (List.mem_flatten.mpr ⟨block, hblock, hc₁⟩)
  · obtain ⟨block, hblock, hc₁⟩ := List.mem_flatten.mp hc₁
    obtain ⟨number, -, hnumber⟩ := Outcome.exists_of_mem_of_mapM_eq_ok hblocks hblock
    obtain ⟨c, hc, hgrow⟩ := Outcome.exists_of_mem_of_mapM_eq_ok hnumber hc₁
    obtain ⟨added, hadded, hdone⟩ := Outcome.bind_eq_ok_iff.mp hgrow
    cases hdone
    exact ⟨number, c, hc, added, hadded, rfl⟩

/-- A builder stays in step when it takes a declaration. -/
lemma IsInStep.add (h : b.IsInStep R)
    (hd : ∀ number number', KeepsPairs R (chosen d number) (chosen d number'))
    (hadd : b.add d = (b', none)) : b'.IsInStep R := by
  obtain ⟨hne, hgrown⟩ := exists_grow_of_mem_add h.ne_nil hadd
  refine ⟨hne, fun c₁ hc₁ c₁' hc₁' => ?_⟩
  obtain ⟨number, c, hc, added, hadded, heq⟩ := hgrown c₁ hc₁
  obtain ⟨number', c', hc', added', hadded', heq'⟩ := hgrown c₁' hc₁'
  have hpairs := (h.pairs c hc c' hc').add (hd number number') hadded hadded'
  unfold Collection.Pairs
  rw [heq, heq']
  exact hpairs

/-- A builder stays in step when it takes declarations. -/
lemma IsInStep.addAll {ds : List Datum} (h : b.IsInStep R)
    (hds : ∀ d ∈ ds, ∀ number number', KeepsPairs R (chosen d number) (chosen d number'))
    (hadd : b.addAll ds = (b', none)) : b'.IsInStep R := by
  induction ds generalizing b with
  | nil =>
    cases hadd
    exact h
  | cons d ds ih =>
    rw [List.forall_mem_cons] at hds
    rw [← completed_eq_ok_iff, completed_addAll_cons] at hadd
    obtain ⟨middle, hmiddle, hadd⟩ := Outcome.bind_eq_ok_iff.mp hadd
    exact ih (h.add hds.1 (completed_eq_ok_iff.mp hmiddle)) hds.2 (completed_eq_ok_iff.mp hadd)

/-- Collections of which the first one refuses a declaration are left as they were. -/
lemma addEach_eq_self {cs cs' : List Collection} {failure : Failure}
    (hcs : ∀ c ∈ cs, ∀ c' ∈ cs, c.Pairs ListedAlike c')
    (h : addEach d cs = (cs', some failure)) : cs' = cs := by
  cases cs with
  | nil => cases h
  | cons c cs =>
    cases hadd : c.add d with
    | error failure' =>
      unfold addEach at h
      rw [hadd] at h
      cases h
      rfl
    | ok added =>
      -- then none of them refuses the declaration
      have hfails : (c :: cs).mapM (fun c => c.add d) = .error failure := by
        rw [← completed_addEach, h]
        rfl
      obtain ⟨c', hc', hfails'⟩ := Outcome.exists_of_mapM_eq_error hfails
      obtain ⟨added', hadd'⟩ := (hcs c List.mem_cons_self c' hc').exists_add hadd
      cases hadd'.symm.trans hfails'

/-- A builder in step is left as it was by a declaration that it refuses. -/
lemma IsInStep.eq_of_add {failure : Failure} (h : b.IsInStep ListedAlike)
    (hadd : b.add d = (b', some failure)) : b' = b := by
  unfold Builder.add at hadd
  split at hadd
  · cases hadd
    rfl
  split at hadd
  · generalize heach : addEach d b.collections = result at hadd
    obtain ⟨collections, failure?⟩ := result
    cases hadd
    rw [addEach_eq_self h.pairs heach]
  · split at hadd
    · cases hadd
      rfl
    · cases hadd

/-! ## Names and links that do not change with the value -/

/-- Whether a declaration has the same name whatever value is chosen for it. -/
def KeepsName (d : Datum) : Prop :=
  ∀ number number' name,
    declaredName (chosen d number) = .ok name ↔ declaredName (chosen d number') = .ok name

/-- Whether a declaration has the same links whatever value is chosen for it. -/
def KeepsLinks (d : Datum) : Prop :=
  ∀ number number', declaredLinks ((chosen d number).fields?.getD []) =
    declaredLinks ((chosen d number').fields?.getD [])

/-- Declarations that are the same, or the same with different values. -/
def DiffersInValue (d d' : Datum) : Prop :=
  d = d' ∨ ∃ e value value', HasValue e ∧ d = withValue e value ∧ d' = withValue e value'

/-- The choices for a declaration without alternatives are the declaration, and those for one with
alternatives are the declaration with other values. -/
lemma chosen_cases (d : Datum) :
    (∀ number, chosen d number = d) ∨
      HasValue d ∧ ∀ number, ∃ value, chosen d number = withValue d value := by
  unfold chosen
  cases h : alternativesOf d with
  | none => exact Or.inl fun _ => rfl
  | some parts => exact Or.inr ⟨isSome_find?_value h, fun _ => ⟨_, rfl⟩⟩

/-- A declaration that does not contain itself changes neither its name nor its links with its
value. -/
lemma keepsName_and_keepsLinks (hd : ∀ strands place, d ≠ .knot strands place) :
    KeepsName d ∧ KeepsLinks d := by
  rcases chosen_cases d with hsame | ⟨hvalue, hchosen⟩
  · exact ⟨fun _ _ _ => by rw [hsame, hsame], fun _ _ => by rw [hsame, hsame]⟩
  · obtain ⟨strands, entries, hlayer, -⟩ := hvalue.exists_layer_eq
    have hmap : d = .map entries := by
      cases d with
      | knot strands' place => exact absurd rfl (hd strands' place)
      | _ => exact (Prod.mk.inj hlayer).2
    have hget : ∀ number, ∃ fields, (chosen d number).fields? = some fields ∧
        Entries.get fields "name" = Entries.get entries "name" ∧
        Entries.get fields "links" = Entries.get entries "links" := by
      intro number
      obtain ⟨value, heq⟩ := hchosen number
      rw [heq, hmap]
      exact ⟨_, rfl, Entries.get_insert_of_ne entries (by decide) _,
        Entries.get_insert_of_ne entries (by decide) _⟩
    refine ⟨fun number number' name => ?_, fun number number' => ?_⟩
    · obtain ⟨fields, hfields, hname, -⟩ := hget number
      obtain ⟨fields', hfields', hname', -⟩ := hget number'
      simp [declaredName_eq_ok_iff, hfields, hfields', hname, hname']
    · obtain ⟨fields, hfields, -, hlinks⟩ := hget number
      obtain ⟨fields', hfields', -, hlinks'⟩ := hget number'
      unfold declaredLinks
      rw [hfields, hfields', Option.getD_some, Option.getD_some, hlinks, hlinks']

/-- Choices for a declaration that keeps its name leave it to the same collections to list its
links. -/
lemma KeepsName.keepsPairs (hname : KeepsName d) (number number' : Nat) :
    KeepsPairs ListedAlike (chosen d number) (chosen d number') := by
  have hown : ∀ number, ownLinks (chosen d number) = ownLinks d := by
    intro number
    rcases chosen_cases d with hsame | ⟨hvalue, hchosen⟩
    · rw [hsame]
    · obtain ⟨value, heq⟩ := hchosen number
      rw [heq, ownLinks_withValue hvalue]
  refine ⟨hname number number', ?_, ?_⟩
  · unfold ListedAlike
    rw [hown, hown]
  · intro e e' merged merged' further further' _ _ _ hmerged hmerged'
    exact iff_of_true (Collection.exists_ownLinks_of_mergeLinks hmerged)
      (Collection.exists_ownLinks_of_mergeLinks hmerged')

/-- Choices for a declaration that keeps its name and its links leave declarations the same but for
their values. -/
lemma KeepsLinks.keepsPairs (hlinks : KeepsLinks d) (hname : KeepsName d) (number number' : Nat) :
    KeepsPairs DiffersInValue (chosen d number) (chosen d number') := by
  refine ⟨hname number number', ?_, ?_⟩
  · rcases chosen_cases d with hsame | ⟨hvalue, hchosen⟩
    · rw [hsame, hsame]
      exact Or.inl rfl
    · obtain ⟨value, heq⟩ := hchosen number
      obtain ⟨value', heq'⟩ := hchosen number'
      exact Or.inr ⟨d, value, value', hvalue, heq, heq'⟩
  · intro e e' merged merged' further further' hrelated hfurther hfurther' hmerged hmerged'
    cases hfurther.symm.trans ((hlinks number number').trans hfurther')
    rcases hrelated with rfl | ⟨e, value, value', hvalue, rfl, rfl⟩
    · cases hmerged.symm.trans hmerged'
      exact Or.inl rfl
    · rw [mergeLinks_withValue hvalue] at hmerged hmerged'
      obtain ⟨common, hcommon, rfl⟩ := Outcome.map_eq_ok_iff.mp hmerged
      obtain ⟨common', hcommon', rfl⟩ := Outcome.map_eq_ok_iff.mp hmerged'
      cases hcommon.symm.trans hcommon'
      exact Or.inr ⟨common, value, value', hvalue.of_mergeLinks hcommon, rfl, rfl⟩

/-! ## Skipping what is refused -/

/-- Adds declarations one after the other, whether or not some are refused. -/
def addEvery (b : Builder) (ds : List Datum) : Builder := ds.foldl (fun b d => (b.add d).1) b

/-- The declarations that are not refused. -/
def accepted : Builder → List Datum → List Datum
  | _, [] => []
  | b, d :: ds =>
    match b.add d with
    | (b, none) => d :: accepted b ds
    | (b, some _) => accepted b ds

/-- A declaration that is not refused is one of those that were added. -/
lemma mem_of_mem_accepted {ds : List Datum} (h : d ∈ accepted b ds) : d ∈ ds := by
  induction ds generalizing b with
  | nil => exact absurd h List.not_mem_nil
  | cons d' ds ih =>
    unfold accepted at h
    split at h
    · rcases List.mem_cons.mp h with rfl | h
      · exact List.mem_cons_self
      · exact List.mem_cons_of_mem _ (ih h)
    · exact List.mem_cons_of_mem _ (ih h)

/-- A builder in step stays so and becomes what the declarations make of it that are not refused. -/
lemma IsInStep.addEvery {ds : List Datum} (h : b.IsInStep ListedAlike)
    (hds : ∀ d ∈ b.accepted ds, KeepsName d) :
    (b.addEvery ds).IsInStep ListedAlike ∧ b.addAll (b.accepted ds) = (b.addEvery ds, none) := by
  induction ds generalizing b with
  | nil => exact ⟨h, rfl⟩
  | cons d ds ih =>
    cases hadd : b.add d with
    | mk b' failure? =>
      have hevery : b.addEvery (d :: ds) = b'.addEvery ds := by
        unfold Builder.addEvery
        rw [List.foldl_cons, hadd]
      cases failure? with
      | none =>
        have haccepted : b.accepted (d :: ds) = d :: b'.accepted ds := by
          conv_lhs => unfold accepted
          rw [hadd]
        rw [haccepted, List.forall_mem_cons] at hds
        rw [hevery, haccepted]
        unfold Builder.addAll
        rw [hadd]
        exact ih (h.add hds.1.keepsPairs hadd) hds.2
      | some failure =>
        have haccepted : b.accepted (d :: ds) = b'.accepted ds := by
          conv_lhs => unfold accepted
          rw [hadd]
        obtain rfl := h.eq_of_add hadd
        rw [haccepted] at hds
        rw [hevery, haccepted]
        exact ih h hds

/-- **Refused declarations.**  A builder to which declarations have been added, of which those that it
has taken keep their names whatever values are chosen for them, is left as it was by any declaration
that it refuses, and is what it is by the declarations alone that it has taken. Its collections hold
the same names in the same order, and if the declarations also keep their links, what they hold under a
name differs in the value only. -/
theorem addAll_accepted (s : Settings) {ds : List Datum}
    (hnames : ∀ d ∈ (ofSettings s).accepted ds, KeepsName d) :
    (∀ d b' failure, ((ofSettings s).addEvery ds).add d = (b', some failure) →
      b' = (ofSettings s).addEvery ds) ∧
    (ofSettings s).addAll ((ofSettings s).accepted ds) = ((ofSettings s).addEvery ds, none) ∧
    (∀ c ∈ ((ofSettings s).addEvery ds).collections,
      ∀ c' ∈ ((ofSettings s).addEvery ds).collections,
        c.declarations.map Declared.name = c'.declarations.map Declared.name) ∧
    ((∀ d ∈ (ofSettings s).accepted ds, KeepsLinks d) →
      ∀ c ∈ ((ofSettings s).addEvery ds).collections,
        ∀ c' ∈ ((ofSettings s).addEvery ds).collections, c.Pairs DiffersInValue c') := by
  obtain ⟨hstep, hall⟩ := (isInStep_ofSettings ListedAlike s).addEvery hnames
  refine ⟨fun d b' failure => hstep.eq_of_add, hall,
    fun c hc c' hc' => (hstep.pairs c hc c' hc').map_name_eq, fun hlinks => ?_⟩
  exact ((isInStep_ofSettings DiffersInValue s).addAll
    (fun d hd => (hlinks d hd).keepsPairs (hnames d hd)) hall).pairs

/-- A node with alternatives, one whose links cannot be listed, further links for the first one, and
declarations that are refused among them. -/
def patchedSheet : List Datum :=
  [.map [(.text "name", .text "A"), (.text "color", .text "red"), (.text "value", .text "1|2")],
   .map [(.text "value", .text "3|4")],
   .map [(.text "name", .text "C"), (.text "links", .int 7)],
   .map [(.text "name", .text "A"), (.text "links", .int 5)],
   .map [(.text "name", .text "C"), (.text "value", .text "3|4")],
   .map [(.text "name", .text "A"), (.text "value", .text "5|6"),
    (.text "links", .list [.map [(.text "to", .text "B")]])]]

/-- Of the patched sheet, three declarations are refused. -/
theorem addAll_accepted_patchedSheet :
    (∀ d ∈ (ofSettings {}).accepted patchedSheet, KeepsName d ∧ KeepsLinks d) ∧
    ((ofSettings {}).accepted patchedSheet).length = 3 ∧
    ((ofSettings {}).addEvery patchedSheet).variantCount = 4 ∧
    (ofSettings {}).addAll ((ofSettings {}).accepted patchedSheet) =
      ((ofSettings {}).addEvery patchedSheet, none) ∧
    (∀ d b' failure, ((ofSettings {}).addEvery patchedSheet).add d = (b', some failure) →
      b' = (ofSettings {}).addEvery patchedSheet) ∧
    ∀ c ∈ ((ofSettings {}).addEvery patchedSheet).collections,
      ∀ c' ∈ ((ofSettings {}).addEvery patchedSheet).collections, c.Pairs DiffersInValue c' := by
  have hfree : ∀ d ∈ patchedSheet, ∀ strands place, d ≠ .knot strands place := by
    simp [patchedSheet]
  have hkeeps : ∀ d ∈ (ofSettings {}).accepted patchedSheet, KeepsName d ∧ KeepsLinks d :=
    fun d hd => keepsName_and_keepsLinks (hfree d (mem_of_mem_accepted hd))
  obtain ⟨hleft, hall, -, hpairs⟩ := addAll_accepted {} fun d hd => (hkeeps d hd).1
  exact ⟨hkeeps, by decide +kernel, by decide +kernel, hall, hleft,
    hpairs fun d hd => (hkeeps d hd).2⟩

/-- A declaration that is its own name and has two alternatives. -/
def selfNamed : Datum :=
  .knot [.map [(.text "name", .strand 0), (.text "color", .text "red"), (.text "value", .text "1|2")]]
    0

/-- A declaration under the name that the one before has with its second alternative, with links that
cannot be listed. -/
def unlistedSecond : Datum :=
  .map [(.text "name", .text ("\x7b'name': \x7b...\x7d, 'color': 'red', 'value': '2'\x7d" : String)),
    (.text "links", .int 5)]

/-- A declaration that gives no value differs from another one only if it is another one. -/
lemma DiffersInValue.eq_of_not_hasValue {d d' : Datum} (h : DiffersInValue d d')
    (hvalue : ¬ HasValue d) : d = d' := by
  rcases h with heq | ⟨e, value, value', he, rfl, -⟩
  · exact heq
  · obtain ⟨strands, entries, hlayer, -⟩ := he.exists_layer_eq
    obtain ⟨strands', hlayer', -⟩ := Datum.exists_layer_editFields hlayer fun fields =>
      Entries.insert fields (.text "value") (.text value)
    refine absurd ?_ hvalue
    unfold HasValue withValue
    rw [Datum.isSome_find?_fields? hlayer', Entries.find?_insert_text]
    rfl

/-- A declaration without a value, and another one of the same name that has two alternatives and links
to itself. -/
def selfLinked : List Datum :=
  [.map [(.text "name", .text "A")],
   .knot [.map [(.text "name", .text "A"), (.text "value", .text "1|2"),
    (.text "links", .list [.map [(.text "to", .strand 0)]])]] 0]

/-- What a variant holds of these. -/
def selfLinkedUnder (value : Text) : Datum :=
  .map [(.text "name", .text "A"),
    (.text "links", .list [.map [(.text "to", .knot [.map [(.text "name", .text "A"),
      (.text "value", .text value), (.text "links", .list [.map [(.text "to", .strand 0)]])]] 0)]])]

/-- If a declaration is its own name, its variants hold different names, and then a declaration can be
refused after one of them has taken it, so that the builder can no longer be built. If a declaration
links to itself, the variants can hold one that differs in its links. -/
theorem not_addAll_accepted_selfNamed :
    (((ofSettings {}).add selfNamed).1.collections.map fun c => c.declarations.map Declared.name) =
      [[("\x7b'name': \x7b...\x7d, 'color': 'red', 'value': '1'\x7d" : Text)],
       [("\x7b'name': \x7b...\x7d, 'color': 'red', 'value': '2'\x7d" : Text)]] ∧
    (((ofSettings {}).add selfNamed).1.add unlistedSecond).2 = some .wrongType ∧
    ((ofSettings {}).add selfNamed).1.build.isOk = true ∧
    (((ofSettings {}).add selfNamed).1.add unlistedSecond).1.build.isOk = false ∧
    ∃ c ∈ ((ofSettings {}).addEvery selfLinked).collections,
      ∃ c' ∈ ((ofSettings {}).addEvery selfLinked).collections, ¬ c.Pairs DiffersInValue c' := by
  refine ⟨by decide +kernel, by decide +kernel, by decide +kernel, by decide +kernel, ?_⟩
  have hcollections : ((ofSettings {}).addEvery selfLinked).collections =
      [⟨[⟨"A", selfLinkedUnder "1"⟩], "-1"⟩, ⟨[⟨"A", selfLinkedUnder "2"⟩], "-2"⟩] := rfl
  rw [hcollections]
  refine ⟨_, List.mem_cons_self, _, List.mem_cons_of_mem _ List.mem_cons_self, fun h => ?_⟩
  have hsame : selfLinkedUnder "1" = selfLinkedUnder "2" :=
    (List.forall₂_cons.mp h).1.2.eq_of_not_hasValue (by decide)
  have hdisplay := congrArg Datum.display? hsame
  revert hdisplay
  decide +kernel

end Builder

end StockFlow
