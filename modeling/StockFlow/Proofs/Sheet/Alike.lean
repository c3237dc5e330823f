import StockFlow.Proofs.Sheet.Outline
/-!
# Outlines of collections

Adding a declaration to a collection changes the outline of the collection in a way that the outlines
alone decide (`Collection.outline_add`). So declarations that are alike can be added to collections of
the same outline alike (`Collection.exists_foldlM_add`), and a declaration is alike with any other
value (`Builder.declaredAlike_withValue`).
-/

namespace StockFlow

/-! ## Adding declarations -/

/-- The links of a declaration that is a value by itself are free. -/
lemma Datum.isFree_of_mem_declaredLinks {d : Datum} (hd : d.isClosed) {links : List Datum}
    (hlinks : declaredLinks (d.fields?.getD []) = .ok links) : ∀ link ∈ links, link.isFree := by
  cases hfields : d.fields? with
  | none =>
    rw [hfields] at hlinks
    cases hlinks
    exact fun _ hlink => absurd hlink List.not_mem_nil
  | some fields =>
    rw [hfields, Option.getD_some] at hlinks
    have hfree := entriesAreFree_of_fields? (isFree_of_isClosed hd) hfields
    exact isFree_of_mem_givenElements (isFree_get hfree "links") hlinks

/-- The links in the outline of a declaration. -/
lemma links?_declaredOutline (d : Datum) : (declaredOutline d).links? =
    (declaredLinks (d.fields?.getD [])).toOption.map (List.map linkOutline?) := rfl

/-- The outline with another entry in the place of that of a name. -/
def Outline.withEntry (o : Outline) (name : Text) (merged : NodeOutline) : Outline :=
  o.map fun entry => if entry.1 == name then (entry.1, merged) else entry

namespace Collection

/-- Merging the links of a declaration into another one changes the outline of that as the outlines
say. -/
lemma declaredOutline_mergeLinks {d₀ d : Datum} (h₀ : d₀.IsProper) (hd : d.isClosed) :
    match (do mergeLinks d₀ (← declaredLinks (d.fields?.getD []))) with
    | .ok merged => (declaredOutline d₀).merge (declaredOutline d) = some (declaredOutline merged) ∧
        merged.IsProper
    | .error _ => (declaredOutline d₀).merge (declaredOutline d) = none := by
  have hfurther? := links?_declaredOutline d
  unfold NodeOutline.merge
  cases hfurther : declaredLinks (d.fields?.getD []) with
  | error failure =>
    rw [hfurther] at hfurther?
    have hnone : (declaredOutline d).links? = none := hfurther?
    rw [hnone]
    cases (declaredOutline d₀).links? with
    | none => rfl
    | some own => rfl
  | ok further =>
    rw [hfurther] at hfurther?
    have hsome : (declaredOutline d).links? = some (further.map linkOutline?) := hfurther?
    rw [hsome]
    change (match mergeLinks d₀ further with
      | .ok merged => _
      | .error _ => _)
    cases hmerged : mergeLinks d₀ further with
    | error failure =>
      rw [mergeLinks_eq_error h₀ hmerged]
      rfl
    | ok merged =>
      obtain ⟨hproper, own, hown, houtline⟩ :=
        mergeLinks_eq_ok h₀ (Datum.isFree_of_mem_declaredLinks hd hfurther) hmerged
      rw [hown]
      exact ⟨congrArg some houtline.symm, hproper⟩

/-- All declarations of a collection are proper. -/
def IsProper (c : Collection) : Prop := ∀ d ∈ c.declarations, d.declaration.IsProper

/-- The outline under a name is that of the declaration under it. -/
lemma find?_outline (c : Collection) (name : Text) :
    (c.outline.find? fun entry => entry.1 == name) =
      (c.find? name).map fun d => (d.name, declaredOutline d.declaration) := by
  unfold outline find?
  rw [List.find?_map]
  rfl

/-- A declaration of a new name goes to the end. -/
lemma add_of_find?_eq_none {c : Collection} {d : Datum} {name : Text}
    (hname : declaredName d = .ok name) (hfind : c.find? name = none) :
    c.add d = .ok { c with declarations := c.declarations ++ [⟨name, d⟩] } := by
  unfold add
  rw [hname]
  simp only [bind, Except.bind, hfind]
  rfl

/-- A declaration of a known name merges its links into the first one. -/
lemma add_of_find?_eq_some {c : Collection} {d : Datum} {name : Text} {existing : Declared}
    (hd : d.fields?.isSome) (hname : declaredName d = .ok name)
    (hfind : c.find? name = some existing) :
    c.add d = (do
      let merged ← (do mergeLinks existing.declaration (← declaredLinks (d.fields?.getD [])))
      return { c with
               declarations := c.declarations.map fun d =>
                 if d.name == name then { d with declaration := merged } else d }) := by
  obtain ⟨fields, hfields⟩ := Option.isSome_iff_exists.mp hd
  unfold add
  rw [hname]
  simp only [bind_assoc]
  simp only [bind, Except.bind, hfind, declaredFields, hfields]
  rfl

/-- The collection with another declaration in the place of that of a name. -/
def withDeclaration (c : Collection) (name : Text) (declaration : Datum) : Collection :=
  { c with
    declarations := c.declarations.map fun d => if d.name == name then { d with declaration } else d }

/-- Replacing a declaration replaces its outline. -/
lemma outline_withDeclaration (c : Collection) (name : Text) (declaration : Datum) :
    (c.withDeclaration name declaration).outline =
      c.outline.withEntry name (declaredOutline declaration) := by
  unfold outline withDeclaration Outline.withEntry
  rw [List.map_map, List.map_map]
  refine List.map_congr_left fun d _ => ?_
  dsimp only [Function.comp_apply]
  by_cases hd : d.name == name
  · rw [if_pos hd, if_pos hd]
    rfl
  · rw [if_neg hd, if_neg hd]

/-- Replacing a declaration by a proper one keeps a collection proper. -/
lemma IsProper.withDeclaration {c : Collection} (hc : c.IsProper) (name : Text) {declaration : Datum}
    (hdeclaration : declaration.IsProper) : (c.withDeclaration name declaration).IsProper := by
  intro d hd
  obtain ⟨d', hd', rfl⟩ := List.mem_map.mp hd
  split
  · exact hdeclaration
  · exact hc d' hd'

/-- Adding a declaration changes the outline of a collection as the outlines say. -/
theorem outline_add {c : Collection} {d : Datum} {name : Text} (hc : c.IsProper)
    (hd : d.IsProper) (hname : declaredName d = .ok name) :
    match c.add d with
    | .ok c' => c.outline.add name (declaredOutline d) = some c'.outline ∧ c'.IsProper
    | .error _ => c.outline.add name (declaredOutline d) = none := by
  unfold Outline.add
  rw [c.find?_outline name]
  cases hfind : c.find? name with
  | none =>
    rw [add_of_find?_eq_none hname hfind]
    refine ⟨?_, ?_⟩
    · unfold outline
      rw [List.map_append]
      rfl
    · intro d' hd'
      rcases List.mem_append.mp hd' with hold | hnew
      · exact hc d' hold
      · rw [List.mem_singleton.mp hnew]
        exact hd
  | some existing =>
    have hmapping : d.fields?.isSome := by
      obtain ⟨fields, hfields, -⟩ := hd.fields
      rw [hfields]
      rfl
    have hmerge := declaredOutline_mergeLinks (hc existing (List.mem_of_find?_eq_some hfind)) hd.closed
    rw [add_of_find?_eq_some hmapping hname hfind, Option.map_some]
    dsimp only
    generalize (do mergeLinks existing.declaration (← declaredLinks (d.fields?.getD []))) = outcome
      at hmerge ⊢
    cases outcome with
    | error failure =>
      rw [show (declaredOutline existing.declaration).merge (declaredOutline d) = none from hmerge]
      rfl
    | ok merged =>
      obtain ⟨houtline, hmerged⟩ := hmerge
      rw [houtline]
      exact ⟨congrArg some (outline_withDeclaration c name merged).symm,
        hc.withDeclaration name hmerged⟩

end Collection

/-! ## Declarations that are alike -/

/-- A declaration with a name that has steady names is proper. -/
lemma Datum.HasSteadyNames.isProper {d : Datum} (hd : d.HasSteadyNames) {name : Text}
    (hname : declaredName d = .ok name) : d.IsProper := by
  refine ⟨hd.closed, ?_, hd.targets⟩
  obtain ⟨fields, hfields, hname⟩ := declaredName_eq_ok_iff.mp hname
  refine ⟨fields, hfields, ?_⟩
  rintro rfl
  cases hname

/-- Declarations of the same name and the same outline. -/
structure DeclaredAlike (d d' : Datum) : Prop where
  steady : d.HasSteadyNames
  steady' : d'.HasSteadyNames
  name : ∀ name, declaredName d = .ok name ↔ declaredName d' = .ok name
  outline : declaredOutline d = declaredOutline d'

/-- Being declared alike goes both ways. -/
lemma DeclaredAlike.symm {d d' : Datum} (h : DeclaredAlike d d') : DeclaredAlike d' d :=
  ⟨h.steady', h.steady, fun name => (h.name name).symm, h.outline.symm⟩

namespace Collection

/-- A declaration is added where one that is alike is added, with the same outline. -/
lemma exists_add {c c' e : Collection} {d d' : Datum} (hc : c.IsProper) (hc' : c'.IsProper)
    (houtline : c.outline = c'.outline) (h : DeclaredAlike d d') (he : c.add d = .ok e) :
    ∃ e', c'.add d' = .ok e' ∧ e.outline = e'.outline ∧ e.IsProper ∧ e'.IsProper := by
  obtain ⟨name, hname, -⟩ := Outcome.bind_eq_ok_iff.mp he
  have hname' := (h.name name).mp hname
  have hadd := outline_add hc (h.steady.isProper hname) hname
  have hadd' := outline_add hc' (h.steady'.isProper hname') hname'
  rw [he, houtline, h.outline] at hadd
  obtain ⟨hadd, hproper⟩ := hadd
  rw [hadd] at hadd'
  cases he' : c'.add d' with
  | error failure =>
    rw [he'] at hadd'
    cases hadd'
  | ok e' =>
    rw [he'] at hadd'
    exact ⟨e', rfl, Option.some.inj hadd'.1, hproper, hadd'.2⟩

/-- Declarations are added where others that are alike are added, with the same outline. -/
theorem exists_foldlM_add {c c' e : Collection} {ds ds' : List Datum} (hc : c.IsProper)
    (hc' : c'.IsProper) (houtline : c.outline = c'.outline)
    (h : List.Forall₂ DeclaredAlike ds ds') (he : ds.foldlM add c = .ok e) :
    ∃ e', ds'.foldlM add c' = .ok e' ∧ e.outline = e'.outline := by
  induction h generalizing c c' with
  | nil =>
    cases he
    exact ⟨c', rfl, houtline⟩
  | cons hd _ ih =>
    rw [List.foldlM_cons] at he
    obtain ⟨middle, hmiddle, he⟩ := Outcome.bind_eq_ok_iff.mp he
    obtain ⟨middle', hmiddle', hsame, hproper, hproper'⟩ := exists_add hc hc' houtline hd hmiddle
    obtain ⟨e', he', heq⟩ := ih hproper hproper' hsame he
    rw [List.foldlM_cons]
    exact ⟨e', Outcome.bind_eq_ok_iff.mpr ⟨middle', hmiddle', he'⟩, heq⟩

end Collection

/-- A declaration with a value is alike with another value. -/
theorem Builder.declaredAlike_withValue {d : Datum} (hd : d.HasSteadyNames)
    (hvalue : (Entries.find? (d.fields?.getD []) (.text "value")).isSome) (part : Text) :
    DeclaredAlike (withValue d part) d := by
  obtain ⟨hsteady, hname, houtline⟩ := declaredOutline_withValue hd hvalue part
  refine ⟨hsteady, hd, fun name => ?_, houtline⟩
  cases hfields : d.fields? with
  | none =>
    rw [hfields] at hvalue
    cases hvalue
  | some fields =>
    obtain ⟨fields', hfields', -⟩ :=
      get_value_withValue (Option.isSome_of_eq_some hfields) part
    rw [hfields, hfields', Option.getD_some, Option.getD_some] at hname
    rw [declaredName_eq_ok_iff, declaredName_eq_ok_iff, hfields, hfields']
    simp [hname]

end StockFlow
