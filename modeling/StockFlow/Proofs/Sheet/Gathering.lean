import StockFlow.Proofs.Sheet.Alike
/-!
# Declarations of one name

A collection gathers declarations by name. Under every name it holds one declaration, which has the
links of all declarations of the name, in order, and is the first one of them in everything else; and
the names stand in the order of their first declarations (`Collection.gathers_foldlM`).

A declaration that contains itself would change in its own parts when links are merged into it, so the
first one of several has to be without knots at its outermost layer.
-/

namespace StockFlow

/-! ## Declarations by name -/

/-- The declarations of a name. -/
def declarationsOf (ds : List Datum) (name : Text) : List Datum :=
  ds.filter fun d => declaredName d = .ok name

/-- The place of the first declaration of a name. -/
def firstPlace (ds : List Datum) (name : Text) : Nat :=
  ds.findIdx fun d => declaredName d = .ok name

/-- The entries of the first declaration of a name, none if there is no declaration of it. -/
def firstFields (ds : List Datum) (name : Text) : Entries :=
  ((declarationsOf ds name).head?.bind Datum.fields?).getD []

/-- The links that declarations list, one declaration after the other. -/
def listedLinks (ds : List Datum) : Except Failure (List Datum) :=
  List.flatten <$> ds.mapM fun d => declaredLinks (d.fields?.getD [])

/-- Of several declarations of a name, the first one does not contain itself. -/
def MergesPlainly (ds : List Datum) : Prop :=
  ∀ name first second rest, declarationsOf ds name = first :: second :: rest →
    ∀ strands place, first ≠ .knot strands place

section Places

variable {ds : List Datum} {d : Datum} {name : Text}

lemma mem_declarationsOf_iff : d ∈ declarationsOf ds name ↔ d ∈ ds ∧ declaredName d = .ok name := by
  unfold declarationsOf
  rw [List.mem_filter, decide_eq_true_iff]

lemma declarationsOf_append (ds rest : List Datum) (name : Text) :
    declarationsOf (ds ++ rest) name = declarationsOf ds name ++ declarationsOf rest name :=
  List.filter_append ..

lemma declarationsOf_concat (hname : declaredName d = .ok name) :
    declarationsOf (ds ++ [d]) name = declarationsOf ds name ++ [d] := by
  rw [declarationsOf_append]
  refine congrArg _ ?_
  unfold declarationsOf
  rw [List.filter_singleton, hname]
  simp

lemma declarationsOf_concat_of_ne (hname : declaredName d = .ok name) {other : Text}
    (hne : other ≠ name) : declarationsOf (ds ++ [d]) other = declarationsOf ds other := by
  rw [declarationsOf_append]
  unfold declarationsOf
  rw [List.filter_singleton, hname]
  simp [hne.symm]

/-- A name is declared if its first place is one of the list. -/
lemma firstPlace_lt_iff : firstPlace ds name < ds.length ↔ declarationsOf ds name ≠ [] := by
  unfold firstPlace declarationsOf
  rw [List.findIdx_lt_length, ne_eq, List.filter_eq_nil_iff]
  simp

/-- Further declarations leave the first place of a declared name. -/
lemma firstPlace_append (hdeclared : declarationsOf ds name ≠ []) (rest : List Datum) :
    firstPlace (ds ++ rest) name = firstPlace ds name := by
  rw [← firstPlace_lt_iff] at hdeclared
  unfold firstPlace at hdeclared ⊢
  rw [List.findIdx_append, if_pos hdeclared]

/-- The first place of a name that is declared at the end. -/
lemma firstPlace_concat (hname : declaredName d = .ok name) (hnew : declarationsOf ds name = []) :
    firstPlace (ds ++ [d]) name = ds.length := by
  have hnot : ¬ firstPlace ds name < ds.length := fun h => firstPlace_lt_iff.mp h hnew
  unfold firstPlace at hnot ⊢
  rw [List.findIdx_append, if_neg hnot]
  simp [List.findIdx_cons, hname]

/-- What merges plainly does so without the last declarations. -/
lemma MergesPlainly.of_append {rest : List Datum} (h : MergesPlainly (ds ++ rest)) :
    MergesPlainly ds := by
  intro name first second others hds
  refine h name first second (others ++ declarationsOf rest name) ?_
  rw [declarationsOf_append, hds]
  rfl

/-- Declarations that do not contain themselves merge plainly. -/
lemma mergesPlainly_of_forall_ne_knot
    (h : ∀ d ∈ ds, ∀ strands place, d ≠ .knot strands place) : MergesPlainly ds := by
  intro name first second rest hds
  have hfirst : first ∈ declarationsOf ds name := hds ▸ List.mem_cons_self
  exact h first (mem_declarationsOf_iff.mp hfirst).1

end Places

/-! ## Merged declarations -/

/-- A declaration has the links of several, and is the first one in everything else. After a merge it
is a mapping without knots at its outermost layer. -/
structure Datum.Merges (d first : Datum) (rest : List Datum) : Prop where
  field : ∀ key : Text, key ≠ "links" →
    Entries.get (d.fields?.getD []) key = Entries.get (first.fields?.getD []) key
  extra : extraFields (d.fields?.getD []) = extraFields (first.fields?.getD [])
  links : declaredLinks (d.fields?.getD []) = listedLinks (first :: rest)
  form : d = first ∨ ∃ entries, d = .map entries ∧ Datum.entriesAreFree entries

/-- A declaration is merged of itself alone. -/
lemma Datum.merges_self (d : Datum) : d.Merges d [] where
  field _ _ := rfl
  extra := rfl
  links := by
    unfold listedLinks
    rw [List.mapM_cons, List.mapM_nil]
    cases declaredLinks (d.fields?.getD []) with
    | error failure => rfl
    | ok links => exact congrArg Except.ok (List.append_nil links).symm
  form := Or.inl rfl

/-- Setting the links of a mapping leaves the fields that have no meaning of their own. -/
lemma extraFields_insert_links (entries : Entries) (value : Datum) :
    extraFields (Entries.insert entries (.text "links") value) = extraFields entries := by
  have hreserved : ("links" : Text) ∈ reservedKeys := by decide
  unfold extraFields
  induction entries with
  | nil => simp [Entries.insert, hreserved]
  | cons entry entries ih =>
    obtain ⟨key, other⟩ := entry
    unfold Entries.insert
    split
    · next hkey =>
      obtain rfl : key = .text "links" := Atom.sameKey_text_iff.mp hkey
      rw [List.filter_cons, List.filter_cons]
      simp [hreserved]
    · rw [List.filter_cons, List.filter_cons, ih]

/-- Further links are put behind those of a mapping without knots. -/
lemma Collection.mergeLinks_map {entries : Entries} (hfree : Datum.entriesAreFree entries)
    (further : List Datum) : mergeLinks (.map entries) further = (do
      let own ← declaredLinks entries
      return .map (Entries.insert entries (.text "links") (.list (own ++ further)))) := by
  have hlinks := Datum.inLayer_of_isFree (Datum.isFree_get hfree "links") []
  change (do
    let own ← ((Entries.get entries "links").inLayer []).givenElements
    return Datum.editFields (.map entries) fun fields =>
      Entries.insert fields (.text "links") (.list (own ++ further)) : Except Failure Datum) = _
  rw [hlinks]
  rfl

/-- The links of a further declaration are merged behind those of all before it. -/
lemma Datum.Merges.append {d first : Datum} {rest : List Datum} (h : d.Merges first rest)
    {entries : Entries} (hd : d = .map entries) (hfree : Datum.entriesAreFree entries)
    {second : Datum} (hsecond : second.isClosed) {further : List Datum}
    (hfurther : declaredLinks (second.fields?.getD []) = .ok further) {merged : Datum}
    (hmerged : Collection.mergeLinks d further = .ok merged) :
    merged.Merges first (rest ++ [second]) := by
  obtain rfl := hd
  rw [Collection.mergeLinks_map hfree] at hmerged
  obtain ⟨own, hown, hmerged⟩ := Outcome.bind_eq_ok_iff.mp hmerged
  cases hmerged
  refine ⟨?_, ?_, ?_, Or.inr ⟨_, rfl, ?_⟩⟩
  · intro key hkey
    rw [← h.field key hkey]
    exact Entries.get_insert_of_ne _ (Ne.symm hkey) _
  · rw [← h.extra]
    exact extraFields_insert_links _ _
  · have hall : listedLinks (first :: rest) = .ok own := by
      rw [← h.links]
      exact hown
    have hlast : listedLinks [second] = .ok further := by
      rw [← (merges_self second).links]
      exact hfurther
    have hlinks := Outcome.flatten_mapM_append hall hlast
    unfold listedLinks
    rw [← List.cons_append, hlinks]
    change (Entries.get (Entries.insert entries (.text "links") _) "links").givenElements = _
    rw [Entries.get_insert]
    exact Datum.givenElements_list _
  · refine Datum.entriesAreFree_insert hfree _ (Datum.areFree_iff.mpr fun link hlink => ?_)
    rcases List.mem_append.mp hlink with hlink | hlink
    · exact isFree_of_mem_declaredLinks (d := .map entries) hfree hown link hlink
    · exact isFree_of_mem_declaredLinks hsecond hfurther link hlink

/-- A declaration that several are merged into is a mapping without knots at its outermost layer, and
so is one that they could be merged into. -/
lemma Datum.Merges.exists_map {d first : Datum} {rest : List Datum} (h : d.Merges first rest)
    (hfirst : first.isClosed) (hknot : ∀ strands place, first ≠ .knot strands place)
    (hfields : first.fields?.isSome) :
    ∃ entries, d = .map entries ∧ Datum.entriesAreFree entries := by
  rcases h.form with rfl | hmap
  · cases d with
    | map entries => exact ⟨entries, rfl, hfirst⟩
    | knot strands place => exact absurd rfl (hknot strands place)
    | _ => cases hfields
  · exact hmap

/-! ## Collections -/

namespace Collection

/-- A collection holds the merged declarations of every declared name, in the order of their first
places. -/
structure Gathers (c : Collection) (ds : List Datum) : Prop where
  ordered : c.declarations.Pairwise fun d d' => firstPlace ds d.name < firstPlace ds d'.name
  mem_iff : ∀ name, name ∈ c.declarations.map Declared.name ↔ declarationsOf ds name ≠ []
  merges : ∀ d ∈ c.declarations, ∃ first rest, declarationsOf ds d.name = first :: rest ∧
    d.declaration.Merges first rest

/-- An empty collection holds no declarations. -/
lemma gathers_nil : Gathers {} [] where
  ordered := .nil
  mem_iff name := by simp [declarationsOf]
  merges d hd := absurd hd List.not_mem_nil

variable {c c' : Collection} {ds : List Datum} {d : Datum} {name : Text}

/-- A declaration of a new name goes to the end. -/
lemma Gathers.add_new (h : c.Gathers ds) (hname : declaredName d = .ok name)
    (hnew : declarationsOf ds name = []) :
    Gathers { c with declarations := c.declarations ++ [⟨name, d⟩] } (ds ++ [d]) := by
  have hdeclared : ∀ d' ∈ c.declarations, declarationsOf ds d'.name ≠ [] := fun d' hd' =>
    (h.mem_iff d'.name).mp (List.mem_map_of_mem hd')
  have hother : ∀ d' ∈ c.declarations, d'.name ≠ name := by
    rintro d' hd' rfl
    exact hdeclared d' hd' hnew
  refine ⟨?_, ?_, ?_⟩
  · refine List.pairwise_append.mpr ⟨?_, List.pairwise_singleton _ _, ?_⟩
    · refine h.ordered.imp_of_mem fun {d₁ d₂} h₁ h₂ hlt => ?_
      rw [firstPlace_append (hdeclared d₁ h₁), firstPlace_append (hdeclared d₂ h₂)]
      exact hlt
    · intro d₁ h₁ d₂ h₂
      rw [List.mem_singleton.mp h₂, firstPlace_append (hdeclared d₁ h₁),
        firstPlace_concat hname hnew]
      exact firstPlace_lt_iff.mpr (hdeclared d₁ h₁)
  · intro other
    rw [List.map_append, List.mem_append, h.mem_iff]
    by_cases hne : other = name
    · rw [hne, declarationsOf_concat hname]
      simp
    · rw [declarationsOf_concat_of_ne hname hne]
      simp [hne]
  · intro d' hd'
    rcases List.mem_append.mp hd' with hd' | hd'
    · rw [declarationsOf_concat_of_ne hname (hother d' hd')]
      exact h.merges d' hd'
    · rw [List.mem_singleton.mp hd', declarationsOf_concat hname, hnew]
      exact ⟨d, [], rfl, Datum.merges_self d⟩

/-- A declaration of a known name is merged. -/
lemma Gathers.add_known (h : c.Gathers ds) (hname : declaredName d = .ok name)
    (hknown : declarationsOf ds name ≠ []) {merged : Datum}
    (hmerges : ∀ first rest, declarationsOf ds name = first :: rest →
      merged.Merges first (rest ++ [d])) :
    Gathers { c with
      declarations := c.declarations.map fun d' =>
        if d'.name == name then { d' with declaration := merged } else d' } (ds ++ [d]) := by
  have hdeclared : ∀ d' ∈ c.declarations, declarationsOf ds d'.name ≠ [] := fun d' hd' =>
    (h.mem_iff d'.name).mp (List.mem_map_of_mem hd')
  have hsame : ∀ d' : Declared,
      (if d'.name == name then { d' with declaration := merged } else d').name = d'.name := by
    intro d'
    split <;> rfl
  refine ⟨?_, ?_, ?_⟩
  · rw [List.pairwise_map]
    refine h.ordered.imp_of_mem fun {d₁ d₂} h₁ h₂ hlt => ?_
    rw [hsame, hsame, firstPlace_append (hdeclared d₁ h₁), firstPlace_append (hdeclared d₂ h₂)]
    exact hlt
  · intro other
    rw [List.map_map, show (Declared.name ∘ fun d' : Declared =>
      if d'.name == name then { d' with declaration := merged } else d') = Declared.name from
        funext hsame, h.mem_iff]
    by_cases hne : other = name
    · rw [hne, declarationsOf_concat hname]
      simp [hknown]
    · rw [declarationsOf_concat_of_ne hname hne]
  · intro d' hd'
    obtain ⟨d₀, hd₀, rfl⟩ := List.mem_map.mp hd'
    obtain ⟨first, rest, hfirst, hd₀merges⟩ := h.merges d₀ hd₀
    split
    · next heq =>
      have heq : d₀.name = name := by simpa using heq
      refine ⟨first, rest ++ [d], ?_, hmerges first rest (heq ▸ hfirst)⟩
      rw [show ({ d₀ with declaration := merged } : Declared).name = name from heq,
        declarationsOf_concat hname, ← heq, hfirst]
      rfl
    · next hne =>
      have hne : d₀.name ≠ name := by simpa using hne
      rw [declarationsOf_concat_of_ne hname hne]
      exact ⟨first, rest, hfirst, hd₀merges⟩

/-- What a collection holds under a name is merged of the declarations of the name. -/
lemma Gathers.merges_of_find? (h : c.Gathers ds) {existing : Declared}
    (hfind : c.find? name = some existing) :
    ∃ first rest, declarationsOf ds name = first :: rest ∧ existing.declaration.Merges first rest := by
  have hexisting : existing.name = name := by simpa using List.find?_some hfind
  rw [← hexisting]
  exact h.merges existing (List.mem_of_find?_eq_some hfind)

/-- A declaration is merged into a mapping without knots at its outermost layer. -/
lemma Gathers.exists_map (h : c.Gathers ds) (hclosed : ∀ d' ∈ ds, d'.isClosed)
    (hplain : MergesPlainly (ds ++ [d])) (hname : declaredName d = .ok name) {existing : Declared}
    (hfind : c.find? name = some existing) :
    ∃ entries, existing.declaration = .map entries ∧ Datum.entriesAreFree entries := by
  obtain ⟨first, rest, hfirst, hmerges⟩ := h.merges_of_find? hfind
  have hmemFirst : first ∈ declarationsOf ds name := hfirst ▸ List.mem_cons_self
  obtain ⟨hfirstMem, hfirstName⟩ := mem_declarationsOf_iff.mp hmemFirst
  -- the declaration comes second, so the first one does not contain itself
  have hknot : ∀ strands place, first ≠ .knot strands place := by
    cases rest with
    | nil => exact hplain name first d [] (by rw [declarationsOf_concat hname, hfirst]; rfl)
    | cons second others =>
      exact hplain name first second (others ++ [d])
        (by rw [declarationsOf_concat hname, hfirst]; rfl)
  exact hmerges.exists_map (hclosed first hfirstMem) hknot (isSome_fields?_of_declaredName hfirstName)

/-- Adding a declaration keeps a collection that gathers declarations. -/
lemma Gathers.add (h : c.Gathers ds) (hclosed : ∀ d' ∈ ds ++ [d], d'.isClosed)
    (hplain : MergesPlainly (ds ++ [d])) (hadd : c.add d = .ok c') : c'.Gathers (ds ++ [d]) := by
  obtain ⟨name, hname, -⟩ := Outcome.bind_eq_ok_iff.mp hadd
  cases hfind : c.find? name with
  | none =>
    rw [add_of_find?_eq_none hname hfind] at hadd
    cases hadd
    refine h.add_new hname (by_contra fun hdeclared => ?_)
    obtain ⟨d', hd', heq⟩ := List.mem_map.mp ((h.mem_iff name).mpr hdeclared)
    exact List.find?_eq_none.mp hfind d' hd' (by simpa using heq)
  | some existing =>
    obtain ⟨first, rest, hfirst, hmerges⟩ := h.merges_of_find? hfind
    rw [add_of_find?_eq_some (isSome_fields?_of_declaredName hname) hname hfind] at hadd
    obtain ⟨merged, hmerged, hadd⟩ := Outcome.bind_eq_ok_iff.mp hadd
    obtain ⟨further, hfurther, hmerged⟩ := Outcome.bind_eq_ok_iff.mp hmerged
    cases hadd
    refine h.add_known hname (by rw [hfirst]; exact List.cons_ne_nil _ _) ?_
    intro first' rest' hfirst'
    obtain ⟨rfl, rfl⟩ := List.cons.inj (hfirst.symm.trans hfirst')
    obtain ⟨entries, hentries, hfree⟩ :=
      h.exists_map (fun d' hd' => hclosed d' (List.mem_append_left _ hd')) hplain hname hfind
    exact hmerges.append hentries hfree
      (hclosed d (List.mem_append_right _ (List.mem_singleton_self d))) hfurther hmerged

/-- The collection of some declarations gathers them by name. -/
theorem gathers_foldlM (hclosed : ∀ d ∈ ds, d.isClosed) (hplain : MergesPlainly ds)
    (h : ds.foldlM Collection.add {} = .ok c) : c.Gathers ds := by
  suffices hall : ∀ (rest done : List Datum) (c₀ : Collection), done ++ rest = ds →
      c₀.Gathers done → rest.foldlM Collection.add c₀ = .ok c → c.Gathers ds from
    hall ds [] {} rfl gathers_nil h
  intro rest
  induction rest with
  | nil =>
    intro done c₀ hdone hc₀ hfold
    cases hfold
    rwa [← hdone, List.append_nil]
  | cons d rest ih =>
    intro done c₀ hdone hc₀ hfold
    rw [List.foldlM_cons] at hfold
    obtain ⟨c₁, hadd, hfold⟩ := Outcome.bind_eq_ok_iff.mp hfold
    rw [← List.singleton_append, ← List.append_assoc] at hdone
    refine ih (done ++ [d]) c₁ hdone (hc₀.add ?_ ?_ hadd) hfold
    · exact fun d' hd' => hclosed d' (hdone ▸ List.mem_append_left _ hd')
    · rw [← hdone] at hplain
      exact hplain.of_append

end Collection

end StockFlow
