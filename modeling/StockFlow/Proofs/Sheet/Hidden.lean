import StockFlow.Proofs.Graph.Hidden
import StockFlow.Proofs.Sheet.Acceptance
import StockFlow.Proofs.Sheet.AllOrNothing
import StockFlow.Proofs.Sheet.Gathering
/-!
# Declarations that agree but for hidden fields

Declarations agree but for hidden fields if they are the same under every key except those of the fields,
and their links agree in pairs in the same way (`Datum.AgreesBut`). Such declarations go through every
stage of building side by side: they have the same name, are added to collections that agree
(`Collection.AgreesBut.alike_add`), and become nodes that agree, which are connected and ordered alike
(`Collection.AgreesBut.alike_toGraph`). Each stage either gives results that agree or fails in both cases,
with failures of one kind.

Two things would break this. A declaration without a name is reported by its text, which a number that is
too long to be written does not have; and a declaration that contains itself may have its own hidden
fields in its name, once links have been merged into it.
-/

namespace StockFlow

variable {hidden : List Field} {excused : Failure → Prop}

/-! ## Entries and declarations -/

/-- The key that a field is declared under. -/
def Field.key : Field → Text
  | .value => "value"
  | .color => "color"
  | .description => "description"

/-- Entries that are the same under all texts but the given keys. -/
def Entries.SameBut (keys : List Text) (fields fields' : Entries) : Prop :=
  ∀ key ∉ keys, find? fields (.text key) = find? fields' (.text key)

/-- Declared links that are the same, or mappings with the same entries but those of hidden fields. -/
def Datum.LinkAgreesBut (hidden : List Field) (l l' : Datum) : Prop :=
  l = l' ∨ ∃ fields fields', l.fields? = some fields ∧ l'.fields? = some fields' ∧
    Entries.SameBut (hidden.map Field.key) fields fields'

/-- Values that are the same, or sequences of links that agree in pairs. -/
def Datum.LinksAgreeBut (hidden : List Field) (d d' : Datum) : Prop :=
  d = d' ∨ ∃ links links', d.sequence? = some links ∧ d'.sequence? = some links' ∧
    List.Forall₂ (Datum.LinkAgreesBut hidden) links links'

/-- Entries of a declaration that agree but for hidden fields, of the node and of its links. -/
structure Entries.AgreesBut (hidden : List Field) (fields fields' : Entries) : Prop where
  same : Entries.SameBut ("links" :: hidden.map Field.key) fields fields'
  links : (Entries.get fields "links").LinksAgreeBut hidden (Entries.get fields' "links")

/-- Declarations that are the same, or mappings whose entries agree but for hidden fields. -/
def Datum.AgreesBut (hidden : List Field) (d d' : Datum) : Prop :=
  d = d' ∨ ∃ fields fields', d.fields? = some fields ∧ d'.fields? = some fields' ∧
    Entries.AgreesBut hidden fields fields'

/-- A declaration that has a name, or can be written in the report that it has none. -/
def Datum.IsReportable (d : Datum) : Prop := d.IsNamed ∨ d.literal?.isSome

/-- A key that belongs to no field is not hidden. -/
lemma notMem_map_key {key : Text} (h : ∀ f : Field, f.key ≠ key) (hidden : List Field) :
    key ∉ hidden.map Field.key := by
  intro hmem
  obtain ⟨f, -, hf⟩ := List.mem_map.mp hmem
  exact h f hf

/-- The key of a field that is not hidden is none of the keys of hidden fields. -/
lemma Field.key_notMem {f : Field} (h : f ∉ hidden) : f.key ∉ hidden.map Field.key := by
  have hinjective : ∀ f' : Field, f'.key = f.key → f' = f := by
    intro f' heq
    revert heq
    cases f <;> cases f' <;> decide
  intro hmem
  obtain ⟨f', hf', heq⟩ := List.mem_map.mp hmem
  exact h (hinjective f' heq ▸ hf')

/-- No field has the key of links. -/
lemma Field.key_ne_links (f : Field) : f.key ≠ "links" := by
  cases f <;> decide

namespace Entries

variable {keys : List Text} {fields fields' : Entries}

lemma SameBut.get_eq (h : SameBut keys fields fields') {key : Text} (hkey : key ∉ keys) :
    get fields key = get fields' key := by
  unfold get
  rw [h key hkey]

lemma SameBut.refl (keys : List Text) (fields : Entries) : SameBut keys fields fields := fun _ _ => rfl

lemma SameBut.symm (h : SameBut keys fields fields') : SameBut keys fields' fields :=
  fun key hkey => (h key hkey).symm

/-- The same entry in front changes nothing. -/
lemma SameBut.cons (h : SameBut keys fields fields') (entry : Atom × Datum) :
    SameBut keys (entry :: fields) (entry :: fields') := by
  intro key hkey
  have hrest := h key hkey
  unfold find? at hrest ⊢
  rw [List.find?_cons, List.find?_cons]
  split
  · rfl
  · exact hrest

/-- An entry in front under one of the given keys changes nothing. -/
lemma SameBut.cons_left (h : SameBut keys fields fields') {key : Text} (hkey : key ∈ keys)
    (value : Datum) : SameBut keys ((.text key, value) :: fields) fields' := by
  intro key' hkey'
  have hother := h key' hkey'
  unfold find? at hother ⊢
  rw [List.find?_cons]
  split
  · next heq =>
    have hsame : key = key' := Atom.text.inj (Atom.sameKey_text_iff.mp heq)
    exact absurd hkey (hsame ▸ hkey')
  · exact hother

/-- Entries in front under one of the given keys change nothing. -/
lemma SameBut.cons_cons (h : SameBut keys fields fields') {key : Text} (hkey : key ∈ keys)
    (value value' : Datum) :
    SameBut keys ((.text key, value) :: fields) ((.text key, value') :: fields') :=
  ((h.cons_left hkey value).symm.cons_left hkey value').symm

lemma AgreesBut.refl (fields : Entries) : fields.AgreesBut hidden fields := ⟨.refl _ _, .inl rfl⟩

/-- Entries that agree are the same under a key that is neither that of links nor that of a field. -/
lemma AgreesBut.find?_eq (h : AgreesBut hidden fields fields') {key : Text} (hlinks : key ≠ "links")
    (hfield : ∀ f : Field, f.key ≠ key) : find? fields (.text key) = find? fields' (.text key) :=
  h.same key (List.not_mem_cons_of_ne_of_not_mem hlinks (notMem_map_key hfield hidden))

/-- Entries that agree are the same under the key of a field that is not hidden. -/
lemma AgreesBut.get_key (h : AgreesBut hidden fields fields') {f : Field} (hf : f ∉ hidden) :
    get fields f.key = get fields' f.key :=
  h.same.get_eq (List.not_mem_cons_of_ne_of_not_mem f.key_ne_links (Field.key_notMem hf))

/-- Entries that agree still do with links that agree. -/
lemma AgreesBut.insert_links (h : AgreesBut hidden fields fields') {links links' : List Datum}
    (hlinks : List.Forall₂ (Datum.LinkAgreesBut hidden) links links') :
    (insert fields (.text "links") (.list links)).AgreesBut hidden
      (insert fields' (.text "links") (.list links')) where
  same key hkey := by
    have hne : ("links" : Text) ≠ key := fun heq => hkey (heq ▸ List.mem_cons_self)
    rw [find?_insert_text_of_ne _ hne, find?_insert_text_of_ne _ hne]
    exact h.same key hkey
  links := by
    rw [get_insert, get_insert]
    exact .inr ⟨links, links', rfl, rfl, hlinks⟩

/-- Entries that agree still do with the same value under the key of a field. -/
lemma AgreesBut.insert_key (h : AgreesBut hidden fields fields') (f : Field) (value : Datum) :
    (insert fields (.text f.key) value).AgreesBut hidden (insert fields' (.text f.key) value) where
  same key hkey := by
    by_cases hne : f.key = key
    · rw [← hne, find?_insert_text, find?_insert_text]
    · rw [find?_insert_text_of_ne _ hne, find?_insert_text_of_ne _ hne]
      exact h.same key hkey
  links := by
    rw [get_insert_of_ne _ f.key_ne_links, get_insert_of_ne _ f.key_ne_links]
    exact h.links

end Entries

namespace Datum

lemma LinkAgreesBut.refl (l : Datum) : l.LinkAgreesBut hidden l := .inl rfl

lemma AgreesBut.refl (d : Datum) : d.AgreesBut hidden d := .inl rfl

/-- Declarations that agree have entries that agree. -/
lemma AgreesBut.entries {d d' : Datum} (h : d.AgreesBut hidden d') :
    Entries.AgreesBut hidden (d.fields?.getD []) (d'.fields?.getD []) := by
  rcases h with rfl | ⟨fields, fields', hfields, hfields', h⟩
  · exact Entries.AgreesBut.refl _
  · rw [hfields, hfields']
    exact h

/-- Declarations that agree are both mappings, with entries that agree, or neither is one. -/
lemma AgreesBut.alike_declaredFields {d d' : Datum} (h : d.AgreesBut hidden d') :
    Outcome.Alike excused (Entries.AgreesBut hidden) (declaredFields d) (declaredFields d') := by
  rcases h with rfl | ⟨fields, fields', hfields, hfields', h⟩
  · exact .refl Entries.AgreesBut.refl _
  · unfold declaredFields
    rw [hfields, hfields']
    exact .ok h

/-- Declarations that agree have the same name. -/
lemma AgreesBut.alike_declaredName {d d' : Datum} (h : d.AgreesBut hidden d') (hd : d.IsReportable)
    (hd' : d'.IsReportable) : Outcome.Alike excused Eq (declaredName d) (declaredName d') := by
  have hreported : ∀ {d : Datum} {fields : Entries}, d.IsReportable → d.fields? = some fields →
      Entries.get fields "name" = .null → ∃ t, d.literalText = .ok t := by
    rintro d fields (⟨fields', hfields', hname⟩ | hliteral) hfields hnull
    · rw [hfields] at hfields'
      cases hfields'
      exact absurd hnull hname
    · obtain ⟨t, ht⟩ := Option.isSome_iff_exists.mp hliteral
      refine ⟨t, ?_⟩
      unfold literalText
      rw [ht]
  rcases h with rfl | ⟨fields, fields', hfields, hfields', h⟩
  · exact .refl (fun _ => rfl) _
  have hname : Entries.get fields "name" = Entries.get fields' "name" := by
    unfold Entries.get
    rw [h.find?_eq (by decide) fun f => by cases f <;> decide]
  by_cases hnull : Entries.get fields' "name" = .null
  · obtain ⟨t, ht⟩ := hreported hd hfields (hname.trans hnull)
    obtain ⟨t', ht'⟩ := hreported hd' hfields' hnull
    unfold declaredName declaredFields
    rw [hfields, hfields']
    simp only [bind, Except.bind]
    rw [hname, hnull, ht, ht']
    exact .error rfl
  · have hsame : declaredName d = declaredName d' := by
      unfold declaredName declaredFields
      rw [hfields, hfields']
      simp only [bind, Except.bind]
      rw [hname]
      split
      · next heq => exact absurd heq hnull
      · rfl
    rw [hsame]
    exact .refl (fun _ => rfl) _

/-- Values that list links in agreement give links that agree. -/
lemma LinksAgreeBut.alike_givenElements {d d' : Datum} (h : d.LinksAgreeBut hidden d') :
    Outcome.Alike excused (List.Forall₂ (LinkAgreesBut hidden)) d.givenElements d'.givenElements := by
  rcases h with rfl | ⟨links, links', hlinks, hlinks', h⟩
  · exact .refl (fun links => List.forall₂_same.mpr fun l _ => LinkAgreesBut.refl l) _
  · rw [givenElements_of_sequence? hlinks, givenElements_of_sequence? hlinks']
    exact .ok h

/-- Declared links that agree become links that agree. -/
lemma LinkAgreesBut.alike_declaredLink {l l' : Datum} (h : l.LinkAgreesBut hidden l') (node : Text) :
    Outcome.Alike excused (Link.AgreesBut hidden) (declaredLink node l) (declaredLink node l') := by
  rcases h with rfl | ⟨fields, fields', hfields, hfields', h⟩
  · exact .refl Link.AgreesBut.refl _
  have htarget : linkTarget node fields = linkTarget node fields' := by
    unfold linkTarget
    rw [h.get_eq (notMem_map_key (by intro f; cases f <;> decide) hidden)]
  have hfield : ∀ f ∉ hidden, Entries.get fields f.key = Entries.get fields' f.key := fun f hf =>
    h.get_eq (Field.key_notMem hf)
  unfold declaredLink declaredFields
  rw [hfields, hfields']
  change Outcome.Alike excused _ (linkTarget node fields >>= _) (linkTarget node fields' >>= _)
  rw [htarget]
  refine (Outcome.Alike.refl (R := Eq) (fun _ => rfl) _).bind fun target _ heq => .ok ⟨heq, ?_⟩
  exact fun f hf => by cases f <;> exact hfield _ hf

end Datum

/-! ## Declared nodes -/

/-- Entries that agree give sketches of nodes that agree. -/
lemma Entries.AgreesBut.alike_sketchNode {fields fields' : Entries} (h : fields.AgreesBut hidden fields')
    (name : Text) : Outcome.Alike excused
      (fun s s' => s.node.AgreesBut hidden s'.node ∧
        List.Forall₂ (Datum.LinkAgreesBut hidden) s.links s'.links)
      (sketchNode name fields) (sketchNode name fields') := by
  have hforbidden : find? fields (.text forbiddenAttribute) = find? fields' (.text forbiddenAttribute) :=
    h.find?_eq (by decide) fun f => by cases f <;> decide
  unfold sketchNode
  dsimp only
  rw [isSome_find?_extraFields, isSome_find?_extraFields, hforbidden]
  split
  · exact .error rfl
  · refine h.links.alike_givenElements.bind fun links links' hlinks => .ok ⟨⟨rfl, rfl, .nil, ?_⟩, hlinks⟩
    exact fun f hf => by cases f <;> exact h.get_key hf

namespace Collection

/-- Collections under one suffix whose declarations agree in pairs but for hidden fields. -/
structure AgreesBut (hidden : List Field) (c c' : Collection) : Prop where
  suffix : c.suffix = c'.suffix
  pairs : c.Pairs (Datum.AgreesBut hidden) c'

variable {c c' : Collection}

/-- Collections that agree declare nodes that agree. -/
lemma AgreesBut.alike_declaredNodes (h : c.AgreesBut hidden c') : Outcome.Alike excused
    (List.Forall₂ (Node.AgreesBut hidden)) c.declaredNodes c'.declaredNodes := by
  unfold declaredNodes
  refine (Outcome.Alike.mapM (S := fun s s' => s.node.AgreesBut hidden s'.node ∧
    List.Forall₂ (Datum.LinkAgreesBut hidden) s.links s'.links) ?_).bind fun _ _ hsketches => ?_
  · refine h.pairs.imp fun e e' he => ?_
    rw [he.1]
    exact he.2.entries.alike_sketchNode e'.name
  · refine Outcome.Alike.mapM (hsketches.imp fun s s' ⟨hnode, hlinks⟩ => ?_)
    rw [hnode.name]
    refine (Outcome.Alike.mapM (hlinks.imp fun l l' hl => hl.alike_declaredLink _)).bind ?_
    exact fun outgoing outgoing' houtgoing =>
      .ok ⟨hnode.name, hnode.incoming, houtgoing, fun f hf => by cases f <;> exact hnode.field _ hf⟩

/-! ## Adding declarations -/

/-- A collection takes a declaration plainly if what the declaration is merged into has no knots at its
outermost layer. -/
def TakesPlainly (c : Collection) (d : Datum) : Prop :=
  ∀ name existing, declaredName d = .ok name → c.find? name = some existing →
    ∃ entries, existing.declaration = .map entries ∧ Datum.entriesAreFree entries

/-- Declarations that agree are added to collections that agree, and leave collections that agree. -/
theorem AgreesBut.alike_add (h : c.AgreesBut hidden c') {d d' : Datum} (hd : d.AgreesBut hidden d')
    (hreport : d.IsReportable) (hreport' : d'.IsReportable) (hplain : c.TakesPlainly d)
    (hplain' : c'.TakesPlainly d') :
    Outcome.Alike excused (AgreesBut hidden) (c.add d) (c'.add d') := by
  unfold add
  refine ((hd.alike_declaredName hreport hreport').imp_of_eq_ok fun name name' hname hname' heq =>
    And.intro heq (And.intro hname hname')).bind ?_
  rintro name _ ⟨rfl, hname, hname'⟩
  rcases h.pairs.find? name with ⟨hfind, hfind'⟩ | ⟨e, e', hfind, hfind', he⟩
  · rw [hfind, hfind']
    exact .ok ⟨h.suffix, List.rel_append h.pairs (.cons ⟨rfl, hd⟩ .nil)⟩
  obtain ⟨entries, hentries, hfree⟩ := hplain name e hname hfind
  obtain ⟨entries', hentries', hfree'⟩ := hplain' name e' hname' hfind'
  have hagree : Entries.AgreesBut hidden entries entries' := by
    rw [hentries, hentries'] at he
    exact he.entries
  rw [hfind, hfind']
  refine hd.alike_declaredFields.bind fun fields fields' hfields => ?_
  refine hfields.links.alike_givenElements.bind fun further further' hfurther => ?_
  rw [hentries, hentries', mergeLinks_map hfree, mergeLinks_map hfree']
  refine Outcome.Alike.bind (R := Datum.AgreesBut hidden) ?_ fun merged merged' hmerged =>
    .ok ⟨h.suffix, ?_⟩
  · refine hagree.links.alike_givenElements.bind fun own own' hown => .ok (.inr ⟨_, _, rfl, rfl, ?_⟩)
    exact hagree.insert_links (List.rel_append hown hfurther)
  · unfold Pairs
    rw [List.forall₂_map_left_iff, List.forall₂_map_right_iff]
    refine h.pairs.imp fun e e' hpair => ?_
    rw [hpair.1]
    split
    · exact ⟨rfl, hmerged⟩
    · exact hpair

end Collection

/-! ## Graphs -/

/-- Nodes that agree can be connected alike. -/
lemma connecting_agreesBut (hidden : List Field) : Connecting (Node.AgreesBut hidden) where
  skeleton {n n'} h := by
    have htargets : n.outgoing.map Link.target = n'.outgoing.map Link.target := by
      rw [← List.forall₂_eq_eq_eq, List.forall₂_map_left_iff, List.forall₂_map_right_iff]
      exact h.links.imp fun _ _ hl => hl.target
    unfold Node.skeleton
    rw [h.name, htargets]
  incoming h ids := ⟨h.name, rfl, h.links, fun f hf => by cases f <;> exact h.field _ hf⟩
  bare name := Node.AgreesBut.refl (bareNode name)

namespace Collection

variable {c c' : Collection}

/-- Collections that agree have graphs that agree. -/
theorem AgreesBut.alike_toGraph (h : c.AgreesBut hidden c') (resolver : Option Resolver) :
    Outcome.Alike excused (Graph.AgreesBut hidden) (c.toGraph resolver) (c'.toGraph resolver) := by
  have hconnecting := connecting_agreesBut hidden
  refine h.alike_declaredNodes.bind fun declared declared' hdeclared => ?_
  have hlinked := hconnecting.linkedNodes hdeclared
  refine Outcome.Alike.bind (R := List.Forall₂ (Node.AgreesBut hidden)) ?_ fun nodes nodes' hnodes =>
    .ok ⟨h.suffix, rfl, hnodes⟩
  unfold orderNodes
  rw [visitOrder_eq_walkOrder, visitOrder_eq_walkOrder]
  change Outcome.Alike excused _ (walkOrder ((linkedNodes declared).map Node.name)
      (targetsOf (linkedNodes declared)) >>= _)
    (walkOrder ((linkedNodes declared').map Node.name) (targetsOf (linkedNodes declared')) >>= _)
  rw [hconnecting.walkOrder_eq hlinked]
  refine (Outcome.Alike.refl (R := Eq) (fun _ => rfl) _).bind fun order _ heq => .ok ?_
  rw [← heq]
  exact hconnecting.orderedGraph hlinked order c.suffix c'.suffix resolver resolver

end Collection

end StockFlow
