import StockFlow.Proofs.Sheet.Cycles
import StockFlow.Proofs.Sheet.Summary
import StockFlow.Proofs.Sheet.Variants
/-!
# Which sheets are accepted

A sheet is accepted if and only if every declaration is a mapping with a name, every declaration lists
links that are mappings with targets, the links lead through no cycle, and no first declaration of a
name has the key that no attribute can have (`buildGraphs_accepts`).

The conditions are stated on declarations and proved on outlines: the outline of the collection that
all declarations are added to summarizes them.
-/

namespace StockFlow

/-! ## Well-formed sheets -/

/-- A declaration is a mapping whose name is given. -/
def Datum.IsNamed (d : Datum) : Prop :=
  ∃ fields, d.fields? = some fields ∧ Entries.get fields "name" ≠ .null

/-- The items of a list or of a pair. -/
def Datum.sequence? (d : Datum) : Option (List Datum) :=
  match d.opened with
  | .list items => some items
  | .pair first second => some [first, second]
  | _ => none

/-- The links of a declaration are not given, or are a list of mappings whose targets are given. -/
def Datum.IsLinked (d : Datum) : Prop :=
  (Entries.get (d.fields?.getD []) "links").isTruthy = false ∨
    ∃ links, (Entries.get (d.fields?.getD []) "links").sequence? = some links ∧
      ∀ link ∈ links, ∃ fields, link.fields? = some fields ∧ Entries.get fields "to" ≠ .null

/-- Some declaration of a name lists a link whose target has another name. -/
def Refers (ds : List Datum) (a b : Text) : Prop :=
  ∃ d ∈ ds, declaredName d = .ok a ∧ ∃ links, declaredLinks (d.fields?.getD []) = .ok links ∧
    ∃ link ∈ links, ∃ fields, link.fields? = some fields ∧
      (Entries.get fields "to").nameText? = some b

/-- The first declaration of every name lacks the key that no attribute can have. -/
def LacksForbidden (ds : List Datum) : Prop :=
  ∀ name d, ds.find? (fun d => (declaredName d).toOption == some name) = some d →
    Entries.find? (d.fields?.getD []) (.text forbiddenAttribute) = none

/-- A value has a text, and the text has an encoding. -/
def Datum.HasUnicodeText (d : Datum) : Prop := ∃ t, d.display? = some t ∧ t.utf8?.isSome

/-- A declaration whose name and targets are steady and have texts with encodings. -/
structure Datum.HasUnicodeNames (d : Datum) : Prop where
  steady : d.HasSteadyNames
  name : (Entries.get (d.fields?.getD []) "name").HasUnicodeText
  targets : ∀ links, declaredLinks (d.fields?.getD []) = .ok links → ∀ link ∈ links, ∀ fields,
    link.fields? = some fields → (Entries.get fields "to").HasUnicodeText

/-! ## Conditions on outlines -/

/-- All links of an outline are mappings with targets. -/
def NodeOutline.IsLinked (o : NodeOutline) : Prop :=
  ∃ links, o.links? = some links ∧
    ∀ link ∈ links, ∃ l, link = some l ∧ l.target.nameText?.isSome

/-- An outline is linked if it lists links and every one of them has a target. -/
lemma NodeOutline.isLinked_iff {o : NodeOutline} : o.IsLinked ↔ o.links?.isSome ∧
    ∀ link ∈ o.links?.getD [], ∃ l, link = some l ∧ l.target.nameText?.isSome := by
  unfold IsLinked
  cases o.links? with
  | none => simp
  | some links => simp

/-- A value that has a text stands for a name if it is given. -/
lemma isSome_nameText?_iff {d : Datum} (hd : d.HasUnicodeText) :
    d.nameText?.isSome ↔ d ≠ .null := by
  obtain ⟨t, ht, -⟩ := hd
  unfold Datum.nameText?
  split
  · simp
  · next hne =>
    rw [ht]
    exact iff_of_true rfl fun h => hne h

/-- What stands for a name and has a text with an encoding, stands for an encodable name. -/
lemma Datum.HasUnicodeText.isSome_utf8? {d : Datum} (hd : d.HasUnicodeText) {t : Text}
    (ht : d.nameText? = some t) : t.utf8?.isSome := by
  obtain ⟨t', ht', hencodes⟩ := hd
  unfold Datum.nameText? at ht
  split at ht
  · cases ht
  · rw [ht'] at ht
    cases ht
    exact hencodes

/-- A declaration with a text for a name has a name if it is a mapping whose name is given. -/
lemma isNamed_iff {d : Datum} (hname : (Entries.get (d.fields?.getD []) "name").HasUnicodeText) :
    d.IsNamed ↔ ∃ name, declaredName d = .ok name := by
  simp only [declaredName_eq_ok_iff]
  unfold Datum.IsNamed
  cases hfields : d.fields? with
  | none => simp
  | some fields =>
    rw [hfields, Option.getD_some] at hname
    have hiff := isSome_nameText?_iff hname
    rw [Option.isSome_iff_exists] at hiff
    simpa using hiff.symm

/-- What a list or a pair gives are its items. -/
lemma givenElements_of_sequence? {d : Datum} {items : List Datum} (h : d.sequence? = some items) :
    d.givenElements = .ok items := by
  unfold Datum.sequence? at h
  unfold Datum.givenElements Datum.isTruthy Datum.elements?
  cases hd : d.opened with
  | list items' =>
    rw [hd] at h
    cases h
    cases items with
    | nil => rfl
    | cons item items => rfl
  | pair first second =>
    rw [hd] at h
    cases h
    rfl
  | _ =>
    rw [hd] at h
    cases h

/-- What has parts is a list or a pair, or its parts are atoms, and there are some if it is given. -/
lemma sequence?_or_atoms {d : Datum} {items : List Datum} (h : d.elements? = some items) :
    d.sequence? = some items ∨
      ∃ atoms : List Atom, items = atoms.map .atom ∧ (d.isTruthy → atoms ≠ []) := by
  unfold Datum.elements? at h
  unfold Datum.sequence? Datum.isTruthy
  cases hd : d.opened with
  | list items' =>
    rw [hd] at h
    exact .inl h
  | pair first second =>
    rw [hd] at h
    exact .inl h
  | map entries =>
    rw [hd] at h
    cases h
    refine .inr ⟨entries.map Prod.fst, by rw [List.map_map]; rfl, ?_⟩
    simp
  | set elements =>
    rw [hd] at h
    cases h
    exact .inr ⟨elements, rfl, by simp⟩
  | atom a =>
    rw [hd] at h
    cases a with
    | text t =>
      cases h
      refine .inr ⟨t.map fun c => .text [c], by rw [List.map_map]; rfl, ?_⟩
      simp
    | bytes bs =>
      cases h
      refine .inr ⟨bs.map fun b => .int b.toNat, by rw [List.map_map]; rfl, ?_⟩
      simp
    | _ => cases h
  | knot strands place =>
    rw [hd] at h
    cases h
  | strand place =>
    rw [hd] at h
    cases h

/-- A given value whose parts are all mappings is a list or a pair. -/
lemma sequence?_of_elements? {d : Datum} {items : List Datum} (htruthy : d.isTruthy)
    (helements : d.elements? = some items) (hitems : ∀ item ∈ items, item.fields?.isSome) :
    d.sequence? = some items := by
  rcases sequence?_or_atoms helements with hsequence | ⟨atoms, rfl, hne⟩
  · exact hsequence
  · -- the parts are atoms and there is one, and no atom is a mapping
    obtain ⟨a, atoms, rfl⟩ := List.exists_cons_of_ne_nil (hne htruthy)
    cases hitems (.atom a) List.mem_cons_self

/-- The links of a declaration whose targets have texts are given as they should be if those of its
outline are. -/
lemma isLinked_iff {d : Datum}
    (htargets : ∀ links, declaredLinks (d.fields?.getD []) = .ok links → ∀ link ∈ links, ∀ fields,
      link.fields? = some fields → (Entries.get fields "to").HasUnicodeText) :
    d.IsLinked ↔ (declaredOutline d).IsLinked := by
  have htarget : ∀ links, declaredLinks (d.fields?.getD []) = .ok links → ∀ link ∈ links,
      (∃ fields, link.fields? = some fields ∧ Entries.get fields "to" ≠ .null) ↔
        ∃ l, linkOutline? link = some l ∧ l.target.nameText?.isSome := by
    intro links hlinks link hlink
    unfold linkOutline?
    cases hfields : link.fields? with
    | none => simp
    | some fields =>
      have hiff := isSome_nameText?_iff (htargets links hlinks link hlink fields hfields)
      simpa using hiff.symm
  unfold NodeOutline.IsLinked
  rw [links?_declaredOutline]
  constructor
  · rintro (hfalsy | ⟨links, hlinks, hgiven⟩)
    · have hnone : declaredLinks (d.fields?.getD []) = .ok [] :=
        Datum.givenElements_eq_ok_iff.mpr (Or.inl ⟨hfalsy, rfl⟩)
      rw [hnone]
      exact ⟨[], rfl, fun _ h => absurd h List.not_mem_nil⟩
    · have hok : declaredLinks (d.fields?.getD []) = .ok links := givenElements_of_sequence? hlinks
      rw [hok]
      refine ⟨_, rfl, ?_⟩
      rw [List.forall_mem_map]
      intro link hlink
      exact (htarget links hok link hlink).mp (hgiven link hlink)
  · rintro ⟨outlines, houtlines, hgiven⟩
    cases hok : declaredLinks (d.fields?.getD []) with
    | error failure =>
      rw [hok] at houtlines
      cases houtlines
    | ok links =>
      rw [hok] at houtlines
      cases houtlines
      rw [List.forall_mem_map] at hgiven
      have hmappings : ∀ link ∈ links, ∃ fields, link.fields? = some fields ∧
          Entries.get fields "to" ≠ .null :=
        fun link hlink => (htarget links hok link hlink).mpr (hgiven link hlink)
      rcases Datum.givenElements_eq_ok_iff.mp hok with ⟨hfalsy, -⟩ | ⟨htruthy, helements⟩
      · exact Or.inl hfalsy
      · refine Or.inr ⟨links, sequence?_of_elements? htruthy helements ?_, hmappings⟩
        intro link hlink
        obtain ⟨fields, hfields, -⟩ := hmappings link hlink
        rw [hfields]
        rfl

/-- The names that an outline leads to are those of the targets of the links. -/
lemma mem_targets_iff {o : NodeOutline} {b : Text} : b ∈ o.targets ↔
    ∃ link ∈ o.links?.getD [], ∃ l, link = some l ∧ l.target.nameText? = some b := by
  unfold NodeOutline.targets
  rw [List.mem_filterMap]
  refine exists_congr fun link => and_congr_right fun _ => ?_
  rw [Option.bind_eq_some_iff]

/-- The names that the outline of a declaration leads to are those that its links lead to. -/
lemma mem_targets_declaredOutline_iff {d : Datum} {b : Text} : b ∈ (declaredOutline d).targets ↔
    ∃ links, declaredLinks (d.fields?.getD []) = .ok links ∧ ∃ link ∈ links, ∃ fields,
      link.fields? = some fields ∧ (Entries.get fields "to").nameText? = some b := by
  rw [mem_targets_iff, links?_declaredOutline]
  cases declaredLinks (d.fields?.getD []) with
  | error failure =>
    constructor
    · rintro ⟨link, hlink, -⟩
      exact absurd hlink List.not_mem_nil
    · rintro ⟨links, hlinks, -⟩
      cases hlinks
  | ok links =>
    have hok : (∃ links', (Except.ok links : Except Failure (List Datum)) = .ok links' ∧
        ∃ link ∈ links', ∃ fields, link.fields? = some fields ∧
          (Entries.get fields "to").nameText? = some b) ↔
        ∃ link ∈ links, ∃ fields, link.fields? = some fields ∧
          (Entries.get fields "to").nameText? = some b := by simp
    rw [hok]
    constructor
    · rintro ⟨outline, houtline, l, rfl, htarget⟩
      obtain ⟨link, hlink, hl⟩ := List.mem_map.mp houtline
      obtain ⟨fields, hfields, rfl⟩ := Option.map_eq_some_iff.mp hl
      exact ⟨link, hlink, fields, hfields, htarget⟩
    · rintro ⟨link, hlink, fields, hfields, htarget⟩
      have hl : linkOutline? link = some
          { target := Entries.get fields "to"
            given := (Entries.get fields "color").isTruthy
            random := (Entries.get fields "color").isRandom } := by
        unfold linkOutline?
        rw [hfields]
        rfl
      exact ⟨_, List.mem_map_of_mem hlink, _, hl, htarget⟩

/-! ## What a summary says -/

namespace Outline.Summarizes

variable {o : Outline} {ds : List Datum}

/-- A summary leads where the declarations refer. -/
lemma leads_iff (h : o.Summarizes (outlineEntries ds)) {a b : Text} :
    o.Leads a b ↔ Refers ds a b := by
  unfold Outline.Leads Refers
  constructor
  · rintro ⟨entry, hentry, rfl, hb⟩
    obtain ⟨link, hlink, l, hl, htarget⟩ := mem_targets_iff.mp hb
    obtain ⟨e, he, hname, hmem⟩ := (h.links entry hentry link).mp hlink
    obtain ⟨d, hd, hdname, hdoutline⟩ := mem_outlineEntries_iff.mp he
    refine ⟨d, hd, hdname.trans (congrArg _ hname), ?_⟩
    rw [← mem_targets_declaredOutline_iff, hdoutline]
    exact mem_targets_iff.mpr ⟨link, hmem, l, hl, htarget⟩
  · rintro ⟨d, hd, hname, hlinks⟩
    rw [← mem_targets_declaredOutline_iff] at hlinks
    obtain ⟨link, hlink, l, hl, htarget⟩ := mem_targets_iff.mp hlinks
    have he : (a, declaredOutline d) ∈ outlineEntries ds :=
      mem_outlineEntries_iff.mpr ⟨d, hd, hname, rfl⟩
    obtain ⟨entry, hentry, rfl⟩ := List.mem_map.mp
      ((h.names a).mpr (List.mem_map_of_mem he))
    have hmem := (h.links entry hentry link).mpr ⟨_, he, rfl, hlink⟩
    exact ⟨entry, hentry, rfl, mem_targets_iff.mpr ⟨link, hmem, l, hl, htarget⟩⟩

/-- The entries of a summary have links as they should be if the declarations have. -/
lemma forall_isLinked_iff (h : o.Summarizes (outlineEntries ds))
    (hnames : ∀ d ∈ ds, ∃ name, declaredName d = .ok name) :
    (∀ entry ∈ o, entry.2.IsLinked) ↔ ∀ d ∈ ds, (declaredOutline d).IsLinked := by
  constructor
  · intro hlinked d hd
    obtain ⟨name, hname⟩ := hnames d hd
    have he : (name, declaredOutline d) ∈ outlineEntries ds :=
      mem_outlineEntries_iff.mpr ⟨d, hd, hname, rfl⟩
    obtain ⟨entry, hentry, rfl⟩ := List.mem_map.mp ((h.names name).mpr (List.mem_map_of_mem he))
    obtain ⟨hlisted, hgood⟩ := NodeOutline.isLinked_iff.mp (hlinked entry hentry)
    refine NodeOutline.isLinked_iff.mpr ⟨?_, ?_⟩
    · exact (h.listed entry hentry).mp hlisted _ he rfl
    · intro link hlink
      exact hgood link ((h.links entry hentry link).mpr ⟨_, he, rfl, hlink⟩)
  · intro hlinked entry hentry
    refine NodeOutline.isLinked_iff.mpr ⟨?_, ?_⟩
    · rw [h.listed entry hentry]
      intro e he _
      obtain ⟨d, hd, -, houtline⟩ := mem_outlineEntries_iff.mp he
      rw [← houtline]
      exact (NodeOutline.isLinked_iff.mp (hlinked d hd)).1
    · intro link hlink
      obtain ⟨e, he, -, hmem⟩ := (h.links entry hentry link).mp hlink
      obtain ⟨d, hd, -, houtline⟩ := mem_outlineEntries_iff.mp he
      rw [← houtline] at hmem
      exact (NodeOutline.isLinked_iff.mp (hlinked d hd)).2 link hmem

/-- The entries of a summary lack the forbidden key if the first declarations of their names do. -/
lemma forall_forbidden_iff (h : o.Summarizes (outlineEntries ds)) :
    (∀ entry ∈ o, entry.2.forbidden = false) ↔ LacksForbidden ds := by
  have hforbidden : ∀ d, (declaredOutline d).forbidden = false ↔
      Entries.find? (d.fields?.getD []) (.text forbiddenAttribute) = none := by
    intro d
    unfold declaredOutline nodeOutline
    rw [Option.isSome_eq_false_iff, Option.isNone_iff_eq_none]
  constructor
  · intro hall name d hfind
    have hname : (declaredName d).toOption = some name := by
      simpa using List.find?_some hfind
    have he := find?_outlineEntries ds name
    rw [hfind, Option.map_some] at he
    obtain ⟨entry, hentry, rfl⟩ := List.mem_map.mp ((h.names name).mpr
      (List.mem_map_of_mem (List.mem_of_find?_eq_some he)))
    obtain ⟨e, hfirst, heq⟩ := h.first entry hentry
    rw [he] at hfirst
    cases hfirst
    rw [← hforbidden, ← heq]
    exact hall entry hentry
  · intro hlacks entry hentry
    obtain ⟨e, hfirst, heq⟩ := h.first entry hentry
    rw [find?_outlineEntries] at hfirst
    obtain ⟨d, hfind, rfl⟩ := Option.map_eq_some_iff.mp hfirst
    rw [heq, hforbidden]
    exact hlacks _ d hfind

/-- The names of a summary have encodings if those of the declarations have. -/
lemma isEncodable (h : o.Summarizes (outlineEntries ds)) (hds : ∀ d ∈ ds, d.HasUnicodeNames) :
    o.IsEncodable := by
  intro entry hentry
  constructor
  · obtain ⟨e, he, heq⟩ := List.mem_map.mp ((h.names entry.1).mp (List.mem_map_of_mem hentry))
    obtain ⟨d, hd, hname, -⟩ := mem_outlineEntries_iff.mp he
    obtain ⟨fields, hfields, hname⟩ := declaredName_eq_ok_iff.mp hname
    have hunicode := (hds d hd).name
    rw [hfields, Option.getD_some] at hunicode
    rw [← heq]
    exact hunicode.isSome_utf8? hname
  · intro target htarget
    obtain ⟨d, hd, -, links, hlinks, link, hlink, fields, hfields, hname⟩ :=
      h.leads_iff.mp ⟨entry, hentry, rfl, htarget⟩
    exact ((hds d hd).targets links hlinks link hlink fields hfields).isSome_utf8? hname

end Outline.Summarizes

/-! ## Acceptance -/

/-- The conditions on the declarations of a sheet, the links apart. -/
structure IsWellFormed (ds : List Datum) : Prop where
  named : ∀ d ∈ ds, d.IsNamed
  linked : ∀ d ∈ ds, d.IsLinked
  lacksForbidden : LacksForbidden ds

/-- Well-formed declarations can be added, and the outline is acceptable. -/
lemma exists_collection_of_isWellFormed {ds : List Datum} (hds : ∀ d ∈ ds, d.HasUnicodeNames)
    (h : IsWellFormed ds) : ∃ c, ds.foldlM Collection.add {} = .ok c ∧
      c.outline.Summarizes (outlineEntries ds) ∧ ∀ entry ∈ c.outline, entry.2.IsAcceptable := by
  have hsteady : ∀ d ∈ ds, d.HasSteadyNames := fun d hd => (hds d hd).steady
  have hnames : ∀ d ∈ ds, ∃ name, declaredName d = .ok name :=
    fun d hd => (isNamed_iff (hds d hd).name).mp (h.named d hd)
  have hlinked : ∀ d ∈ ds, (declaredOutline d).IsLinked :=
    fun d hd => (isLinked_iff (hds d hd).targets).mp (h.linked d hd)
  have hempty : ({} : Collection).IsProper := fun d hd => absurd hd List.not_mem_nil
  obtain ⟨c, hc⟩ := Collection.exists_foldlM_of_listed hempty
    (fun entry hentry => absurd hentry List.not_mem_nil) hsteady hnames
    fun d hd => (NodeOutline.isLinked_iff.mp (hlinked d hd)).1
  obtain ⟨hsummary, -⟩ := Collection.summarizes_of_foldlM hempty Outline.summarizes_nil hsteady hc
  rw [List.nil_append] at hsummary
  have hforbidden := hsummary.forall_forbidden_iff.mpr h.lacksForbidden
  have hall := (hsummary.forall_isLinked_iff hnames).mpr hlinked
  exact ⟨c, hc, hsummary, fun entry hentry => ⟨hforbidden entry hentry, hall entry hentry⟩⟩

/-- Declarations that have a graph are well-formed. -/
lemma isWellFormed_of_singleGraph {s : Settings} {ds : List Datum} {g : Graph}
    (hds : ∀ d ∈ ds, d.HasUnicodeNames) (hg : singleGraph s ds = .ok g) :
    IsWellFormed ds ∧ ¬ HasCycle (Refers ds) := by
  obtain ⟨c, hc, hcolored⟩ := Outcome.bind_eq_ok_iff.mp hg
  have hempty : ({} : Collection).IsProper := fun d hd => absurd hd List.not_mem_nil
  obtain ⟨hsummary, hnames⟩ := Collection.summarizes_of_foldlM hempty Outline.summarizes_nil
    (fun d hd => (hds d hd).steady) hc
  rw [List.nil_append] at hsummary
  have hacceptable := Collection.isAcceptable_of_colored hcolored
  have hleads : c.outline.Leads = Refers ds := by
    funext a b
    exact propext hsummary.leads_iff
  refine ⟨⟨?_, ?_, ?_⟩, ?_⟩
  · exact fun d hd => (isNamed_iff (hds d hd).name).mpr (hnames d hd)
  · have hlinked := (hsummary.forall_isLinked_iff hnames).mp
      fun entry hentry => (hacceptable entry hentry).2
    exact fun d hd => (isLinked_iff (hds d hd).targets).mpr (hlinked d hd)
  · exact hsummary.forall_forbidden_iff.mp fun entry hentry => (hacceptable entry hentry).1
  · rw [← hleads]
    intro hcycle
    obtain ⟨path, hpath⟩ := (Collection.colored_of_isAcceptable hacceptable hsummary.nodup
      (hsummary.isEncodable hds) s.zeroIsUnset).2 hcycle
    rw [hpath] at hcolored
    cases hcolored

/-- Well-formed declarations have a graph if they refer through no cycle, and else fail because of
one. -/
lemma singleGraph_of_isWellFormed {s : Settings} {ds : List Datum}
    (hds : ∀ d ∈ ds, d.HasUnicodeNames) (h : IsWellFormed ds) :
    (¬ HasCycle (Refers ds) → ∃ g, singleGraph s ds = .ok g) ∧
      (HasCycle (Refers ds) → ∃ path, singleGraph s ds = .error (.cycle path)) := by
  obtain ⟨c, hc, hsummary, hacceptable⟩ := exists_collection_of_isWellFormed hds h
  have hleads : c.outline.Leads = Refers ds := by
    funext a b
    exact propext hsummary.leads_iff
  have hcolored := Collection.colored_of_isAcceptable hacceptable hsummary.nodup
    (hsummary.isEncodable hds) s.zeroIsUnset
  have hsingle : singleGraph s ds = c.colored s.zeroIsUnset := by
    unfold singleGraph
    rw [hc]
    rfl
  rw [hleads] at hcolored
  rw [hsingle]
  exact hcolored

/-- Well-formed declarations that refer through a cycle fail because of one. -/
lemma buildGraphs_eq_error_of_isWellFormed {s : Settings} {ds : List Datum}
    (hds : ∀ d ∈ ds, d.HasUnicodeNames) (h : IsWellFormed ds) (hcycle : HasCycle (Refers ds)) :
    ∃ path, buildGraphs s ds = .error (.cycle path) := by
  obtain ⟨c, hc, hsummary, hacceptable⟩ := exists_collection_of_isWellFormed hds h
  have hleads : c.outline.Leads = Refers ds := by
    funext a b
    exact propext hsummary.leads_iff
  have hempty : ({} : Collection).IsProper := fun d hd => absurd hd List.not_mem_nil
  -- every variant has the outline of the declarations as they are, and so the cycle
  have hvariant : ∀ number, ∃ c', (Builder.variant ds number).foldlM Collection.add {} = .ok c' ∧
      c.outline = c'.outline := by
    intro number
    have halike := Builder.forall₂_declaredAlike_variant (fun d hd => (hds d hd).steady) number
    exact Collection.exists_foldlM_add hempty hempty rfl
      (halike.flip.imp fun _ _ => DeclaredAlike.symm) hc
  have hfails : ∀ number, ∃ path, variantGraph s ds number = .error (.cycle path) := by
    intro number
    obtain ⟨c', hc', houtline⟩ := hvariant number
    obtain ⟨path, hpath⟩ := (Collection.colored_of_isAcceptable (houtline ▸ hacceptable)
      (houtline ▸ hsummary.nodup) (houtline ▸ hsummary.isEncodable hds) s.zeroIsUnset).2
      (houtline ▸ hleads ▸ hcycle)
    refine ⟨path, ?_⟩
    unfold variantGraph singleGraph
    rw [hc']
    change _ <$> c'.colored s.zeroIsUnset = _
    rw [hpath]
    rfl
  rw [buildGraphs_eq_mapM fun number _ => (hvariant number).imp fun _ h => h.1]
  cases hbuilt : (List.range (Builder.variantTotal ds)).mapM (variantGraph s ds) with
  | ok gs =>
    obtain ⟨g, hg⟩ := Outcome.exists_mapM_eq_ok_iff.mp ⟨gs, hbuilt⟩ 0
      (List.mem_range.mpr (Builder.variantTotal_pos ds))
    obtain ⟨path, hpath⟩ := hfails 0
    rw [hpath] at hg
    cases hg
  | error failure =>
    obtain ⟨number, -, hnumber⟩ := Outcome.exists_of_mapM_eq_error hbuilt
    obtain ⟨path, hpath⟩ := hfails number
    rw [hpath] at hnumber
    cases hnumber
    exact ⟨path, rfl⟩

/-- A graph of a sheet has no cycle. -/
lemma not_hasCycle_of_buildGraphs {s : Settings} {ds : List Datum} {gs : List Graph}
    (hgs : buildGraphs s ds = .ok gs) : ∀ g ∈ gs, ¬ HasCycle (Leads (targetsOf g.nodes)) := by
  intro g hg
  obtain ⟨number, -, hnumber⟩ :=
    Outcome.exists_of_mem_of_mapM_eq_ok (buildGraphs_eq_ok_iff_mapM.mp hgs) hg
  obtain ⟨g', hg', rfl⟩ := Outcome.map_eq_ok_iff.mp hnumber
  obtain ⟨c, -, hcolored⟩ := Outcome.bind_eq_ok_iff.mp hg'
  have hacyclic := Collection.not_hasCycle_of_colored hcolored
  exact hacyclic

/-- A sheet is accepted if and only if every declaration is a mapping with a name, every declaration
lists links that are mappings with targets, no first declaration of a name has the key that no
attribute can have, and no links lead through a cycle. If only the cycle is wrong, it is what is
reported, and whatever is accepted has no cycle. -/
theorem buildGraphs_accepts (s : Settings) (ds : List Datum)
    (hds : ∀ d ∈ ds, d.HasUnicodeNames) :
    ((∃ gs, buildGraphs s ds = .ok gs) ↔ IsWellFormed ds ∧ ¬ HasCycle (Refers ds)) ∧
    (IsWellFormed ds → HasCycle (Refers ds) →
      ∃ path, buildGraphs s ds = .error (.cycle path)) ∧
    (∀ gs, buildGraphs s ds = .ok gs → ∀ g ∈ gs, ¬ HasCycle (Leads (targetsOf g.nodes))) := by
  refine ⟨?_, buildGraphs_eq_error_of_isWellFormed hds, fun gs => not_hasCycle_of_buildGraphs⟩
  rw [exists_buildGraphs_iff fun d hd => (hds d hd).steady]
  constructor
  · rintro ⟨g, hg⟩
    exact isWellFormed_of_singleGraph hds hg
  · rintro ⟨hwell, hacyclic⟩
    exact (singleGraph_of_isWellFormed hds hwell).1 hacyclic

/-- A sheet whose second declaration of a name has the forbidden key and adds a link. -/
def redeclaredSheet : List Datum :=
  [.map [(.text "name", .text "A"), (.text "links", .list [.map [(.text "to", .text "B")]])],
   .map [(.text "name", .text "A"), (.text "self", .int 1),
     (.text "links", .list [.map [(.text "to", .text "C")]])]]

/-- A mapping with a text for a name and one link to a text has a name and a target with
encodings. -/
lemma hasUnicodeNames_of_singleton {entries : Entries} {name target : Text}
    (hfree : Datum.entriesAreFree entries) (hname : Entries.get entries "name" = .text name)
    (hlinks : Entries.get entries "links" = .list [.map [(.text "to", .text target)]])
    (hencodes : name.utf8?.isSome) (hencodes' : target.utf8?.isSome) :
    (Datum.map entries).HasUnicodeNames := by
  have hok : declaredLinks entries = .ok [.map [(.text "to", .text target)]] := by
    unfold declaredLinks
    rw [hlinks]
    rfl
  have hfields : (Datum.map entries).fields?.getD [] = entries := rfl
  refine ⟨Datum.hasSteadyNames_of_isFree hfree fun _ _ h => (by cases h), ?_, ?_⟩
  · rw [hfields, hname]
    exact ⟨name, rfl, hencodes⟩
  · intro links hsome link hlink fields hlinkfields
    rw [hfields, hok] at hsome
    cases hsome
    rw [List.mem_singleton.mp hlink] at hlinkfields
    cases hlinkfields
    exact ⟨target, rfl, hencodes'⟩

/-- The redeclared sheet is well-formed and has no cycle, so it is accepted. -/
theorem buildGraphs_redeclaredSheet :
    (∃ gs, buildGraphs {} redeclaredSheet = .ok gs) ∧
      IsWellFormed redeclaredSheet ∧ ¬ HasCycle (Refers redeclaredSheet) := by
  have hds : ∀ d ∈ redeclaredSheet, d.HasUnicodeNames := by
    intro d hd
    rcases List.mem_pair.mp hd with rfl | rfl
    · exact hasUnicodeNames_of_singleton rfl rfl rfl rfl rfl
    · exact hasUnicodeNames_of_singleton rfl rfl rfl rfl rfl
  have hbuilt : (buildGraphs {} redeclaredSheet).isOk := by decide +kernel
  cases h : buildGraphs {} redeclaredSheet with
  | error failure =>
    rw [h] at hbuilt
    cases hbuilt
  | ok gs => exact ⟨⟨gs, rfl⟩, (buildGraphs_accepts {} redeclaredSheet hds).1.mp ⟨gs, h⟩⟩

/-- A declaration with a key that no attribute can have. -/
def selfishSheet : List Datum := [.map [(.text "name", .text "A"), (.text "self", .int 1)]]

/-- The key is enough for a sheet not to be accepted: its declaration is a mapping with a name and
without links. -/
theorem not_buildGraphs_selfishSheet :
    (∀ d ∈ selfishSheet, d.IsNamed) ∧ (∀ d ∈ selfishSheet, d.IsLinked) ∧
      ¬ HasCycle (Refers selfishSheet) ∧ buildGraphs {} selfishSheet = .error .wrongType := by
  refine ⟨?_, ?_, ?_, rfl⟩
  · intro d hd
    rw [List.mem_singleton.mp hd]
    exact ⟨_, rfl, fun h => by cases h⟩
  · intro d hd
    rw [List.mem_singleton.mp hd]
    exact Or.inl rfl
  · rintro ⟨a, hcycle⟩
    obtain ⟨b, ⟨d, hd, -, links, hlinks, link, hlink, -⟩, -⟩ :=
      Relation.TransGen.head'_iff.mp hcycle
    rw [List.mem_singleton.mp hd] at hlinks
    cases hlinks
    exact absurd hlink List.not_mem_nil

end StockFlow
