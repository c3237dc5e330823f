import Mathlib.Data.List.Nodup
import StockFlow.Proofs.Sheet.Alike
/-!
# Summaries of declarations

Declarations of one name are spread over a sheet, and only the first of them becomes the node, with
the links of all. The invariant of adding declarations is that the outline of a collection summarizes
the declarations so far (`Outline.Summarizes`, `Collection.summarizes_of_foldlM`).
-/

namespace StockFlow

/-! ## Outlines that summarize -/

namespace Outline

/-- An outline that has one entry for every name of some declarations: the entry lists links if all
declarations of the name do, has the links of all, and has the forbidden key if the first one has. -/
structure Summarizes (o : Outline) (entries : List (Text × NodeOutline)) : Prop where
  nodup : (o.map Prod.fst).Nodup
  names : ∀ name, name ∈ o.map Prod.fst ↔ name ∈ entries.map Prod.fst
  listed : ∀ entry ∈ o, entry.2.links?.isSome ↔
    ∀ e ∈ entries, e.1 = entry.1 → e.2.links?.isSome
  links : ∀ entry ∈ o, ∀ link, link ∈ entry.2.links?.getD [] ↔
    ∃ e ∈ entries, e.1 = entry.1 ∧ link ∈ e.2.links?.getD []
  first : ∀ entry ∈ o, ∃ e, entries.find? (fun e => e.1 == entry.1) = some e ∧
    entry.2.forbidden = e.2.forbidden

/-- The empty outline summarizes no declarations. -/
lemma summarizes_nil : Summarizes [] [] where
  nodup := List.nodup_nil
  names := fun _ => Iff.rfl
  listed := fun _ h => absurd h List.not_mem_nil
  links := fun _ h => absurd h List.not_mem_nil
  first := fun _ h => absurd h List.not_mem_nil

variable {o o' : Outline} {entries : List (Text × NodeOutline)} {name : Text} {node : NodeOutline}

/-- A declaration of another name does not change what is said about an entry. -/
lemma forall_append_iff {P : Text × NodeOutline → Prop} {other : Text} (hne : name ≠ other) :
    (∀ e ∈ entries ++ [(name, node)], e.1 = other → P e) ↔ ∀ e ∈ entries, e.1 = other → P e := by
  rw [List.forall_mem_append, List.forall_mem_singleton]
  exact and_iff_left fun h => absurd h hne

/-- A declaration of another name adds nothing to an entry. -/
lemma exists_append_iff {P : Text × NodeOutline → Prop} {other : Text} (hne : name ≠ other) :
    (∃ e ∈ entries ++ [(name, node)], e.1 = other ∧ P e) ↔ ∃ e ∈ entries, e.1 = other ∧ P e := by
  constructor
  · rintro ⟨e, he, hother, hP⟩
    rcases List.mem_append.mp he with he | he
    · exact ⟨e, he, hother, hP⟩
    · rw [List.mem_singleton.mp he] at hother
      exact absurd hother hne
  · rintro ⟨e, he, hP⟩
    exact ⟨e, List.mem_append_left _ he, hP⟩

/-- A summary of declarations becomes one with a declaration of a new name. -/
lemma Summarizes.append (h : o.Summarizes entries) (hnew : name ∉ o.map Prod.fst) :
    Summarizes (o ++ [(name, node)]) (entries ++ [(name, node)]) := by
  have hentries : name ∉ entries.map Prod.fst := fun hmem => hnew ((h.names name).mpr hmem)
  have hne : ∀ entry ∈ o, name ≠ entry.1 := by
    rintro entry hentry rfl
    exact hnew (List.mem_map_of_mem hentry)
  have hother : ∀ e ∈ entries, e.1 ≠ name := by
    rintro e he rfl
    exact hentries (List.mem_map_of_mem he)
  refine ⟨?_, ?_, ?_, ?_, ?_⟩
  · rw [List.map_append]
    exact h.nodup.append (List.nodup_singleton _) (by simpa using hnew)
  · intro other
    rw [List.map_append, List.map_append, List.mem_append, List.mem_append, h.names]
  · rw [List.forall_mem_append, List.forall_mem_singleton]
    refine ⟨fun entry hentry => ?_, ?_⟩
    · rw [forall_append_iff (hne entry hentry)]
      exact h.listed entry hentry
    · rw [List.forall_mem_append, List.forall_mem_singleton]
      constructor
      · intro hlisted
        exact ⟨fun e he heq => absurd heq (hother e he), fun _ => hlisted⟩
      · intro hlisted
        exact hlisted.2 rfl
  · rw [List.forall_mem_append, List.forall_mem_singleton]
    refine ⟨fun entry hentry link => ?_, fun link => ?_⟩
    · rw [exists_append_iff (hne entry hentry)]
      exact h.links entry hentry link
    · constructor
      · intro hlink
        exact ⟨(name, node), List.mem_append_right _ (List.mem_singleton_self _), rfl, hlink⟩
      · rintro ⟨e, he, heq, hlink⟩
        rcases List.mem_append.mp he with he | he
        · exact absurd heq (hother e he)
        · rwa [List.mem_singleton.mp he] at hlink
  · rw [List.forall_mem_append, List.forall_mem_singleton]
    refine ⟨fun entry hentry => ?_, ?_⟩
    · obtain ⟨e, he, hforbidden⟩ := h.first entry hentry
      refine ⟨e, ?_, hforbidden⟩
      rw [List.find?_append, he, Option.some_or]
    · refine ⟨(name, node), ?_, rfl⟩
      have hnone : entries.find? (fun e => e.1 == name) = none := by
        rw [List.find?_eq_none]
        exact fun e he heq => hother e he (by simpa using heq)
      rw [List.find?_append, hnone, Option.none_or, List.find?_singleton, if_pos (by simp)]

/-- The parts of an outline with the links of another one behind its own. -/
lemma merge_eq_some {o further merged : NodeOutline} (h : o.merge further = some merged) :
    ∃ own links, o.links? = some own ∧ further.links? = some links ∧
      merged = { o with links? := some (own ++ links) } := by
  unfold NodeOutline.merge at h
  cases hown : o.links? with
  | none =>
    rw [hown] at h
    cases h
  | some own =>
    cases hlinks : further.links? with
    | none =>
      rw [hown, hlinks] at h
      cases h
    | some links =>
      rw [hown, hlinks] at h
      cases h
      exact ⟨own, links, rfl, rfl, rfl⟩

/-- Putting an entry into the place of another one changes no name. -/
lemma map_fst_withEntry (o : Outline) (name : Text) (merged : NodeOutline) :
    (o.withEntry name merged).map Prod.fst = o.map Prod.fst := by
  unfold withEntry
  rw [List.map_map]
  refine List.map_congr_left fun entry _ => ?_
  dsimp only [Function.comp_apply]
  split
  · rfl
  · rfl

/-- The entry of the name is replaced, and the others are kept. -/
lemma eq_or_mem_of_mem_withEntry {merged : NodeOutline} {entry : Text × NodeOutline}
    (h : entry ∈ o.withEntry name merged) :
    entry = (name, merged) ∨ entry ∈ o ∧ name ≠ entry.1 := by
  obtain ⟨old, hold, rfl⟩ := List.mem_map.mp h
  by_cases heq : old.1 = name
  · rw [if_pos (by simpa using heq), heq]
    exact Or.inl rfl
  · rw [if_neg (by simpa using heq)]
    exact Or.inr ⟨hold, Ne.symm heq⟩

/-- The links of a name are those that it had and those of a further declaration of it. -/
lemma mem_append_iff_exists {own further : List (Option LinkOutline)} {link : Option LinkOutline}
    (hlinks : link ∈ own ↔ ∃ e ∈ entries, e.1 = name ∧ link ∈ e.2.links?.getD [])
    (hfurther : node.links? = some further) :
    link ∈ own ++ further ↔
      ∃ e ∈ entries ++ [(name, node)], e.1 = name ∧ link ∈ e.2.links?.getD [] := by
  rw [List.mem_append, hlinks]
  constructor
  · rintro (⟨e, hmem, heq, hlink⟩ | hlink)
    · exact ⟨e, List.mem_append_left _ hmem, heq, hlink⟩
    · refine ⟨(name, node), List.mem_append_right _ (List.mem_singleton_self _), rfl, ?_⟩
      rw [hfurther]
      exact hlink
  · rintro ⟨e, hmem, heq, hlink⟩
    rcases List.mem_append.mp hmem with hmem | hmem
    · exact Or.inl ⟨e, hmem, heq, hlink⟩
    · rw [List.mem_singleton.mp hmem, hfurther] at hlink
      exact Or.inr hlink

/-- A summary of declarations becomes one with another declaration of a name when its links are merged
into the entry of the name. -/
lemma Summarizes.replace (h : o.Summarizes entries) {existing merged : NodeOutline}
    (hexisting : (name, existing) ∈ o) (hmerged : existing.merge node = some merged) :
    (o.withEntry name merged).Summarizes (entries ++ [(name, node)]) := by
  obtain ⟨own, further, hown, hfurther, rfl⟩ := merge_eq_some hmerged
  refine ⟨?_, ?_, ?_, ?_, ?_⟩
  · rw [map_fst_withEntry]
    exact h.nodup
  · intro other
    have hmem : name ∈ entries.map Prod.fst := (h.names name).mp (List.mem_map_of_mem hexisting)
    rw [map_fst_withEntry, h.names, List.map_append, List.mem_append, List.map_singleton,
      List.mem_singleton]
    constructor
    · exact Or.inl
    · rintro (hother | rfl)
      · exact hother
      · exact hmem
  · intro entry he
    rcases eq_or_mem_of_mem_withEntry he with rfl | ⟨hold, hne⟩
    · have hlisted := (h.listed _ hexisting).mp (by rw [hown]; rfl)
      refine iff_of_true rfl ?_
      rw [List.forall_mem_append, List.forall_mem_singleton]
      exact ⟨hlisted, fun _ => by rw [hfurther]; rfl⟩
    · rw [forall_append_iff hne]
      exact h.listed entry hold
  · intro entry he link
    rcases eq_or_mem_of_mem_withEntry he with rfl | ⟨hold, hne⟩
    · have hlinks := h.links _ hexisting link
      rw [hown] at hlinks
      exact mem_append_iff_exists hlinks hfurther
    · rw [exists_append_iff hne]
      exact h.links entry hold link
  · intro entry he
    have hfirst : ∃ e, entries.find? (fun e => e.1 == entry.1) = some e ∧
        entry.2.forbidden = e.2.forbidden := by
      rcases eq_or_mem_of_mem_withEntry he with rfl | ⟨hold, -⟩
      · obtain ⟨e, hfind, hforbidden⟩ := h.first _ hexisting
        exact ⟨e, hfind, hforbidden⟩
      · exact h.first entry hold
    obtain ⟨e, hfind, hforbidden⟩ := hfirst
    exact ⟨e, by rw [List.find?_append, hfind, Option.some_or], hforbidden⟩

/-- Adding a declaration keeps an outline a summary. -/
theorem Summarizes.add (h : o.Summarizes entries) (hadd : o.add name node = some o') :
    o'.Summarizes (entries ++ [(name, node)]) := by
  unfold Outline.add at hadd
  cases hfind : o.find? fun entry => entry.1 == name with
  | none =>
    rw [hfind] at hadd
    cases hadd
    refine h.append fun hmem => ?_
    obtain ⟨entry, hentry, heq⟩ := List.mem_map.mp hmem
    exact List.find?_eq_none.mp hfind entry hentry (by simpa using heq)
  | some entry =>
    rw [hfind] at hadd
    obtain ⟨merged, hmerged, hadd⟩ := Option.bind_eq_some_iff.mp hadd
    cases hadd
    have heq : entry.1 = name := by simpa using List.find?_some hfind
    refine h.replace ?_ hmerged
    rw [← heq]
    exact List.mem_of_find?_eq_some hfind

/-- A declaration that lists links can be added to an outline whose entries do, and keeps it so. -/
lemma exists_add (hlisted : ∀ entry ∈ o, entry.2.links?.isSome) (hnode : node.links?.isSome) :
    ∃ o', o.add name node = some o' ∧ ∀ entry ∈ o', entry.2.links?.isSome := by
  unfold Outline.add
  cases hfind : o.find? fun entry => entry.1 == name with
  | none =>
    refine ⟨_, rfl, ?_⟩
    rw [List.forall_mem_append, List.forall_mem_singleton]
    exact ⟨hlisted, hnode⟩
  | some entry =>
    obtain ⟨own, hown⟩ := Option.isSome_iff_exists.mp
      (hlisted entry (List.mem_of_find?_eq_some hfind))
    obtain ⟨further, hfurther⟩ := Option.isSome_iff_exists.mp hnode
    have hmerge : entry.2.merge node =
        some { entry.2 with links? := some (own ++ further) } := by
      unfold NodeOutline.merge
      rw [hown, hfurther]
      rfl
    refine ⟨_, Option.bind_eq_some_iff.mpr ⟨_, hmerge, rfl⟩, ?_⟩
    rw [List.forall_mem_map]
    intro entry' hentry'
    split
    · rfl
    · exact hlisted entry' hentry'

end Outline

/-! ## Collections of declarations -/

/-- The names that declarations have, with their outlines. -/
def outlineEntries (ds : List Datum) : List (Text × NodeOutline) :=
  ds.filterMap fun d => (declaredName d).toOption.map fun name => (name, declaredOutline d)

/-- A declaration with a name is an entry. -/
lemma outlineEntries_cons {d : Datum} {name : Text} (hname : declaredName d = .ok name)
    (ds : List Datum) : outlineEntries (d :: ds) = (name, declaredOutline d) :: outlineEntries ds := by
  unfold outlineEntries
  rw [List.filterMap_cons, hname]
  rfl

/-- The entries are the declarations with a name. -/
lemma mem_outlineEntries_iff {ds : List Datum} {e : Text × NodeOutline} :
    e ∈ outlineEntries ds ↔ ∃ d ∈ ds, declaredName d = .ok e.1 ∧ declaredOutline d = e.2 := by
  unfold outlineEntries
  rw [List.mem_filterMap]
  refine exists_congr fun d => and_congr_right fun _ => ?_
  cases hname : declaredName d with
  | error failure =>
    constructor
    · intro h
      cases h
    · rintro ⟨h, -⟩
      cases h
  | ok name =>
    constructor
    · intro h
      cases h
      exact ⟨rfl, rfl⟩
    · rintro ⟨h, houtline⟩
      cases h
      rw [houtline]
      rfl

/-- The first entry of a name is the first declaration of it. -/
lemma find?_outlineEntries (ds : List Datum) (name : Text) :
    (outlineEntries ds).find? (fun e => e.1 == name) =
      (ds.find? fun d => (declaredName d).toOption == some name).map
        fun d => (name, declaredOutline d) := by
  induction ds with
  | nil => rfl
  | cons d ds ih =>
    rw [List.find?_cons]
    cases hname : declaredName d with
    | error failure =>
      have hskip : outlineEntries (d :: ds) = outlineEntries ds := by
        unfold outlineEntries
        rw [List.filterMap_cons, hname]
        rfl
      rw [hskip]
      exact ih
    | ok name' =>
      rw [outlineEntries_cons hname, List.find?_cons]
      by_cases heq : name' = name
      · subst heq
        simp [Except.toOption]
      · have hne : (name' == name) = false := beq_eq_false_iff_ne.mpr heq
        rw [ih]
        simp [Except.toOption, hne]

namespace Collection

/-- Adding declarations makes the outline of a collection summarize them too, and all of them have
names. -/
lemma summarizes_of_foldlM {c c' : Collection} {ds : List Datum}
    {entries : List (Text × NodeOutline)} (hc : c.IsProper) (h : c.outline.Summarizes entries)
    (hds : ∀ d ∈ ds, d.HasSteadyNames) (hadd : ds.foldlM add c = .ok c') :
    c'.outline.Summarizes (entries ++ outlineEntries ds) ∧
      ∀ d ∈ ds, ∃ name, declaredName d = .ok name := by
  induction ds generalizing c entries with
  | nil =>
    cases hadd
    rw [show outlineEntries [] = [] from rfl, List.append_nil]
    exact ⟨h, fun d hd => absurd hd List.not_mem_nil⟩
  | cons d ds ih =>
    rw [List.foldlM_cons] at hadd
    obtain ⟨middle, hmiddle, hrest⟩ := Outcome.bind_eq_ok_iff.mp hadd
    obtain ⟨name, hname, -⟩ := Outcome.bind_eq_ok_iff.mp hmiddle
    rw [List.forall_mem_cons] at hds ⊢
    have hstep := outline_add hc (hds.1.isProper hname) hname
    rw [hmiddle] at hstep
    obtain ⟨hsummary, hnames⟩ := ih hstep.2 (h.add hstep.1) hds.2 hrest
    rw [outlineEntries_cons hname]
    rw [List.append_assoc, List.singleton_append] at hsummary
    exact ⟨hsummary, ⟨name, hname⟩, hnames⟩

/-- Declarations with names that list links can be added. -/
lemma exists_foldlM_of_listed {c : Collection} {ds : List Datum} (hc : c.IsProper)
    (hlisted : ∀ entry ∈ c.outline, entry.2.links?.isSome) (hds : ∀ d ∈ ds, d.HasSteadyNames)
    (hnames : ∀ d ∈ ds, ∃ name, declaredName d = .ok name)
    (hlinks : ∀ d ∈ ds, (declaredOutline d).links?.isSome) : ∃ c', ds.foldlM add c = .ok c' := by
  induction ds generalizing c with
  | nil => exact ⟨c, rfl⟩
  | cons d ds ih =>
    rw [List.forall_mem_cons] at hds hnames hlinks
    obtain ⟨name, hname⟩ := hnames.1
    have hstep := outline_add hc (hds.1.isProper hname) hname
    obtain ⟨o', ho', hlisted'⟩ : ∃ o', c.outline.add name (declaredOutline d) = some o' ∧
        ∀ entry ∈ o', entry.2.links?.isSome := Outline.exists_add hlisted hlinks.1
    cases hadd : c.add d with
    | error failure =>
      rw [hadd, ho'] at hstep
      cases hstep
    | ok middle =>
      rw [hadd, ho'] at hstep
      obtain ⟨heq, hproper⟩ := hstep
      cases heq
      obtain ⟨c', hc'⟩ := ih hproper hlisted' hds.2 hnames.2 hlinks.2
      rw [List.foldlM_cons]
      exact ⟨c', Outcome.bind_eq_ok_iff.mpr ⟨middle, hadd, hc'⟩⟩

end Collection

end StockFlow
