import StockFlow.Proofs.Document.Embedding
import StockFlow.Sheet.Localization
/-!
# Tables of names

The tables of a document are merged out of those that its sheets refer to, listed in preorder of the
tree of embedded sheets. There is one table for every language that is listed, and what it has for a
name is what the first listed table of the language has for the name (`Loader.merges_of_run`). Inside a
listed table, in which different keys may have the same text, the last one decides. So what a sheet has
for a name is never changed by the sheets that it embeds.

Merging is followed table by table: the invariant is that the tables are the merged ones of what has
been listed so far (`Merges.append`).
-/

namespace StockFlow

/-! ## Entries -/

section Entries

variable (entries pairs : List (Text × Text)) (entry : Text × Text) (name : Text)

/-- An entry that is added counts where there is none. -/
lemma lookup_addEntry :
    (addEntry entries entry).lookup name = (entries.lookup name).or ([entry].lookup name) := by
  unfold addEntry
  split
  · next hheld =>
    rw [List.lookup_cons, List.lookup_nil]
    split
    · next hname =>
      rw [← eq_of_beq hname] at hheld
      exact (Option.or_of_isSome hheld).symm
    · exact (Option.or_none).symm
  · exact List.lookup_append

/-- Of entries that are added, the first one counts. -/
lemma lookup_foldl_addEntry :
    (pairs.foldl addEntry entries).lookup name = (entries.lookup name).or (pairs.lookup name) := by
  induction pairs generalizing entries with
  | nil => exact (Option.or_none).symm
  | cons pair pairs ih =>
    rw [List.foldl_cons, ih, lookup_addEntry, Option.or_assoc, ← List.lookup_append,
      List.singleton_append]

/-- An entry that takes the place of those with its name is found under it. -/
lemma lookup_map_replace :
    (entries.map fun e => if e.1 == entry.1 then entry else e).lookup name =
      if name == entry.1 then (entries.lookup name).map fun _ => entry.2
      else entries.lookup name := by
  induction entries with
  | nil => split <;> rfl
  | cons first entries ih =>
    rw [List.map_cons, List.lookup_cons, List.lookup_cons, ih]
    by_cases hfirst : first.1 = entry.1
    · rw [hfirst, beq_self_eq_true, if_pos rfl]
      cases hname : name == entry.1 <;> rfl
    · rw [beq_false_of_ne hfirst, if_neg Bool.false_ne_true]
      by_cases hname : name = first.1
      · rw [hname, beq_self_eq_true, beq_false_of_ne hfirst]
        rfl
      · rw [beq_false_of_ne hname]

/-- An entry that is set counts. -/
lemma lookup_setEntry :
    (setEntry entries entry).lookup name = ([entry].lookup name).or (entries.lookup name) := by
  unfold setEntry
  rw [List.lookup_cons, List.lookup_nil]
  by_cases hname : name = entry.1
  · rw [hname, beq_self_eq_true, Option.some_or]
    split
    · next hheld =>
      obtain ⟨shown, hshown⟩ := Option.isSome_iff_exists.mp hheld
      rw [lookup_map_replace, beq_self_eq_true, if_pos rfl, hshown]
      rfl
    · next hnew =>
      rw [List.lookup_append, Option.not_isSome_iff_eq_none.mp hnew, Option.none_or,
        List.lookup_cons_self]
  · rw [beq_false_of_ne hname, Option.none_or]
    split
    · rw [lookup_map_replace, beq_false_of_ne hname, if_neg Bool.false_ne_true]
    · rw [List.lookup_append, List.lookup_cons, List.lookup_nil, beq_false_of_ne hname,
        Option.or_none]

/-- Of entries that are set, the last one counts. -/
lemma lookup_foldl_setEntry :
    (pairs.foldl setEntry entries).lookup name =
      (pairs.reverse.lookup name).or (entries.lookup name) := by
  induction pairs generalizing entries with
  | nil => exact (Option.none_or).symm
  | cons pair pairs ih =>
    rw [List.foldl_cons, ih, lookup_setEntry, ← Option.or_assoc, ← List.lookup_append,
      List.reverse_cons]

/-- Adding an entry makes its name a new one or changes no names. -/
lemma map_fst_addEntry :
    (addEntry entries entry).map Prod.fst =
      if entry.1 ∈ entries.map Prod.fst then entries.map Prod.fst
      else entries.map Prod.fst ++ [entry.1] := by
  have hheld : (entries.lookup entry.1).isSome ↔ entry.1 ∈ entries.map Prod.fst := by
    rw [← Option.ne_none_iff_isSome, ne_eq, List.lookup_eq_none_iff]
    simp
  unfold addEntry
  by_cases h : entry.1 ∈ entries.map Prod.fst
  · rw [if_pos h, if_pos (hheld.mpr h)]
  · rw [if_neg h, if_neg (mt hheld.mp h), List.map_append]
    rfl

/-- Setting an entry leaves the names that adding it leaves. -/
lemma map_fst_setEntry :
    (setEntry entries entry).map Prod.fst = (addEntry entries entry).map Prod.fst := by
  unfold setEntry addEntry
  split
  · rw [List.map_map]
    refine List.map_congr_left fun e _ => ?_
    dsimp only [Function.comp_apply]
    split
    · next hname => exact (eq_of_beq hname).symm
    · rfl
  · rfl

variable {entries}

/-- Adding an entry makes no name occur twice. -/
lemma nodup_addEntry (h : (entries.map Prod.fst).Nodup) :
    ((addEntry entries entry).map Prod.fst).Nodup := by
  rw [map_fst_addEntry]
  split
  · exact h
  · next hnew =>
    refine List.nodup_append.mpr ⟨h, List.pairwise_singleton _ _, fun name hname other hother => ?_⟩
    rintro rfl
    exact hnew (List.mem_singleton.mp hother ▸ hname)

/-- Adding entries makes no name occur twice. -/
lemma nodup_foldl_addEntry (h : (entries.map Prod.fst).Nodup) :
    ((pairs.foldl addEntry entries).map Prod.fst).Nodup := by
  induction pairs generalizing entries with
  | nil => exact h
  | cons pair pairs ih => exact ih (nodup_addEntry pair h)

/-- Setting entries makes no name occur twice. -/
lemma nodup_foldl_setEntry (h : (entries.map Prod.fst).Nodup) :
    ((pairs.foldl setEntry entries).map Prod.fst).Nodup := by
  induction pairs generalizing entries with
  | nil => exact h
  | cons pair pairs ih =>
    refine ih ?_
    rw [map_fst_setEntry]
    exact nodup_addEntry pair h

end Entries

/-! ## Listed tables -/

/-- A table that a sheet refers to: the language that it is for, and its keys and values as texts, in
order. Different keys may have the same text. -/
structure ListedTable where
  language : Text
  pairs : List (Text × Text)

/-- What a listed table has for a name, which the last key with this text decides. -/
def ListedTable.last? (t : ListedTable) (name : Text) : Option Text :=
  t.pairs.reverse.lookup name

/-- What the first of some listed tables for a language that has a name has for it. -/
def firstListed? (listed : List ListedTable) (language name : Text) : Option Text :=
  listed.findSome? fun t => if t.language = language then t.last? name else none

/-- What the table of a language shows for a name. -/
def shownIn? (tables : List Table) (language name : Text) : Option Text :=
  (tables.find? fun t => t.language == language).bind fun t => t.shown? name

/-- Tables that are merged out of listed ones: one for every language that is listed, in the order in
which the languages are first listed, with no name twice, and with what the first listed table of the
language that has a name has for it. -/
structure Merges (listed : List ListedTable) (tables : List Table) : Prop where
  languages : tables.map Table.language = (listed.map ListedTable.language).eraseDups
  nodup_names : ∀ t ∈ tables, (t.entries.map Prod.fst).Nodup
  shownIn?_eq : ∀ language name, shownIn? tables language name = firstListed? listed language name

/-- The keys and values of a table as texts. -/
def pairsOf (entries : Entries) : Except Failure (List (Text × Text)) :=
  entries.mapM fun (name, shown) => do
    let nameText ← (Datum.atom name).displayed
    return (nameText, ← shown.displayed)

/-- The entries of a table are its keys and values as texts, set one after the other. -/
lemma exists_pairsOf {entries : Entries} {table : List (Text × Text)}
    (h : tableEntries entries = .ok table) :
    ∃ pairs, pairsOf entries = .ok pairs ∧ table = pairs.foldl setEntry [] := by
  unfold tableEntries at h
  generalize ([] : List (Text × Text)) = start at h ⊢
  induction entries generalizing start with
  | nil =>
    cases h
    exact ⟨[], rfl, rfl⟩
  | cons entry entries ih =>
    rw [List.foldlM_cons] at h
    obtain ⟨next, hnext, h⟩ := Outcome.bind_eq_ok_iff.mp h
    obtain ⟨nameText, hname, hnext⟩ := Outcome.bind_eq_ok_iff.mp hnext
    obtain ⟨shownText, hshown, hnext⟩ := Outcome.bind_eq_ok_iff.mp hnext
    cases hnext
    obtain ⟨pairs, hpairs, rfl⟩ := ih _ h
    refine ⟨(nameText, shownText) :: pairs, ?_, rfl⟩
    unfold pairsOf at hpairs ⊢
    rw [List.mapM_cons, hpairs]
    simp only [hname, hshown]
    rfl

/-! ## Merging -/

section Merging

variable {listed : List ListedTable} {tables : List Table}

/-- Nothing is merged out of nothing. -/
lemma merges_nil : Merges [] [] := ⟨rfl, fun _ h => absurd h List.not_mem_nil, fun _ _ => rfl⟩

/-- A table that is merged decides about the names of its language that nothing has been known
about. -/
lemma shownIn?_mergeTable (language : Text) (entries : List (Text × Text)) (language' name : Text) :
    shownIn? (mergeTable tables language entries) language' name =
      (shownIn? tables language' name).or
        (if language = language' then entries.lookup name else none) := by
  unfold mergeTable shownIn?
  split
  · next hheld =>
    obtain ⟨held, hmem, hlanguage⟩ := List.any_eq_true.mp hheld
    have hkeeps : ((fun t : Table => t.language == language') ∘ fun t : Table =>
        if t.language == language then { t with entries := entries.foldl addEntry t.entries }
        else t) = fun t : Table => t.language == language' := by
      funext t
      dsimp only [Function.comp_apply]
      split <;> rfl
    rw [List.find?_map, hkeeps]
    cases hfound : tables.find? fun t => t.language == language' with
    | none =>
      have hother : language ≠ language' := by
        rintro rfl
        exact List.find?_eq_none.mp hfound held hmem hlanguage
      rw [if_neg hother]
      rfl
    | some t =>
      have ht : t.language = language' := by simpa using List.find?_some hfound
      dsimp only [Option.map_some, Option.bind_some]
      by_cases hsame : language = language'
      · rw [if_pos hsame, if_pos (by rw [ht, hsame, beq_self_eq_true])]
        exact lookup_foldl_addEntry t.entries entries name
      · rw [if_neg hsame, if_neg (by rw [ht, beq_false_of_ne (Ne.symm hsame)]; decide),
          Option.or_none]
  · next hnew =>
    rw [List.find?_append, List.find?_singleton]
    cases hfound : tables.find? fun t => t.language == language' with
    | none =>
      by_cases hsame : language = language'
      · rw [if_pos hsame, if_pos (by rw [hsame, beq_self_eq_true])]
        rfl
      · rw [if_neg hsame, if_neg (by rw [beq_false_of_ne hsame]; decide)]
        rfl
    | some t =>
      have hother : language ≠ language' := by
        rintro rfl
        have ht := List.find?_some hfound
        exact hnew (List.any_eq_true.mpr ⟨t, List.mem_of_find?_eq_some hfound, ht⟩)
      rw [if_neg hother, Option.or_none, Option.some_or]

/-- Merging a table adds its language unless there is one. -/
lemma map_language_mergeTable (language : Text) (entries : List (Text × Text)) :
    (mergeTable tables language entries).map Table.language =
      if language ∈ tables.map Table.language then tables.map Table.language
      else tables.map Table.language ++ [language] := by
  have hheld : (tables.any fun t => t.language == language) ↔ language ∈ tables.map Table.language := by
    rw [List.any_eq_true, List.mem_map]
    exact exists_congr fun t => and_congr_right fun _ => beq_iff_eq
  unfold mergeTable
  by_cases h : language ∈ tables.map Table.language
  · rw [if_pos h, if_pos (hheld.mpr h), List.map_map]
    refine List.map_congr_left fun t _ => ?_
    dsimp only [Function.comp_apply]
    split <;> rfl
  · rw [if_neg h, if_neg (mt hheld.mp h), List.map_append]
    rfl

/-- In a merged table no name occurs twice. -/
lemma nodup_names_mergeTable {language : Text} {entries : List (Text × Text)}
    (htables : ∀ t ∈ tables, (t.entries.map Prod.fst).Nodup) (hentries : (entries.map Prod.fst).Nodup) :
    ∀ t ∈ mergeTable tables language entries, (t.entries.map Prod.fst).Nodup := by
  unfold mergeTable
  split
  · refine List.forall_mem_map.mpr fun t ht => ?_
    split
    · exact nodup_foldl_addEntry entries (htables t ht)
    · exact htables t ht
  · exact List.forall_mem_append.mpr ⟨htables, List.forall_mem_singleton.mpr hentries⟩

/-- What the first listed tables have counts, and then what the next ones have. -/
lemma firstListed?_append (listed listed' : List ListedTable) (language name : Text) :
    firstListed? (listed ++ listed') language name =
      (firstListed? listed language name).or (firstListed? listed' language name) :=
  List.findSome?_append

/-- A text that comes after others is kept once. -/
lemma eraseDups_concat (texts : List Text) (last : Text) :
    (texts ++ [last]).eraseDups =
      if last ∈ texts then texts.eraseDups else texts.eraseDups ++ [last] := by
  rw [List.eraseDups_append]
  unfold List.removeAll
  rw [List.filter_cons, List.filter_nil, List.elem_eq_contains]
  by_cases hheld : last ∈ texts
  · rw [if_pos hheld, List.contains_iff_mem.mpr hheld]
    exact List.append_nil _
  · rw [if_neg hheld, if_pos (by simpa using hheld)]
    rfl

/-- Merging one more table. -/
lemma Merges.concat (h : Merges listed tables) (t : ListedTable) :
    Merges (listed ++ [t]) (mergeTable tables t.language (t.pairs.foldl setEntry [])) where
  languages := by
    rw [map_language_mergeTable, h.languages, List.map_append, List.map_singleton,
      eraseDups_concat]
    simp only [List.mem_eraseDups]
  nodup_names := nodup_names_mergeTable h.nodup_names (nodup_foldl_setEntry t.pairs List.nodup_nil)
  shownIn?_eq language name := by
    rw [shownIn?_mergeTable, h.shownIn?_eq, lookup_foldl_setEntry, firstListed?_append]
    unfold firstListed?
    rw [List.findSome?_singleton, List.lookup_nil, Option.or_none]
    rfl

/-- What a listed table has for a name is shown, unless one of its language that is listed before it
has the name. -/
lemma Merges.shownIn?_eq_some {before after : List ListedTable} {t : ListedTable}
    (h : Merges (before ++ t :: after) tables) {name shown : Text} (hlast : t.last? name = some shown)
    (hbefore : ∀ earlier ∈ before, earlier.language = t.language → earlier.last? name = none) :
    shownIn? tables t.language name = some shown := by
  have hnone : firstListed? before t.language name = none := by
    refine List.findSome?_eq_none_iff.mpr fun earlier hearlier => ?_
    split
    · next hlanguage => exact hbefore earlier hearlier hlanguage
    · rfl
  rw [h.shownIn?_eq, firstListed?_append, hnone, Option.none_or]
  unfold firstListed?
  rw [List.findSome?_cons, if_pos rfl, hlast]

end Merging

/-! ## Trees -/

namespace EmbedTree

/-- The occurrences of sheets in a tree, the root first. -/
lemma preorder_eq (tree : EmbedTree) : tree.preorder = tree :: tree.embedded := by
  cases tree
  rfl

mutual

/-- Every occurrence of a sheet comes with those that it embeds right after it. -/
lemma exists_preorder_eq {sub : EmbedTree} : (tree : EmbedTree) → sub ∈ tree.preorder →
    ∃ before after, tree.preorder = before ++ sub.preorder ++ after
  | .node source sheet children, h => by
    rcases List.mem_cons.mp h with rfl | h
    · exact ⟨[], [], (List.append_nil _).symm⟩
    · obtain ⟨before, after, heq⟩ := exists_preorderAll_eq children h
      exact ⟨.node source sheet children :: before, after,
        congrArg (EmbedTree.node source sheet children :: ·) heq⟩

/-- Every occurrence of a sheet in several trees comes with those that it embeds right after it. -/
lemma exists_preorderAll_eq {sub : EmbedTree} : (trees : List EmbedTree) →
    sub ∈ preorderAll trees → ∃ before after, preorderAll trees = before ++ sub.preorder ++ after
  | [], h => absurd h List.not_mem_nil
  | tree :: trees, h => by
    rcases List.mem_append.mp h with h | h
    · obtain ⟨before, after, heq⟩ := exists_preorder_eq tree h
      refine ⟨before, after ++ preorderAll trees, ?_⟩
      rw [preorderAll, heq, List.append_assoc]
    · obtain ⟨before, after, heq⟩ := exists_preorderAll_eq trees h
      refine ⟨tree.preorder ++ before, after, ?_⟩
      rw [preorderAll, heq, List.append_assoc, List.append_assoc, List.append_assoc]

end

end EmbedTree

/-! ## Loading tables -/

namespace Loader

/-- The table that a reference stands for: the document of the identifier that it names, and else what
it is itself. -/
def tableAt? (l : Loader) (r : Reference) : Option Datum :=
  match r.identifier? with
  | some identifier => do
    let text ← (l.document identifier).toOption
    (l.parse identifier text).toOption
  | none => some r.table

/-- The table that is listed for a reference. -/
def listed? (l : Loader) (r : Reference) : Option ListedTable := do
  let table ← l.tableAt? r
  let entries ← table.fields?
  let pairs ← (pairsOf entries).toOption
  return { language := r.language, pairs }

/-- The tables that are listed for the references of some sheets, one sheet after the other. -/
def listedIn? (l : Loader) (trees : List EmbedTree) : Option (List ListedTable) := do
  let references ← EmbedTree.gathered? EmbedTree.ownReferences? trees
  references.mapM l.listed?

variable {l : Loader}

/-- Entries that are made of a table are the keys and values of the listed one, set one after the
other. -/
lemma exists_listed?_eq {r : Reference} {table : Datum} {fields : Entries}
    {entries : List (Text × Text)} (htable : l.tableAt? r = some table)
    (hfields : table.fields? = some fields) (hentries : tableEntries fields = .ok entries) :
    ∃ pairs, l.listed? r = some ⟨r.language, pairs⟩ ∧ entries = pairs.foldl setEntry [] := by
  obtain ⟨pairs, hpairs, hset⟩ := exists_pairsOf hentries
  refine ⟨pairs, ?_, hset⟩
  simp only [listed?, htable, hfields, hpairs, Option.bind_eq_bind, Option.bind_some,
    Except.toOption, Option.pure_def]

/-- The entries that are loaded for a reference are those of the table that is listed for it, set one
after the other. -/
lemma logs_tableOf_listed (r : Reference) :
    (l.tableOf r).Logs fun entries _ => ∃ pairs, l.listed? r = some ⟨r.language, pairs⟩ ∧
      entries = pairs.foldl setEntry [] := by
  rw [tableOf_eq]
  split
  · next identifier hidentifier =>
    refine (l.logs_fetch identifier).bind ?_
    rintro text _ ⟨htext, rfl⟩
    refine (Load.logs_ofExcept _).bind ?_
    rintro table _ ⟨hparse, rfl⟩
    have htable : l.tableAt? r = some table := by
      simp only [tableAt?, Reference.identifier?, hidentifier, htext, hparse, Except.toOption,
        Option.bind_eq_bind, Option.bind_some]
    split
    · next fields hfields =>
      exact (Load.logs_ofExcept _).imp fun entries _ h => exists_listed?_eq htable hfields h.1
    · exact Load.logs_throw _
  · next hinline =>
    have htable : l.tableAt? r = some r.table := by
      unfold tableAt? Reference.identifier?
      split
      · next identifier hsome =>
        split at hsome
        · next hidentifier => exact absurd hidentifier (hinline _)
        · cases hsome
      · rfl
    split
    · next fields hfields =>
      exact (Load.logs_ofExcept _).imp fun entries _ h => exists_listed?_eq htable hfields h.1
    · refine (Load.logs_ofExcept _).bind ?_
      exact fun _ _ _ => Load.logs_throw _

/-- The tables that are loaded for some references are merged out of those that are listed for them. -/
lemma logs_tables_listed (references : List Reference) {listed : List ListedTable}
    {tables : List Table} (h : Merges listed tables) :
    (l.tablesOf references tables).Logs fun merged _ => ∃ further,
      references.mapM l.listed? = some further ∧ Merges (listed ++ further) merged := by
  induction references generalizing listed tables with
  | nil =>
    refine Load.logs_pure ⟨[], rfl, ?_⟩
    rw [List.append_nil]
    exact h
  | cons r references ih =>
    unfold tablesOf at ih ⊢
    rw [List.foldlM_cons]
    refine ((l.logs_tableOf_listed r).bind (Q := fun next _ => ∃ t, l.listed? r = some t ∧
      Merges (listed ++ [t]) next) ?_).bind ?_
    · rintro entries _ ⟨pairs, hlisted, rfl⟩
      exact Load.logs_pure ⟨_, hlisted, h.concat ⟨r.language, pairs⟩⟩
    · rintro next _ ⟨t, hlisted, hnext⟩
      refine (ih hnext).imp ?_
      rintro merged _ ⟨further, hfurther, hmerged⟩
      refine ⟨t :: further, ?_, ?_⟩
      · rw [List.mapM_cons, hlisted, hfurther]
        rfl
      · rw [List.append_cons]
        exact hmerged

/-- The tables that are listed for sheets are those that are listed for the first of them, and then
those for the others. -/
lemma exists_listedIn?_append {trees trees' : List EmbedTree} {listed : List ListedTable}
    (h : l.listedIn? (trees ++ trees') = some listed) :
    ∃ earlier later, l.listedIn? trees = some earlier ∧ l.listedIn? trees' = some later ∧
      listed = earlier ++ later := by
  obtain ⟨references, hreferences, hlisted⟩ := Option.bind_eq_some_iff.mp h
  obtain ⟨first, second, hfirst, hsecond, rfl⟩ := EmbedTree.gathered?_append_eq_some_iff.mp hreferences
  rw [List.mapM_append] at hlisted
  obtain ⟨earlier, hearlier, hlisted⟩ := Option.bind_eq_some_iff.mp hlisted
  obtain ⟨later, hlater, hlisted⟩ := Option.bind_eq_some_iff.mp hlisted
  cases hlisted
  exact ⟨earlier, later, Option.bind_eq_some_iff.mpr ⟨first, hfirst, hearlier⟩,
    Option.bind_eq_some_iff.mpr ⟨second, hsecond, hlater⟩, rfl⟩

/-- What a sheet has for a name is shown unless a sheet before it has the name, whatever the sheets
that it embeds have. -/
lemma exists_outer {trees before after : List EmbedTree} {sub : EmbedTree} {listed : List ListedTable}
    {tables : List Table} (hlisted : l.listedIn? trees = some listed) (h : Merges listed tables)
    (htrees : trees = before ++ sub.preorder ++ after) :
    ∃ earlier own, l.listedIn? before = some earlier ∧ l.listedIn? [sub] = some own ∧
      ∀ language name shown, firstListed? own language name = some shown →
        shownIn? tables language name = some ((firstListed? earlier language name).getD shown) := by
  have hsplit : trees = before ++ ([sub] ++ (sub.embedded ++ after)) := by
    rw [htrees, sub.preorder_eq, List.append_assoc]
    rfl
  rw [hsplit] at hlisted
  obtain ⟨earlier, rest, hearlier, hrest, rfl⟩ := exists_listedIn?_append hlisted
  obtain ⟨own, later, hown, -, rfl⟩ := exists_listedIn?_append hrest
  refine ⟨earlier, own, hearlier, hown, fun language name shown hshown => ?_⟩
  rw [h.shownIn?_eq, firstListed?_append, firstListed?_append, hshown, Option.some_or]
  cases firstListed? earlier language name <;> rfl

/-- **Tables of names are merged in preorder.** The tables of a document that is loaded are merged out
of those that its sheets refer to, listed in preorder of the tree of the sheets and, for every sheet, in
the order in which it declares them: there is one table for every listed language, in the order of first
occurrence, and for every name it has what the first listed table of the language that has the name has
for it, and nothing where there is no such table. So an entry of a listed table is lost only where an
earlier one has its name. Every occurrence of a sheet comes right before those that are embedded in it,
and what the tables of a sheet have for a name is shown unless an occurrence before it has the name,
whatever the embedded sheets have. -/
theorem merges_of_run {text source : Text} {doc : Document} {fetched : List Text}
    (h : l.run text source = (.ok doc, fetched)) :
    ∃ tree listed, l.IsEmbedTree text source tree ∧
      (∀ tree', l.IsEmbedTree text source tree' → tree' = tree) ∧
      l.listedIn? tree.preorder = some listed ∧ Merges listed doc.tables ∧
      (∀ before t after name shown, listed = before ++ t :: after → t.last? name = some shown →
        (∀ earlier ∈ before, earlier.language = t.language → earlier.last? name = none) →
        shownIn? doc.tables t.language name = some shown) ∧
      (∀ sub ∈ tree.preorder, ∃ before after, tree.preorder = before ++ sub.preorder ++ after) ∧
      ∀ before sub after, tree.preorder = before ++ sub.preorder ++ after →
        ∃ earlier own, l.listedIn? before = some earlier ∧ l.listedIn? [sub] = some own ∧
          ∀ language name shown, firstListed? own language name = some shown →
            shownIn? doc.tables language name =
              some ((firstListed? earlier language name).getD shown) := by
  obtain ⟨tree, references, -, htree, hreferences, ⟨listed, hlisted, hmerges⟩, -⟩ :=
    logs_of_run h (l.logs_load_of (fun references => l.logs_tables_listed references merges_nil)
      text source)
  have hall : l.listedIn? tree.preorder = some listed :=
    Option.bind_eq_some_iff.mpr ⟨references, hreferences, hlisted⟩
  refine ⟨tree, listed, htree, fun tree' htree' => htree'.unique htree, hall, hmerges, ?_,
    fun sub hsub => EmbedTree.exists_preorder_eq tree hsub, ?_⟩
  · rintro before t after name shown rfl hlast hbefore
    exact hmerges.shownIn?_eq_some hlast hbefore
  · exact fun before sub after htrees => exists_outer hall hmerges htrees

/-- A loader with a sheet inside another one, each of them with tables of names. -/
def glossary : Loader where
  formats := [.yaml]
  files? := some
    { entries := [
        ("outer", .text "embed: [inner]\ntranslations:\n  fi: names\n  1: names"),
        ("inner", .text "translations:\n  fi: table\n  sv: table"),
        ("names", .text "A: outer\nB: outer"),
        ("table", .text "B: inner\nC: inner")] }
  mode := .blocking
  settings := {}

/-- A sheet around the two. Two keys of a table have the same text, and so have a language of the sheet
and one of an embedded sheet. -/
def glossarySheet : Text :=
  "embed: [outer]\ntranslations:\n  fi:\n    A: root\n    1: first\n    '1': last\n  '1':\n    B: root"

/-- The tables that the sheet is loaded with. -/
def glossaryTables : List Table :=
  [⟨"fi", [("A", "root"), ("1", "last"), ("B", "outer"), ("C", "inner")]⟩,
    ⟨"1", [("B", "root"), ("A", "outer")]⟩, ⟨"sv", [("B", "inner"), ("C", "inner")]⟩]

/-- The outer sheets win, for every name on its own, and the last of two keys with the same text. -/
theorem merges_of_run_glossarySheet : ∃ doc fetched tree listed,
    glossary.run glossarySheet "root" = (.ok doc, fetched) ∧ doc.tables = glossaryTables ∧
      glossary.IsEmbedTree glossarySheet "root" tree ∧
      glossary.listedIn? tree.preorder = some listed ∧ Merges listed glossaryTables := by
  have hrun : (glossary.run glossarySheet "root").1.toOption.map Document.tables =
      some glossaryTables := by
    decide +kernel
  cases h : glossary.run glossarySheet "root" with
  | mk outcome fetched =>
    rw [h] at hrun
    cases outcome with
    | error failure => cases hrun
    | ok doc =>
      have htables : doc.tables = glossaryTables := Option.some.inj hrun
      obtain ⟨tree, listed, htree, -, hlisted, hmerges, -⟩ := merges_of_run h
      rw [htables] at hmerges
      exact ⟨doc, fetched, tree, listed, rfl, htables, htree, hlisted, hmerges⟩

end Loader

end StockFlow
