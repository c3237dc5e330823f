import StockFlow.Proofs.Datum.Written
import StockFlow.Proofs.Document.Chains
/-!
# What loadings let through

A loading that fails should fail as a loading (`FailureKind.load`). It does so but for five steps, which
pass on failures of other kinds as they are: bytes that are fetched and are not UTF-8, a YAML text with
an escape, a directive or a scalar that stands for no value, a JSON text with a numeral that is too
long, a sheet whose nodes cannot be listed, and a whole number that is to be put into a text or a message
and is too long to be written (`Loader.Leaks`). Each is given with what it fails for. Every other failure
is one of loading (`Loader.isLoad_or_leaks_of_run`).

The documents that a loading comes to are described apart from the order in which it comes to them: a
sheet is opened at the end of a chain of sheets that embed the next one, and a document is read if it is
the root or if some opened sheet refers to it (`Loader.Reads`).
-/

namespace StockFlow

/-! ## What is read -/

namespace Loader

variable (l : Loader) (text source : Text)

/-- A sheet or a table that some opened sheet refers to for a language. -/
def HasReference (r : Reference) : Prop :=
  ∃ o references, l.Opens text source o ∧ referencesOf o.sheet o.source = .ok references ∧
    r ∈ references

/-- Some opened sheet embeds an identifier or names a table by it. -/
def RefersTo (identifier : Text) : Prop :=
  (∃ o, l.Opens text source o ∧ o.Embeds identifier) ∨
    ∃ r, l.HasReference text source r ∧ r.table = .text identifier

/-- The documents that are read: the root, and the files that are referred to. -/
inductive Reads : Text → Text → Prop
  | root : Reads source text
  | file {identifier document : Text} (refers : l.RefersTo text source identifier)
      (found : l.document identifier = .ok document) : Reads identifier document

/-- A value occurs in some document that is read. -/
def Occurs (d : Datum) : Prop :=
  ∃ identifier document value, l.Reads text source identifier document ∧
    l.parse identifier document = .ok value ∧ value.Includes d

/-- The failures that loadings pass on as they are. -/
inductive Leaks : Failure → Prop
  /-- Bytes are decoded as UTF-8 after they are fetched. -/
  | bytes {identifier : Text} {files : Files} {bs : List UInt8}
      (refers : l.RefersTo text source identifier) (given : l.files? = some files)
      (content : files.content? l.mode identifier = some (.bytes bs))
      (invalid : String.fromUTF8? ⟨bs.toArray⟩ = none) : Leaks .notUtf8
  /-- Something in a YAML text that is well-formed stands for no value. -/
  | yaml {identifier document : Text} {failure : Failure}
      (reads : l.Reads text source identifier document)
      (format : formatFor l.formats identifier = .ok .yaml)
      (fails : Yaml.parse document = .error failure) (fault : Yaml.Fault document failure)
      (wellFormed : failure ≠ .load .invalidYaml) : Leaks failure
  /-- A numeral of a JSON text has too many digits. -/
  | json {identifier document : Text} (reads : l.Reads text source identifier document)
      (format : formatFor l.formats identifier = .ok .json)
      (fault : Json.readAll document = .error .tooManyDigits) : Leaks .badValue
  /-- The nodes of a sheet are given and have no parts. -/
  | nodes {o : OpenSheet} (opens : l.Opens text source o)
      (given : (Entries.get o.sheet "nodes").isTruthy)
      (unlisted : (Entries.get o.sheet "nodes").elements? = none) : Leaks .wrongType
  /-- A whole number that is put into a text or a message has too many digits. -/
  | wording {n : Int} (occurs : l.Occurs text source (.int n))
      (long : Nat.pow 10 maxDigits ≤ n.natAbs) : Leaks .badValue

variable {l text source}

/-- What is somewhere in a value that occurs does so, too. -/
lemma Occurs.includes {whole part : Datum} (h : l.Occurs text source whole)
    (hincludes : whole.Includes part) : l.Occurs text source part := by
  obtain ⟨identifier, document, value, hreads, hparse, hwithin⟩ := h
  exact ⟨identifier, document, value, hreads, hparse, hwithin.trans hincludes⟩

/-- What a value that occurs contains does so, too. -/
lemma Occurs.contains {whole part : Datum} (h : l.Occurs text source whole)
    (hcontains : whole.Contains part) : l.Occurs text source part :=
  h.includes (.single hcontains)

/-- What a sheet has under a key occurs in its document. -/
lemma occurs_get {identifier document : Text} {sheet : Entries}
    (hreads : l.Reads text source identifier document)
    (hsheet : l.decodeSheet identifier document = .ok sheet) {key : Text}
    (hgiven : (Entries.get sheet key).isTruthy) : l.Occurs text source (Entries.get sheet key) := by
  obtain ⟨value, hparse, hvalue⟩ := Outcome.bind_eq_ok_iff.mp hsheet
  refine ⟨identifier, document, value, hreads, hparse, .single ?_⟩
  obtain ⟨entry, hfind, hentry⟩ : ∃ entry, entry ∈ sheet ∧ Entries.get sheet key = entry.2 := by
    unfold Entries.get Entries.find? at hgiven ⊢
    cases hfound : List.find? (fun entry => entry.1.sameKey (.text key)) sheet with
    | none =>
      rw [hfound] at hgiven
      exact absurd hgiven Bool.false_ne_true
    | some entry => exact ⟨entry, List.mem_of_find?_eq_some hfound, rfl⟩
  split at hvalue
  · cases hvalue
    exact absurd hfind List.not_mem_nil
  · split at hvalue
    · next entries hentries =>
      cases hvalue
      rw [hentry]
      exact .value hentries hfind
    · cases hvalue

/-- A sheet that is opened is that of a document that is read. -/
lemma Opens.exists_document {o : OpenSheet} (h : l.Opens text source o) :
    ∃ document, l.Reads text source o.source document ∧
      l.decodeSheet o.source document = .ok o.sheet := by
  obtain ⟨sheet, hsheet, hreach⟩ := h
  rcases hreach.cases_tail with rfl | ⟨between, hbetween, hstep⟩
  · exact ⟨text, .root, hsheet⟩
  · cases hstep with
    | embed hembed hread =>
      obtain ⟨document, hdocument, hinner⟩ := Outcome.bind_eq_ok_iff.mp hread
      exact ⟨document, .file (Or.inl ⟨between, ⟨sheet, hsheet, hbetween⟩, hembed⟩) hdocument, hinner⟩

/-- What an opened sheet has under a key occurs. -/
lemma Opens.occurs_get {o : OpenSheet} (h : l.Opens text source o) {key : Text}
    (hgiven : (Entries.get o.sheet key).isTruthy) :
    l.Occurs text source (Entries.get o.sheet key) := by
  obtain ⟨document, hreads, hsheet⟩ := h.exists_document
  exact Loader.occurs_get hreads hsheet hgiven

/-! ## The steps -/

/-- A failure of loading, or one that is let through. -/
def IsLoadOrLeaks (l : Loader) (text source : Text) (failure : Failure) : Prop :=
  failure.kind = .load ∨ l.Leaks text source failure

open Outcome

/-- The nodes of an opened sheet are listed, or the failure is let through. -/
lemma Opens.failsIn_nodesOf {o : OpenSheet} (h : l.Opens text source o) :
    FailsIn (l.IsLoadOrLeaks text source) (nodesOf o.sheet) := by
  unfold nodesOf Datum.givenElements
  split
  · next hgiven =>
    split
    · exact failsIn_ok _
    · next hnone => exact failsIn_error_iff.mpr (Or.inr (.nodes h hgiven hnone))
  · exact failsIn_ok _

/-- What some opened sheet refers to is fetched, or the failure is let through. -/
lemma RefersTo.fails_fetch {identifier : Text} (h : l.RefersTo text source identifier) :
    (l.fetch identifier).Fails (l.IsLoadOrLeaks text source) := by
  cases hfiles : l.files? with
  | none =>
    rw [l.fetch_of_files?_eq_none hfiles]
    exact Load.fails_throw (Or.inl rfl)
  | some files =>
    have hmodify : (modify fun fetched => fetched ++ [identifier] : Load Unit).Fails
        (l.IsLoadOrLeaks text source) := by
      intro fetched failure h
      cases h
    rw [l.fetch_of_files?_eq_some hfiles]
    refine hmodify.bind (Load.gives_true _) fun _ _ => Load.fails_ofExcept ?_
    rcases files.fetch_cases l.mode identifier with ⟨given, hgiven, hfetch⟩ | ⟨cause, hfetch⟩
    · rw [hfetch]
      unfold Content.document
      split
      · exact failsIn_ok _
      · exact failsIn_error_iff.mpr (Or.inl rfl)
      · next bs =>
        split
        · exact failsIn_ok _
        · next hinvalid => exact failsIn_error_iff.mpr (Or.inr (.bytes h hfiles hgiven hinvalid))
    · rw [hfetch]
      exact failsIn_error_iff.mpr (Or.inl rfl)

/-- The table of a reference occurs. -/
lemma HasReference.occurs_table {r : Reference} (h : l.HasReference text source r) :
    l.Occurs text source r.table := by
  obtain ⟨o, references, hopens, hreferences, hr⟩ := h
  unfold referencesOf at hreferences
  dsimp only at hreferences
  split at hreferences
  · cases hreferences
    exact absurd hr List.not_mem_nil
  next hgiven =>
  have hoccurs : l.Occurs text source (Entries.get o.sheet "translations") :=
    hopens.occurs_get (by simpa using hgiven)
  split at hreferences
  · next entries hentries =>
    obtain ⟨entry, hentry, hreference⟩ :=
      Outcome.exists_of_mem_of_mapM_eq_ok hreferences hr
    obtain ⟨language, -, hlanguage⟩ := Outcome.bind_eq_ok_iff.mp hreference
    cases hlanguage
    exact hoccurs.contains (.value hentries hentry)
  · cases hreferences

/-- The references that are loaded with an opened sheet are those of opened sheets. -/
lemma Opens.gives_embedded {depth : Nat} {o : OpenSheet} (h : l.Opens text source o) :
    (l.embedded depth o.trail o.sheet).Gives fun parts =>
      ∀ r ∈ parts.2, l.HasReference text source r := by
  induction depth generalizing o with
  | zero =>
    rw [embedded_zero]
    exact Load.gives_throw _
  | succ depth ih =>
    rw [embedded_succ, o.getLast?_trail, Option.getD_some]
    refine (Load.gives_ofExcept fun _ h => h).bind fun identifiers hembeds => ?_
    refine (Load.gives_mapM (Q := fun part => ∀ r ∈ part.2, l.HasReference text source r)
      fun identifier hmem => ?_).bind fun parts hparts => Load.gives_pure ?_
    · unfold occurrence
      dsimp only
      split
      · rw [throw_bind]
        exact Load.gives_throw _
      refine (l.gives_fetch identifier).bind fun document hdocument => ?_
      refine (Load.gives_ofExcept fun _ h => h).bind fun sheet hsheet => ?_
      have hopens : l.Opens text source ⟨o.trail, identifier, sheet⟩ :=
        h.enter ⟨identifiers, hembeds, hmem⟩
          (Outcome.bind_eq_ok_iff.mpr ⟨document, hdocument, hsheet⟩)
      refine (Load.gives_true _).bind fun nodes _ => ?_
      refine (Load.gives_ofExcept fun _ h => h).bind fun references hreferences => ?_
      refine (ih hopens).bind fun inner hinner => Load.gives_pure ?_
      exact List.forall_mem_append.mpr
        ⟨fun r hr => ⟨_, references, hopens, hreferences, hr⟩, hinner⟩
    · intro r hr
      obtain ⟨part, hpart, hmem⟩ := List.mem_flatMap.mp hr
      exact hparts part hpart r hmem

section Formats

variable (hformats : ∀ f ∈ l.formats, f = .yaml ∨ f = .json)

include hformats

/-- What occurs is decoded. -/
lemma Occurs.isDecoded {d : Datum} (h : l.Occurs text source d) : d.IsDecoded := by
  obtain ⟨identifier, document, value, -, hparse, hwithin⟩ := h
  refine (isDecoded_of_parse (fun f hf => ?_) hparse).of_includes hwithin
  rcases hformats f hf with rfl | rfl
  · exact Format.decodes_of_mem (by simp)
  · exact Format.decodes_of_mem (by simp)

/-- What occurs and cannot be written has a whole number in it that is let through. -/
lemma Occurs.leaks_of_literal? {d : Datum} (h : l.Occurs text source d) (hnone : d.literal? = none) :
    l.Leaks text source .badValue := by
  obtain ⟨n, hlong, hwithin⟩ := (h.isDecoded hformats).exists_long_of_literal?_eq_none hnone
  exact .wording (h.includes hwithin) hlong

/-- A value that occurs is displayed, or the failure is let through. -/
lemma Occurs.failsIn_displayed {d : Datum} (h : l.Occurs text source d) :
    FailsIn (l.IsLoadOrLeaks text source) d.displayed := by
  unfold Datum.displayed
  split
  · exact failsIn_ok _
  · next hnone =>
    have hliteral := Datum.literal?_eq_none_of_display? hnone
    exact failsIn_error_iff.mpr (Or.inr (h.leaks_of_literal? hformats hliteral))

/-- A value that occurs is written into a message, or the failure is let through. -/
lemma Occurs.failsIn_literalText {d : Datum} (h : l.Occurs text source d) :
    FailsIn (l.IsLoadOrLeaks text source) d.literalText := by
  unfold Datum.literalText
  split
  · exact failsIn_ok _
  · next hnone => exact failsIn_error_iff.mpr (Or.inr (h.leaks_of_literal? hformats hnone))

/-- What an opened sheet embeds is listed, or the failure is let through. -/
lemma Opens.failsIn_embedsOf {o : OpenSheet} (h : l.Opens text source o) :
    FailsIn (l.IsLoadOrLeaks text source) (embedsOf o.sheet o.source) := by
  unfold embedsOf
  dsimp only
  split
  · exact failsIn_pure _
  next hgiven =>
  have hoccurs : l.Occurs text source (Entries.get o.sheet "embed") :=
    h.occurs_get (by simpa using hgiven)
  split
  · next items hitems =>
    refine failsIn_mapM fun item hitem => ?_
    split
    · exact failsIn_ok _
    · refine failsIn_bind_iff.mpr ⟨(hoccurs.contains (.item hitems hitem)).failsIn_literalText hformats, ?_⟩
      exact fun _ _ => failsIn_throw_iff.mpr (Or.inl rfl)
  · refine failsIn_bind_iff.mpr ⟨hoccurs.failsIn_literalText hformats, ?_⟩
    exact fun _ _ => failsIn_throw_iff.mpr (Or.inl rfl)

/-- The references of an opened sheet are listed, or the failure is let through. -/
lemma Opens.failsIn_referencesOf {o : OpenSheet} (h : l.Opens text source o) :
    FailsIn (l.IsLoadOrLeaks text source) (referencesOf o.sheet o.source) := by
  unfold referencesOf
  dsimp only
  split
  · exact failsIn_pure _
  next hgiven =>
  have hoccurs : l.Occurs text source (Entries.get o.sheet "translations") :=
    h.occurs_get (by simpa using hgiven)
  split
  · next entries hentries =>
    refine failsIn_mapM fun entry hentry => ?_
    refine failsIn_bind_iff.mpr ⟨(hoccurs.contains (.key hentries hentry)).failsIn_displayed hformats, ?_⟩
    exact fun _ _ => failsIn_pure _
  · exact failsIn_throw_iff.mpr (Or.inl rfl)

/-- A table whose entries occur becomes one of texts, or the failure is let through. -/
lemma failsIn_tableEntries {entries : Entries}
    (h : ∀ entry ∈ entries, l.Occurs text source (.atom entry.1) ∧ l.Occurs text source entry.2) :
    FailsIn (l.IsLoadOrLeaks text source) (tableEntries entries) := by
  refine failsIn_foldlM (fun table entry hentry => ?_) _
  obtain ⟨hkey, hvalue⟩ := h entry hentry
  refine failsIn_bind_iff.mpr ⟨hkey.failsIn_displayed hformats, fun _ _ => ?_⟩
  exact failsIn_bind_iff.mpr ⟨hvalue.failsIn_displayed hformats, fun _ _ => failsIn_pure _⟩

variable (hsome : l.formats ≠ [])

include hsome

/-- A document is parsed in one of the formats, or the failure is let through. -/
lemma Reads.failsIn_parse {identifier document : Text} (h : l.Reads text source identifier document) :
    FailsIn (l.IsLoadOrLeaks text source) (l.parse identifier document) := by
  have hchosen : FailsIn (l.IsLoadOrLeaks text source) (formatFor l.formats identifier) := by
    unfold formatFor
    split
    · exact failsIn_ok _
    · next hnone =>
      unfold formatFor? at hnone
      dsimp only at hnone
      split at hnone
      · cases hnone
      · exact absurd (List.head?_eq_none_iff.mp hnone) hsome
  refine failsIn_bind_iff.mpr ⟨hchosen, fun f hf failure hfailure => ?_⟩
  rcases hformats f (mem_of_formatFor_eq_ok hf) with rfl | rfl
  · by_cases hinvalid : failure = .load .invalidYaml
    · exact Or.inl (congrArg Failure.kind hinvalid)
    · exact Or.inr (.yaml h hf hfailure (Yaml.failsIn_parse document failure hfailure) hinvalid)
  · have hjson : Json.parse document = .error failure := hfailure
    unfold Json.parse at hjson
    split at hjson
    · cases hjson
    · next hfault =>
      cases hjson
      exact Or.inr (.json h hf hfault)
    · cases hjson
      exact Or.inl rfl

/-- The sheet of a document is read, or the failure is let through. -/
lemma Reads.failsIn_decodeSheet {identifier document : Text}
    (h : l.Reads text source identifier document) :
    FailsIn (l.IsLoadOrLeaks text source) (l.decodeSheet identifier document) := by
  unfold decodeSheet
  refine failsIn_bind_iff.mpr ⟨h.failsIn_parse hformats hsome, fun d _ => ?_⟩
  split
  · exact failsIn_pure _
  · split
    · exact failsIn_pure _
    · exact failsIn_throw_iff.mpr (Or.inl rfl)

/-- The table that an opened sheet refers to is read, or the failure is let through. -/
lemma HasReference.fails_tableOf {r : Reference} (h : l.HasReference text source r) :
    (l.tableOf r).Fails (l.IsLoadOrLeaks text source) := by
  have hentries : ∀ {d : Datum} {entries : Entries}, l.Occurs text source d →
      d.fields? = some entries → FailsIn (l.IsLoadOrLeaks text source) (tableEntries entries) :=
    fun hoccurs hfields => failsIn_tableEntries hformats fun entry hentry =>
      ⟨hoccurs.contains (.key hfields hentry), hoccurs.contains (.value hfields hentry)⟩
  rw [tableOf_eq]
  split
  · next identifier htable =>
    have hrefers : l.RefersTo text source identifier := Or.inr ⟨r, h, htable⟩
    refine hrefers.fails_fetch.bind (l.gives_fetch identifier) fun document hdocument => ?_
    have hreads : l.Reads text source identifier document := .file hrefers hdocument
    refine (Load.fails_ofExcept (hreads.failsIn_parse hformats hsome)).bind
      (Load.gives_ofExcept fun _ h => h) fun table hparse => ?_
    split
    · next entries hfields =>
      exact Load.fails_ofExcept (hentries ⟨identifier, document, table, hreads, hparse, .refl⟩ hfields)
    · exact Load.fails_throw (Or.inl rfl)
  · split
    · next entries hfields => exact Load.fails_ofExcept (hentries h.occurs_table hfields)
    · refine (Load.fails_ofExcept (h.occurs_table.failsIn_literalText hformats)).bind (Load.gives_true _) ?_
      exact fun _ _ => Load.fails_throw (Or.inl rfl)

/-- What is loaded for an identifier that an opened sheet embeds, given what is loaded of the sheets
inside its sheet. -/
lemma Opens.fails_occurrence {depth : Nat} {o : OpenSheet} {identifier : Text}
    (h : l.Opens text source o) (hembed : o.Embeds identifier)
    (hinner : ∀ inner : OpenSheet, l.Opens text source inner →
      (l.embedded depth inner.trail inner.sheet).Fails (l.IsLoadOrLeaks text source)) :
    (l.occurrence depth o.trail identifier).Fails (l.IsLoadOrLeaks text source) := by
  have hrefers : l.RefersTo text source identifier := Or.inl ⟨o, h, hembed⟩
  unfold occurrence
  dsimp only
  split
  · rw [throw_bind]
    exact Load.fails_throw (Or.inl rfl)
  · refine hrefers.fails_fetch.bind (l.gives_fetch identifier) fun document hdocument => ?_
    have hreads : l.Reads text source identifier document := .file hrefers hdocument
    refine (Load.fails_ofExcept (hreads.failsIn_decodeSheet hformats hsome)).bind
      (Load.gives_ofExcept fun _ h => h) fun sheet hsheet => ?_
    have hopens : l.Opens text source ⟨o.trail, identifier, sheet⟩ :=
      h.enter hembed (Outcome.bind_eq_ok_iff.mpr ⟨document, hdocument, hsheet⟩)
    refine (Load.fails_ofExcept hopens.failsIn_nodesOf).bind (Load.gives_true _) fun _ _ => ?_
    refine (Load.fails_ofExcept (hopens.failsIn_referencesOf hformats)).bind (Load.gives_true _) fun _ _ => ?_
    exact (hinner _ hopens).bind (Load.gives_true _) fun _ _ => Load.fails_pure _

/-- What an opened sheet embeds is loaded, or the failure is let through. -/
lemma Opens.fails_embedded {depth : Nat} {o : OpenSheet} (h : l.Opens text source o) :
    (l.embedded depth o.trail o.sheet).Fails (l.IsLoadOrLeaks text source) := by
  induction depth generalizing o with
  | zero =>
    rw [embedded_zero]
    exact Load.fails_throw (Or.inl rfl)
  | succ depth ih =>
    rw [embedded_succ, o.getLast?_trail, Option.getD_some]
    refine (Load.fails_ofExcept (h.failsIn_embedsOf hformats)).bind (Load.gives_ofExcept fun _ h => h)
      fun identifiers hembeds => ?_
    refine (Load.fails_mapM fun identifier hmem => ?_).bind (Load.gives_true _)
      fun _ _ => Load.fails_pure _
    exact h.fails_occurrence hformats hsome ⟨identifiers, hembeds, hmem⟩ fun _ hinner => ih hinner

/-- A document is loaded, or the failure is let through. -/
lemma fails_load : (l.load text source).Fails (l.IsLoadOrLeaks text source) := by
  have hroot : l.Reads text source source text := .root
  rw [load_eq]
  refine (Load.fails_ofExcept (hroot.failsIn_decodeSheet hformats hsome)).bind
    (Load.gives_ofExcept fun _ h => h) fun sheet hsheet => ?_
  have hopens : l.Opens text source ⟨[], source, sheet⟩ := ⟨sheet, hsheet, .refl⟩
  refine (Load.fails_ofExcept hopens.failsIn_nodesOf).bind (Load.gives_true _) fun _ _ => ?_
  refine (Load.fails_ofExcept (hopens.failsIn_referencesOf hformats)).bind (Load.gives_ofExcept fun _ h => h)
    fun references hreferences => ?_
  refine (hopens.fails_embedded hformats hsome).bind hopens.gives_embedded fun parts hparts => ?_
  refine (Load.fails_foldlM (fun tables r hr => ?_) _).bind (Load.gives_true _)
    fun _ _ => Load.fails_pure _
  have hreference : l.HasReference text source r :=
    (List.mem_append.mp hr).elim (fun hr => ⟨_, references, hopens, hreferences, hr⟩) (hparts r)
  exact (hreference.fails_tableOf hformats hsome).bind (Load.gives_true _)
    fun _ _ => Load.fails_pure _

end Formats

/-- **Failures of loadings.**  With formats that are YAML or JSON, and at least one of them, whatever
text is loaded with whatever files, waiting for them or not, there is a document, or a failure of
loading, or else the failure of one of the five steps that are passed on as they are. -/
theorem isLoad_or_leaks_of_run (l : Loader) (hsome : l.formats ≠ [])
    (hformats : ∀ f ∈ l.formats, f = .yaml ∨ f = .json) (text source : Text) :
    (∃ doc, (l.run text source).1 = .ok doc) ∨
      ∃ failure, (l.run text source).1 = .error failure ∧
        (failure.kind = .load ∨ l.Leaks text source failure) := by
  have hload : (l.load text source).Fails (l.IsLoadOrLeaks text source) := fails_load hformats hsome
  have hrun : l.run text source = (l.load text source).run.run [] := by
    rw [run_eq, if_neg (by simpa using hsome)]
  rw [hrun]
  cases hresult : ((l.load text source).run.run []).1 with
  | ok doc => exact Or.inl ⟨doc, rfl⟩
  | error failure => exact Or.inr ⟨failure, rfl, hload [] failure hresult⟩

/-- A loader with both formats and a file of one byte that is not UTF-8. -/
def brokenLoader : Loader :=
  ⟨Format.standard, some { entries := [("broken.yaml", .returns (.content (.bytes [0xff])))] }, .blocking, {}⟩

/-- The formats of the broken loader are those of YAML and JSON. -/
lemma formats_brokenLoader : brokenLoader.formats ≠ [] ∧
    ∀ f ∈ brokenLoader.formats, f = .yaml ∨ f = .json := by
  refine ⟨List.cons_ne_nil _ _, fun f hf => ?_⟩
  rcases List.mem_pair.mp hf with rfl | rfl
  · exact Or.inl rfl
  · exact Or.inr rfl

/-- The byte of the broken file is let through. -/
theorem leaks_embeddedBytes : brokenLoader.formats ≠ [] ∧
    (∀ f ∈ brokenLoader.formats, f = .yaml ∨ f = .json) ∧
    ∃ failure, (brokenLoader.run "embed: [broken.yaml]\n" "<sheet>").1 = .error failure ∧
      failure.kind = .decoding ∧ brokenLoader.Leaks "embed: [broken.yaml]\n" "<sheet>" failure := by
  obtain ⟨hsome, hformats⟩ := formats_brokenLoader
  have hran : ((brokenLoader.run "embed: [broken.yaml]\n" "<sheet>").1.map fun _ => ()) =
      .error .notUtf8 := by
    decide +kernel
  refine ⟨hsome, hformats, ?_⟩
  rcases brokenLoader.isLoad_or_leaks_of_run hsome hformats "embed: [broken.yaml]\n" "<sheet>" with
    ⟨doc, hdoc⟩ | ⟨failure, hfailure, hleaks⟩
  · rw [hdoc] at hran
    cases hran
  · rw [hfailure] at hran
    cases hran
    refine ⟨_, hfailure, rfl, hleaks.resolve_left ?_⟩
    decide

/-- A date that does not exist is let through as well, so not every failure is one of loading. -/
theorem not_isLoad_of_datedText :
    ¬∀ l : Loader, l.formats ≠ [] → (∀ f ∈ l.formats, f = .yaml ∨ f = .json) →
      ∀ (text source : Text) (failure : Failure), (l.run text source).1 = .error failure →
        failure.kind = .load := by
  intro h
  obtain ⟨hsome, hformats⟩ := formats_brokenLoader
  have hran : ((brokenLoader.run "title: 2024-13-01\n" "<sheet>").1.map fun _ => ()) =
      .error .badValue := by
    decide +kernel
  cases hresult : (brokenLoader.run "title: 2024-13-01\n" "<sheet>").1 with
  | ok doc =>
    rw [hresult] at hran
    cases hran
  | error failure =>
    have hkind := h brokenLoader hsome hformats _ _ failure hresult
    rw [hresult] at hran
    cases hran
    cases hkind

end Loader

end StockFlow
