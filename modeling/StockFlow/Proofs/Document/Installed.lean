import StockFlow.Proofs.Document.Leaks
import StockFlow.Proofs.Document.Portable
/-!
# Installed formats

Formats that are installed stand behind those that are always there. A document without an extension
is read in the first format, and one with an extension of a standard format is found before any
installed format is asked, so a loader that is referred to such documents only reads all of them as it
does with the standard formats alone (`Loader.run_withFormats`). What is installed as a format then
plays no part in the output of a sheet, nor in what is fetched for it
(`Engine.parseFresh_eq_of_standard`).

Which documents these are is said by the chains of sheets that the standard formats open
(`Loader.RefersTo`), and the two loadings are followed along these chains: what one of them goes on with
after a step is what it was given by that step (`Load.Gives.bind_congr`).
-/

namespace StockFlow

/-! ## Loadings that go on alike -/

namespace Load

variable {α β : Type} {P : α → Prop}

/-- What follows a loading matters only for what it gives. -/
lemma Gives.bind_congr {x : Load α} {f g : α → Load β} (hx : x.Gives P)
    (h : ∀ a, P a → f a = g a) : x >>= f = x >>= g := by
  apply ExceptT.ext
  apply StateT.ext
  intro fetched
  rw [ExceptT.run_bind, ExceptT.run_bind, StateT.run_bind, StateT.run_bind]
  have hgives := hx fetched
  cases hrun : x.run.run fetched with
  | mk result between =>
    rw [hrun] at hgives
    cases result with
    | error failure => rfl
    | ok a => exact congrArg (fun y : Load β => y.run.run between) (h a (hgives a rfl))

/-- Loadings that are the same for all members of a list are the same for the list. -/
lemma mapM_congr {f g : α → Load β} {as : List α} (h : ∀ a ∈ as, f a = g a) :
    as.mapM f = as.mapM g := by
  induction as with
  | nil => rfl
  | cons a as ih =>
    rw [List.forall_mem_cons] at h
    rw [List.mapM_cons, List.mapM_cons, h.1, ih h.2]

/-- Folds with steps that are the same for all members of a list are the same. -/
lemma foldlM_congr {f g : β → α → Load β} {as : List α} (h : ∀ a ∈ as, ∀ b, f b a = g b a)
    (b : β) : as.foldlM f b = as.foldlM g b := by
  induction as generalizing b with
  | nil => rfl
  | cons a as ih =>
    rw [List.forall_mem_cons] at h
    rw [List.foldlM_cons, List.foldlM_cons, h.1 b]
    exact congrArg _ (funext fun b' => ih h.2 b')

end Load

/-! ## Extensions of the standard formats -/

/-- The extensions that the standard formats claim. -/
def standardExtensions : List Text := Format.standard.flatMap Format.extensions

/-- An identifier has no extension, or one of a standard format in upper or lower case. -/
def HasStandardExtension (identifier : Text) : Prop :=
  extensionOf identifier = [] ∨
    (extensionOf identifier).map CodePoint.toLower ∈ standardExtensions

instance (identifier : Text) : Decidable (HasStandardExtension identifier) :=
  inferInstanceAs (Decidable (_ ∨ _))

/-- Formats behind the standard ones are not chosen for standard extensions, whatever they claim. -/
lemma formatFor_append {identifier : Text} (h : HasStandardExtension identifier)
    (further : List Format) :
    formatFor (Format.standard ++ further) identifier = formatFor Format.standard identifier := by
  rcases h with hnone | hclaimed
  · exact (formatFor_of_extensionOf_eq_nil hnone).trans (formatFor_of_extensionOf_eq_nil hnone).symm
  · obtain ⟨f, hf, hextension⟩ := List.mem_flatMap.mp hclaimed
    have hnonempty : ((extensionOf identifier).map CodePoint.toLower).isEmpty = false := by
      generalize (extensionOf identifier).map CodePoint.toLower = extension at hclaimed
      revert extension
      decide
    have hfound : (Format.standard.find? fun f =>
        !((extensionOf identifier).map CodePoint.toLower).isEmpty &&
          f.extensions.contains ((extensionOf identifier).map CodePoint.toLower)).isSome := by
      rw [List.find?_isSome]
      refine ⟨f, hf, ?_⟩
      rw [hnonempty]
      simpa using hextension
    obtain ⟨chosen, hchosen⟩ := Option.isSome_iff_exists.mp hfound
    unfold formatFor formatFor?
    dsimp only
    rw [List.find?_append, hchosen]
    rfl

/-! ## Loaders with other formats -/

namespace Loader

/-- A loader with other formats. -/
def withFormats (l : Loader) (formats : List Format) : Loader := { l with formats }

variable {l : Loader} {formats : List Format} {text source : Text}

/-- A document is parsed alike where both lists of formats have the same one for it. -/
lemma parse_withFormats {identifier : Text}
    (h : formatFor formats identifier = formatFor l.formats identifier) :
    (l.withFormats formats).parse identifier = l.parse identifier := by
  funext document
  unfold parse
  rw [← h]
  rfl

/-- A sheet is read alike where both lists of formats have the same one for it. -/
lemma decodeSheet_withFormats {identifier : Text}
    (h : formatFor formats identifier = formatFor l.formats identifier) :
    (l.withFormats formats).decodeSheet identifier = l.decodeSheet identifier := by
  funext document
  unfold decodeSheet
  rw [parse_withFormats h]

section Referred

variable (hformats : ∀ identifier, l.RefersTo text source identifier →
  formatFor formats identifier = formatFor l.formats identifier)

include hformats

/-- What an opened sheet embeds is loaded alike, if the sheets inside are. -/
lemma Opens.occurrence_withFormats {o : OpenSheet} (h : l.Opens text source o) {depth : Nat}
    {identifier : Text} (hembed : o.Embeds identifier)
    (hinner : ∀ inner : OpenSheet, l.Opens text source inner →
      (l.withFormats formats).embedded depth inner.trail inner.sheet =
        l.embedded depth inner.trail inner.sheet) :
    (l.withFormats formats).occurrence depth o.trail identifier =
      l.occurrence depth o.trail identifier := by
  have hfetch : (l.withFormats formats).fetch identifier = l.fetch identifier := rfl
  unfold occurrence
  dsimp only
  split
  · rw [throw_bind, throw_bind]
  · rw [hfetch, decodeSheet_withFormats (hformats identifier (Or.inl ⟨o, h, hembed⟩))]
    refine (l.gives_fetch identifier).bind_congr fun document hdocument => ?_
    refine (Load.gives_ofExcept fun _ h => h).bind_congr fun sheet hsheet => ?_
    have hopens : l.Opens text source ⟨o.trail, identifier, sheet⟩ :=
      h.enter hembed (Outcome.bind_eq_ok_iff.mpr ⟨document, hdocument, hsheet⟩)
    have hbelow : (l.withFormats formats).embedded depth (o.trail ++ [identifier]) sheet =
        l.embedded depth (o.trail ++ [identifier]) sheet := hinner _ hopens
    rw [hbelow]

/-- The sheets below an opened one are loaded alike. -/
lemma Opens.embedded_withFormats {o : OpenSheet} (h : l.Opens text source o) (depth : Nat) :
    (l.withFormats formats).embedded depth o.trail o.sheet = l.embedded depth o.trail o.sheet := by
  induction depth generalizing o with
  | zero => rw [embedded_zero, embedded_zero]
  | succ depth ih =>
    rw [embedded_succ, embedded_succ, o.getLast?_trail, Option.getD_some]
    refine (Load.gives_ofExcept fun _ h => h).bind_congr fun identifiers hembeds => ?_
    rw [Load.mapM_congr fun identifier hmem =>
      h.occurrence_withFormats hformats ⟨identifiers, hembeds, hmem⟩ fun _ hinner => ih hinner]

/-- A table that an opened sheet refers to is loaded alike. -/
lemma HasReference.tableOf_withFormats {r : Reference} (h : l.HasReference text source r) :
    (l.withFormats formats).tableOf r = l.tableOf r := by
  rw [tableOf_eq, tableOf_eq]
  split
  · next identifier htable =>
    rw [parse_withFormats (hformats identifier (Or.inr ⟨r, h, htable⟩))]
    rfl
  · rfl

/-- A document is loaded alike. -/
lemma load_withFormats (hroot : formatFor formats source = formatFor l.formats source) :
    (l.withFormats formats).load text source = l.load text source := by
  rw [load_eq, load_eq]
  rw [decodeSheet_withFormats hroot]
  refine (Load.gives_ofExcept fun _ h => h).bind_congr fun sheet hsheet => ?_
  refine congrArg _ (funext fun nodes => ?_)
  refine (Load.gives_ofExcept fun _ h => h).bind_congr fun references hreferences => ?_
  have hopens : l.Opens text source ⟨[], source, sheet⟩ := ⟨sheet, hsheet, .refl⟩
  refine (congrArg (· >>= _) (hopens.embedded_withFormats hformats _)).trans ?_
  refine hopens.gives_embedded.bind_congr fun parts hparts => ?_
  refine congrArg (· >>= _) (Load.foldlM_congr (fun r hr tables => ?_) [])
  have hreference : l.HasReference text source r :=
    (List.mem_append.mp hr).elim (fun hr => ⟨_, references, hopens, hreferences, hr⟩) (hparts r)
  rw [hreference.tableOf_withFormats hformats]

/-- A loader whose formats are those of another one on the root and on everything that is referred to
has the same outcome, and fetches the same identifiers in the same order. -/
theorem run_withFormats (hroot : formatFor formats source = formatFor l.formats source)
    (hsome : l.formats ≠ []) (hsome' : formats ≠ []) :
    (l.withFormats formats).run text source = l.run text source := by
  rw [run_eq, run_eq, if_neg (by simpa [withFormats] using hsome'), if_neg (by simpa using hsome),
    load_withFormats hformats hroot]

end Referred

/-! ### Following references -/

/-- The identifiers that a sheet mentions: those of the sheets that it embeds and those of tables. -/
def mentions (sheet : Entries) (source : Text) : List Text :=
  (embedsOf sheet source).toOption.getD [] ++
    ((referencesOf sheet source).toOption.getD []).filterMap Reference.identifier?

/-- What is referred to is mentioned by some opened sheet. -/
lemma RefersTo.exists_mentions {identifier : Text} (h : l.RefersTo text source identifier) :
    ∃ o, l.Opens text source o ∧ identifier ∈ mentions o.sheet o.source := by
  rcases h with ⟨o, hopens, identifiers, hembeds, hmem⟩ |
    ⟨r, ⟨o, references, hopens, hreferences, hr⟩, htable⟩
  · refine ⟨o, hopens, List.mem_append_left _ ?_⟩
    rw [hembeds]
    exact hmem
  · refine ⟨o, hopens, List.mem_append_right _ (List.mem_filterMap.mpr ⟨r, ?_, ?_⟩)⟩
    · rw [hreferences]
      exact hr
    · unfold Reference.identifier?
      rw [htable]

/-- A list that has what the root mentions, and what the sheets of its members mention, has everything
that is referred to. -/
lemma RefersTo.mem_of_forall {listed : List Text}
    (hroot : ∀ sheet, l.decodeSheet source text = .ok sheet → mentions sheet source ⊆ listed)
    (hfiles : ∀ identifier ∈ listed, ∀ sheet, l.sheetAt identifier = .ok sheet →
      mentions sheet identifier ⊆ listed)
    {identifier : Text} (h : l.RefersTo text source identifier) : identifier ∈ listed := by
  obtain ⟨o, ⟨sheet, hsheet, hreach⟩, hmentions⟩ := h.exists_mentions
  have hwithin : mentions o.sheet o.source ⊆ listed := by
    clear hmentions
    induction hreach with
    | refl => exact hroot sheet hsheet
    | tail _ hstep ih =>
      cases hstep with
      | @embed entered inner hembed hread =>
        obtain ⟨identifiers, hembeds, hmem⟩ := hembed
        refine hfiles entered (ih (List.mem_append_left _ ?_)) inner hread
        rw [hembeds]
        exact hmem
  exact hwithin hmentions

end Loader

/-! ## Engines with installed formats -/

/-- Entry points of formats are none of value plugins. -/
lemma installedPlugins_cons (entries : List (Text × EntryTarget)) (others : EntryTable) :
    installedPlugins ((sheetParserGroup, entries) :: others) = installedPlugins others := by
  have hgroups : (valuePluginGroup == sheetParserGroup) = false := by decide
  unfold installedPlugins Search.scan
  rw [List.lookup_cons, hgroups]

namespace Engine

/-- The outputs of a sheet for an engine that is made for it, and what was fetched. -/
def parseFresh (settings : Settings) (table : EntryTable) (plugins : List (Text × Offer))
    (text : Text) (files? : Option Files) (mode : Mode) : Except Failure (List Datum) × List Text :=
  match create settings table plugins with
  | .error failure => (.error failure, [])
  | .ok e => e.parseSheet text files? mode

/-- The loader with the formats that are always there. -/
def standardLoader (settings : Settings) (files? : Option Files) (mode : Mode) : Loader :=
  { formats := Format.standard, files?, mode, settings }

variable {settings : Settings} {table others : EntryTable} {plugins : List (Text × Offer)}

/-- With the same installed plugins the same engine is made, but for its formats. -/
lemma create_eq_map (settings : Settings) (plugins : List (Text × Offer))
    (h : installedPlugins table = installedPlugins others) :
    ∃ further, create settings table plugins =
      (fun e => { e with formats := Format.standard ++ further }) <$>
        create settings others plugins := by
  refine ⟨installedFormats (if settings.discoverPlugins then table else []), ?_⟩
  have hplugins : installedPlugins (if settings.discoverPlugins then table else []) =
      installedPlugins (if settings.discoverPlugins then others else []) := by
    split
    · exact h
    · rfl
  unfold create
  dsimp only
  rw [hplugins]
  split
  · rfl
  · rw [map_bind]
    rfl

/-- An engine keeps the settings that it is made with. -/
lemma settings_eq {e : Engine} (h : create settings table plugins = .ok e) :
    e.settings = settings := by
  unfold create at h
  dsimp only at h
  split at h
  · cases h
  · obtain ⟨registry, -, h⟩ := Outcome.bind_eq_ok_iff.mp h
    cases h
    rfl

/-- A sheet that refers to standard extensions only is loaded by an engine as it is with the standard
formats alone. -/
lemma run_loader {e : Engine} (he : create settings table plugins = .ok e) {text : Text}
    {files? : Option Files} {mode : Mode}
    (h : ∀ identifier, (standardLoader settings files? mode).RefersTo text rootSource identifier →
      HasStandardExtension identifier) :
    (e.loader files? mode).run text rootSource =
      (standardLoader settings files? mode).run text rootSource := by
  obtain ⟨further, hformats⟩ := exists_formats_eq he
  have hloader : e.loader files? mode =
      (standardLoader settings files? mode).withFormats (Format.standard ++ further) := by
    unfold loader
    rw [hformats, settings_eq he]
    rfl
  have hroot : HasStandardExtension rootSource := by decide +kernel
  rw [hloader]
  exact Loader.run_withFormats (fun identifier hid => formatFor_append (h identifier hid) further)
    (formatFor_append hroot further) (List.cons_ne_nil _ _) (List.cons_ne_nil _ _)

/-- **Installed formats.**  If a sheet, read with the standard formats, and the sheets that it embeds,
however deep, refer only to identifiers without an extension or with one of a standard format, then
whatever stands under the entry points of formats, the sheet has the same outcome and the same
identifiers are fetched for it. -/
theorem parseFresh_eq_of_standard (settings : Settings) (entries : List (Text × EntryTarget))
    (others : EntryTable) (plugins : List (Text × Offer)) (text : Text) (files? : Option Files)
    (mode : Mode)
    (h : ∀ identifier, (standardLoader settings files? mode).RefersTo text rootSource identifier →
      HasStandardExtension identifier) :
    parseFresh settings ((sheetParserGroup, entries) :: others) plugins text files? mode =
      parseFresh settings others plugins text files? mode := by
  obtain ⟨further, hcreate⟩ :=
    create_eq_map settings plugins (installedPlugins_cons entries others)
  unfold parseFresh
  cases hothers : create settings others plugins with
  | error failure =>
    rw [hothers] at hcreate
    rw [hcreate]
    rfl
  | ok e =>
    rw [hothers] at hcreate
    have hrun := (run_loader hcreate h).trans (run_loader hothers h).symm
    rw [hcreate]
    unfold parseSheet resolve
    dsimp only [Functor.map, Except.map]
    rw [hrun]
    rfl

/-- A format of lists of names under three entry points, among others that bring no format or one that
is there already. -/
def crowdedEntries : List (Text × EntryTarget) :=
  [("lines", .format .lines), ("json", .standardFormat .json), ("broken", .broken),
   ("odd", .foreign), ("lines", .format .lines), ("yaml", .format .lines)]

/-- A sheet of JSON and a table without an extension. -/
def namedFiles : Files :=
  { entries := [("part.JSON", .text "\x7b\"nodes\": [\x7b\"name\": \"A\"\x7d]\x7d"),
      ("names", .text "A: B")] }

/-- A sheet that embeds the one and refers to the other. -/
def namingSheet : Text := "embed: [part.JSON]\ntranslations:\n  fi: names\n"

/-- The installed format claims the extension of the embedded sheet, and the sheet is still read as
JSON. -/
theorem parseFresh_namingSheet :
    (∀ identifier, (standardLoader {} (some namedFiles) .blocking).RefersTo namingSheet rootSource
      identifier → HasStandardExtension identifier) ∧
    parseFresh {} [(sheetParserGroup, crowdedEntries)] [] namingSheet (some namedFiles) .blocking =
      parseFresh {} [] [] namingSheet (some namedFiles) .blocking ∧
    (parseFresh {} [] [] namingSheet (some namedFiles) .blocking).1.isOk ∧
    (parseFresh {} [] [] namingSheet (some namedFiles) .blocking).2 = ["part.JSON", "names"] := by
  have hroot : ((standardLoader {} (some namedFiles) .blocking).decodeSheet rootSource
      namingSheet).map (Loader.mentions · rootSource) = .ok ["part.JSON", "names"] := by
    decide +kernel
  have hpart : ((standardLoader {} (some namedFiles) .blocking).sheetAt "part.JSON").map
      (Loader.mentions · "part.JSON") = .ok [] := by
    decide +kernel
  have hnames : ((standardLoader {} (some namedFiles) .blocking).sheetAt "names").map
      (Loader.mentions · "names") = .ok [] := by
    decide +kernel
  have hstandard : ∀ identifier,
      (standardLoader {} (some namedFiles) .blocking).RefersTo namingSheet rootSource identifier →
        HasStandardExtension identifier := by
    intro identifier hrefers
    have hmem : identifier ∈ (["part.JSON", "names"] : List Text) := by
      refine hrefers.mem_of_forall ?_ ?_
      · intro sheet hsheet
        rw [hsheet] at hroot
        rw [show Loader.mentions sheet rootSource = _ from Except.ok.inj hroot]
        exact List.Subset.refl _
      · intro other hother sheet hsheet
        rcases List.mem_pair.mp hother with rfl | rfl
        · rw [hsheet] at hpart
          rw [show Loader.mentions sheet "part.JSON" = [] from Except.ok.inj hpart]
          exact List.nil_subset _
        · rw [hsheet] at hnames
          rw [show Loader.mentions sheet "names" = [] from Except.ok.inj hnames]
          exact List.nil_subset _
    rcases List.mem_pair.mp hmem with rfl | rfl
    · decide +kernel
    · decide +kernel
  exact ⟨hstandard, parseFresh_eq_of_standard {} crowdedEntries [] [] namingSheet _ _ hstandard,
    by decide +kernel, by decide +kernel⟩

end Engine

end StockFlow
