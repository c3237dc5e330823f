import StockFlow.Document.Load
/-!
# Loading in either mode

What holds of both loadings is stated of the one that the mode of a loader chooses: `Loader.fetch`,
`Loader.embedded`, `Loader.tableOf` and `Loader.load` are the parts of that one. In either mode they
depend on each other in the same way, which is all that most properties of loadings need
(`Loader.embedded_succ`, `Loader.tableOf_eq`, `Loader.load_eq`, `Loader.run_eq`).
-/

namespace StockFlow

/-- The document of an identifier, in either mode. -/
def Files.fetch (files : Files) (mode : Mode) (identifier : Text) : Except Failure Text := do
  let returned ← files.call identifier
  match mode with
  | .blocking => returned.now identifier
  | .awaiting => returned.awaited identifier

/-- The content that is given for an identifier: at once, or to those who wait for it in the end. -/
def Files.content? (files : Files) (mode : Mode) (identifier : Text) : Option Content :=
  match files.reply identifier, mode with
  | .returns (.content given), _ => some given
  | .returns (.awaitable (.ok given)), .awaiting => some given
  | _, _ => none

/-- Whatever is raised for an identifier, its document could not be loaded. -/
theorem Raised.exists_failure_eq (identifier : Text) (reason : Raised) :
    ∃ cause, reason.failure identifier = .load cause := by
  obtain message | message := reason
  · exact ⟨_, rfl⟩
  · exact ⟨_, rfl⟩

/-- A document is that of the content that is given, and without one there is a failure of loading. -/
theorem Files.fetch_cases (files : Files) (mode : Mode) (identifier : Text) :
    (∃ given, files.content? mode identifier = some given ∧
      files.fetch mode identifier = given.document identifier) ∨
    ∃ cause, files.fetch mode identifier = .error (.load cause) := by
  have hraised : ∀ reason : Raised,
      ∃ cause, (.error (reason.failure identifier) : Except Failure Text) = .error (.load cause) :=
    fun reason => (reason.exists_failure_eq identifier).imp fun _ h => congrArg Except.error h
  unfold Files.content? Files.fetch Files.call
  rcases files.reply identifier with reason | given | reason | given
  · exact Or.inr (hraised reason)
  · cases mode <;> exact Or.inl ⟨given, rfl, rfl⟩
  · cases mode with
    | blocking => exact Or.inr ⟨_, rfl⟩
    | awaiting => exact Or.inr (hraised reason)
  · cases mode with
    | blocking => exact Or.inr ⟨_, rfl⟩
    | awaiting => exact Or.inl ⟨given, rfl, rfl⟩

namespace Loader

/-- The fetching that the mode of a loader chooses. -/
def fetch (l : Loader) : Text → Load Text :=
  match l.mode with
  | .blocking => l.fetchNow
  | .awaiting => l.fetchAwaiting

/-- The loading of embedded sheets that the mode of a loader chooses. -/
def embedded (l : Loader) : Nat → List Text → Entries → Load (List Datum × List Reference) :=
  match l.mode with
  | .blocking => l.embeddedNow
  | .awaiting => l.embeddedAwaiting

/-- The loading of a table that the mode of a loader chooses. -/
def tableOf (l : Loader) : Reference → Load (List (Text × Text)) :=
  match l.mode with
  | .blocking => l.tableNow
  | .awaiting => l.tableAwaiting

/-- The loading of a document that the mode of a loader chooses. -/
def load (l : Loader) : Text → Text → Load Document :=
  match l.mode with
  | .blocking => l.loadNow
  | .awaiting => l.loadAwaiting

/-- What is loaded for an identifier that the last sheet of a trail embeds. -/
def occurrence (l : Loader) (depth : Nat) (trail : List Text) (identifier : Text) :
    Load (List Datum × List Reference) := do
  if trail.contains identifier then throw (.load (.cyclicEmbed (trail ++ [identifier])))
  let text ← l.fetch identifier
  let sheet ← Load.ofExcept (l.decodeSheet identifier text)
  let nodes ← Load.ofExcept (nodesOf sheet)
  let references ← Load.ofExcept (referencesOf sheet identifier)
  let inner ← l.embedded depth (trail ++ [identifier]) sheet
  return (nodes ++ inner.1, references ++ inner.2)

/-- The tables of some references, merged one after the other into those that there are. -/
def tablesOf (l : Loader) (references : List Reference) (tables : List Table) : Load (List Table) :=
  references.foldlM (fun tables r => do return mergeTable tables r.language (← l.tableOf r)) tables

variable (l : Loader)

/-- Without files nothing is fetched. -/
theorem fetch_of_files?_eq_none (h : l.files? = none) (identifier : Text) :
    l.fetch identifier = throw (.load (.noFiles identifier)) := by
  obtain ⟨formats, files?, _ | _, settings⟩ := l <;> cases h <;> rfl

/-- An identifier is noted, and then its document is what the files have for those who wait or not. -/
theorem fetch_of_files?_eq_some {files : Files} (h : l.files? = some files) (identifier : Text) :
    l.fetch identifier = (do
      modify fun fetched => fetched ++ [identifier]
      Load.ofExcept (files.fetch l.mode identifier)) := by
  obtain ⟨formats, files?, mode, settings⟩ := l
  obtain rfl : files? = some files := h
  cases hcall : files.call identifier with
  | error failure =>
    cases mode <;> simp only [fetch, fetchNow, fetchAwaiting, call, Files.fetch, hcall] <;> rfl
  | ok returned =>
    cases mode <;> simp only [fetch, fetchNow, fetchAwaiting, call, Files.fetch, hcall] <;> rfl

/-- No sheet is embedded where no depth is left. -/
theorem embedded_zero (trail : List Text) (sheet : Entries) :
    l.embedded 0 trail sheet = throw (.load (.cyclicEmbed trail)) := by
  obtain ⟨formats, files?, _ | _, settings⟩ := l <;> rfl

/-- What a sheet embeds is loaded identifier by identifier. -/
theorem embedded_succ (depth : Nat) (trail : List Text) (sheet : Entries) :
    l.embedded (depth + 1) trail sheet = (do
      let identifiers ← Load.ofExcept (embedsOf sheet (trail.getLast?.getD []))
      let parts ← identifiers.mapM (l.occurrence depth trail)
      return (parts.flatMap Prod.fst, parts.flatMap Prod.snd)) := by
  obtain ⟨formats, files?, _ | _, settings⟩ := l <;> rfl

/-- The entries of the table that a reference stands for. -/
theorem tableOf_eq (r : Reference) :
    l.tableOf r = (do
      match r.table with
      | .text identifier =>
        let text ← l.fetch identifier
        let table ← Load.ofExcept (l.parse identifier text)
        match table.fields? with
        | some entries => Load.ofExcept (tableEntries entries)
        | none => throw (.load (.tableNotMapping identifier))
      | table =>
        match table.fields? with
        | some entries => Load.ofExcept (tableEntries entries)
        | none => throw (.load (.referenceNotTable (← Load.ofExcept table.literalText)))) := by
  obtain ⟨formats, files?, _ | _, settings⟩ := l <;> rfl

/-- A document is loaded from its own sheet, the embedded ones and the tables, in this order. -/
theorem load_eq (text source : Text) :
    l.load text source = (do
      let sheet ← Load.ofExcept (l.decodeSheet source text)
      let ownNodes ← Load.ofExcept (nodesOf sheet)
      let ownReferences ← Load.ofExcept (referencesOf sheet source)
      let (nodes, references) ← l.embedded
        (((l.files?.map fun files => files.entries.length).getD 0) + 1) [source] sheet
      let tables ← l.tablesOf (ownReferences ++ references) []
      return l.assemble sheet tables (ownNodes ++ nodes)) := by
  obtain ⟨formats, files?, _ | _, settings⟩ := l <;> rfl

/-- A loader with a format runs the loading that its mode chooses. -/
theorem run_eq (text source : Text) :
    l.run text source =
      if l.formats.isEmpty then (.error .noFormat, []) else (l.load text source).run.run [] := by
  obtain ⟨formats, files?, _ | _, settings⟩ := l <;> rfl

end Loader

end StockFlow
