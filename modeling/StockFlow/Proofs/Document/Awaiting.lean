import Mathlib.Data.List.Perm.Basic
import StockFlow.Engine
import StockFlow.Proofs.Document.Modes
/-!
# Waiting for documents

The loading that waits and the loading that does not wait are two recursions, and they are in step: what
the one finds, waiting for what is returned to it, is what the other one finds at once in the table in which
every reply is what waiting for it gives or raises. This holds of one call
(`Loader.fetchAwaiting_eq`), whether it raises, returns a content or returns something to wait for; from
there it holds below every sheet, by induction on the depth (`Loader.embeddedAwaiting_eq`), and so of
documents, with the same identifiers called for in the same order also when a loading fails
(`Loader.run_awaiting_eq_run_settled`).
-/

namespace StockFlow

/-! ## Settled tables -/

namespace Files

/-- The settled table has the settled replies. -/
lemma reply_settled (files : Files) (identifier : Text) :
    files.settled.reply identifier = (files.reply identifier).settled := by
  obtain ⟨entries, strict⟩ := files
  induction entries with
  | nil => cases strict <;> rfl
  | cons entry entries ih =>
    unfold reply settled at ih ⊢
    rw [List.map_cons, List.lookup_cons, List.lookup_cons]
    cases identifier == entry.1 with
    | true => rfl
    | false => exact ih

/-- Who waits for what a call returns finds what is found at once in the settled table, and fails for the
same reason. -/
lemma fetch_awaiting (files : Files) (identifier : Text) :
    files.fetch .awaiting identifier = files.settled.fetch .blocking identifier := by
  unfold fetch call
  rw [reply_settled]
  cases files.reply identifier with
  | raises reason => rfl
  | returns returned =>
    cases returned with
    | content given => rfl
    | awaitable outcome =>
      -- what is raised by waiting is raised by the settled call
      cases outcome with
      | error reason => rfl
      | ok given => rfl

end Files

namespace Loader

/-- The loader that waits. -/
def awaiting (l : Loader) : Loader := { l with mode := .awaiting }

/-- The loader that does not wait. -/
def blocking (l : Loader) : Loader := { l with mode := .blocking }

/-- The loader that does not wait and has the settled table. -/
def settled (l : Loader) : Loader :=
  { l with files? := l.files?.map Files.settled, mode := .blocking }

variable (l : Loader)

/-! ## Two loadings in step -/

/-- Fetching an identifier takes one call on either side, and has the same outcome. -/
lemma fetchAwaiting_eq (identifier : Text) :
    l.fetchAwaiting identifier = l.settled.fetchNow identifier := by
  have hawaiting : l.awaiting.fetch identifier = l.fetchAwaiting identifier := rfl
  have hnow : l.settled.fetch identifier = l.settled.fetchNow identifier := rfl
  rw [← hawaiting, ← hnow]
  cases hfiles : l.files? with
  | none =>
    have hsettled : l.settled.files? = none := by
      unfold settled
      rw [hfiles]
      rfl
    rw [l.awaiting.fetch_of_files?_eq_none hfiles, l.settled.fetch_of_files?_eq_none hsettled]
  | some files =>
    have hsettled : l.settled.files? = some files.settled := by
      unfold settled
      rw [hfiles]
      rfl
    rw [l.awaiting.fetch_of_files?_eq_some hfiles, l.settled.fetch_of_files?_eq_some hsettled]
    change (do modify _; Load.ofExcept (files.fetch .awaiting identifier)) =
      (do modify _; Load.ofExcept (files.settled.fetch .blocking identifier) : Load Text)
    rw [files.fetch_awaiting]

/-- Below every sheet the two loadings are in step, whatever has been called for before. -/
theorem embeddedAwaiting_eq (depth : Nat) (trail : List Text) (sheet : Entries) :
    l.embeddedAwaiting depth trail sheet = l.settled.embeddedNow depth trail sheet := by
  induction depth generalizing trail sheet with
  | zero => rfl
  | succ depth ih =>
    unfold embeddedAwaiting embeddedNow
    apply congrArg (Load.ofExcept (embedsOf sheet (trail.getLast?.getD [])) >>= ·)
    funext identifiers
    apply congrArg (· >>= _)
    apply congrArg (identifiers.mapM ·)
    funext identifier
    -- a sheet is fetched by one call, and the sheets inside it are loaded with less depth
    simp only [fetchAwaiting_eq, ih]
    rfl

/-- A table is loaded alike. -/
lemma tableAwaiting_eq (r : Reference) : l.tableAwaiting r = l.settled.tableNow r := by
  unfold tableAwaiting tableNow
  simp only [fetchAwaiting_eq]
  rfl

/-- A document is loaded alike. -/
theorem loadAwaiting_eq (text source : Text) :
    l.loadAwaiting text source = l.settled.loadNow text source := by
  have hsize : (l.settled.files?.map fun files => files.entries.length) =
      l.files?.map fun files => files.entries.length := by
    obtain ⟨formats, _ | files, mode, settings⟩ := l
    · rfl
    · exact congrArg some (List.length_map _)
  unfold loadAwaiting loadNow
  simp only [embeddedAwaiting_eq, tableAwaiting_eq, hsize]
  rfl

/-- **Waiting changes nothing else.** Loading a text and waiting for what is returned is loading it, without
waiting, from the table in which every reply is what waiting for it gives or raises: with the same document
or the same failure, and with the same identifiers called for in the same order, whatever has been called
for before. And so a sheet has the same output. -/
theorem run_awaiting_eq_run_settled :
    (∀ (l : Loader) (text source : Text) (fetched : List Text),
      (l.loadAwaiting text source).run.run fetched =
        (l.settled.loadNow text source).run.run fetched) ∧
      (∀ (l : Loader) (text source : Text), l.awaiting.run text source = l.settled.run text source) ∧
      ∀ (e : Engine) (text : Text) (files? : Option Files),
        e.parseSheet text files? .awaiting =
          e.parseSheet text (files?.map Files.settled) .blocking := by
  have hload : ∀ (l : Loader) (text source : Text),
      l.loadAwaiting text source = l.settled.loadNow text source := loadAwaiting_eq
  have hrun : ∀ (l : Loader) (text source : Text),
      l.awaiting.run text source = l.settled.run text source := by
    intro l text source
    have hawaiting : l.awaiting.load text source = l.awaiting.loadAwaiting text source := rfl
    have hsettled : l.settled.load text source = l.awaiting.settled.loadNow text source := rfl
    rw [run_eq, run_eq, hawaiting, hsettled, hload]
    rfl
  refine ⟨fun l text source fetched => by rw [hload], hrun, fun e text files? => ?_⟩
  have hresolve : (e.loader files? .awaiting).run text rootSource =
      (e.loader (files?.map Files.settled) .blocking).run text rootSource :=
    hrun (e.loader files? .awaiting) text rootSource
  unfold Engine.parseSheet Engine.resolve
  rw [hresolve]

/-- A loader whose calls return something to wait for, but for one that returns a text and one that raises;
waiting may raise, too. -/
def postal : Loader where
  formats := [.yaml]
  files? := some
    { entries := [
        ("outer", .returns (.awaitable (.ok (.text "nodes: [name: Outer]\nembed: [inner]")))),
        ("inner", .returns (.awaitable (.ok (.text "nodes: [name: Inner]")))),
        ("names", .text "Outer: Outside"),
        ("lost", .returns (.awaitable (.error (.other "lost on the way")))),
        ("shut", .raises (.load "shut"))] }
  mode := .awaiting
  settings := {}

/-- What a loader shows of the sheet of a text: the declarations in writing, or why there are none, and
the identifiers called for. -/
def shown (l : Loader) (text : Text) : Except Failure (List (Option Text)) × List Text :=
  let (outcome, fetched) := l.run text "root"
  (outcome.map fun doc => doc.nodes.map Datum.literal?, fetched)

/-- Who waits reads a sheet inside a sheet, and a table; who does not wait finds nothing in the first one.
Waiting for the lost sheet and calling for the shut one raise after the sheets before them have been called
for, and nothing is called for after them. -/
theorem run_awaiting_postal :
    postal.settled.shown "embed: [outer]\ntranslations:\n  fi: names" =
        ⟨.ok [some "\x7b'name': 'Outer'\x7d", some "\x7b'name': 'Inner'\x7d"],
          ["outer", "inner", "names"]⟩ ∧
      postal.settled.shown "embed: [outer, lost, inner]" =
        ⟨.error (.load (.unreadable "lost" "lost on the way")), ["outer", "inner", "lost"]⟩ ∧
      postal.settled.shown "embed: [inner]\ntranslations:\n  fi: shut\n  sv: names" =
        ⟨.error (.load (.raised "shut")), ["inner", "shut"]⟩ ∧
      postal.blocking.shown "embed: [outer]" =
        ⟨.error (.load (.deferred "outer")), ["outer"]⟩ := by
  have hshown : ∀ text, postal.settled.shown text = postal.shown text := by
    intro text
    unfold shown
    rw [← run_awaiting_eq_run_settled.2.1]
    rfl
  rw [hshown, hshown, hshown]
  exact ⟨by decide +kernel, by decide +kernel, by decide +kernel, by decide +kernel⟩

end Loader

end StockFlow
