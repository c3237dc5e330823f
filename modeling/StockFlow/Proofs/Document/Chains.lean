import Mathlib.Data.List.Nodup
import Mathlib.Logic.Relation
import StockFlow.Proofs.Document.Embedding
import StockFlow.Proofs.Document.Failures
import StockFlow.Proofs.Graph.Walk
/-!
# Chains of embedded sheets

A sheet is read inside those that embed it, one inside the other, and it may not embed any of them.
As every sheet comes from a finite table of files, going on to sheets that are new on the way ends
(`Loader.wellFounded_entersNew`), and the depth that bounds the loader is never what ends it. A
loading that reports a cycle has found one, a chain of sheets from the root in which only the last
identifier occurs twice, and a loading that succeeds has met no such chain
(`Loader.chains_end`).
-/

namespace StockFlow

/-! ## Sheets that are being read -/

/-- A sheet that is being read, its identifier, and the identifiers of the sheets that it is read
inside of, beginning with the root. -/
structure OpenSheet where
  above : List Text
  source : Text
  sheet : Entries

namespace OpenSheet

/-- The chain of identifiers from the root to a sheet. -/
def trail (o : OpenSheet) : List Text := o.above ++ [o.source]

lemma getLast?_trail (o : OpenSheet) : o.trail.getLast? = some o.source := List.getLast?_concat

/-- An identifier is one of those that a sheet embeds. -/
def Embeds (o : OpenSheet) (identifier : Text) : Prop :=
  ∃ identifiers, embedsOf o.sheet o.source = .ok identifiers ∧ identifier ∈ identifiers

end OpenSheet

namespace Loader

variable (l : Loader)

/-- A sheet that a sheet embeds is read inside it. -/
inductive Enters : OpenSheet → OpenSheet → Prop where
  | embed {o : OpenSheet} {identifier : Text} {inner : Entries} (embeds : o.Embeds identifier)
      (read : l.sheetAt identifier = .ok inner) : Enters o ⟨o.trail, identifier, inner⟩

/-- A sheet is read at the end of some chain that begins with the sheet of a text. -/
def Opens (text source : Text) (o : OpenSheet) : Prop :=
  ∃ sheet, l.decodeSheet source text = .ok sheet ∧
    Relation.ReflTransGen l.Enters ⟨[], source, sheet⟩ o

/-- A path of identifiers leads from the root, along sheets that embed the next one, back to one of
them, and to no other one twice. -/
structure IsCycle (text source : Text) (path : List Text) : Prop where
  starts : path.head? = some source
  chain : ∃ o identifier, l.Opens text source o ∧ o.Embeds identifier ∧
    path = o.trail ++ [identifier] ∧ o.trail.Nodup ∧ identifier ∈ o.trail

/-- The identifiers of the files. -/
def identifiers : List Text := (l.files?.map fun files => files.entries.map Prod.fst).getD []

/-- The depth that documents are loaded with. -/
def depthBound : Nat := ((l.files?.map fun files => files.entries.length).getD 0) + 1

/-- How many files are not on a chain. -/
def remaining (trail : List Text) : Nat :=
  (l.identifiers.filter fun identifier => !trail.contains identifier).length

variable {l}

/-- A chain begins with the root. -/
lemma head?_trail_of_opens {text source : Text} {o : OpenSheet} (h : l.Opens text source o) :
    o.trail.head? = some source := by
  obtain ⟨sheet, -, hreach⟩ := h
  induction hreach with
  | refl => rfl
  | tail _ hstep ih =>
    cases hstep
    rw [OpenSheet.trail, List.head?_append, ih]
    rfl

/-- A sheet that is read inside one that is read. -/
lemma Opens.enter {text source : Text} {o : OpenSheet} (h : l.Opens text source o)
    {identifier : Text} {inner : Entries} (hembed : o.Embeds identifier)
    (hread : l.sheetAt identifier = .ok inner) :
    l.Opens text source ⟨o.trail, identifier, inner⟩ := by
  obtain ⟨sheet, hsheet, hreach⟩ := h
  exact ⟨sheet, hsheet, hreach.tail (.embed hembed hread)⟩

/-! ## The files that are left -/

/-- Only what is in the table has a document. -/
lemma mem_identifiers_of_document {identifier text : Text}
    (h : l.document identifier = .ok text) : identifier ∈ l.identifiers := by
  obtain ⟨formats, _ | ⟨entries, strict⟩, mode, settings⟩ := l
  · cases h
  · have hfetch : Files.fetch ⟨entries, strict⟩ mode identifier = .ok text := h
    show identifier ∈ entries.map Prod.fst
    by_contra hnew
    have hlookup : entries.lookup identifier = none := by
      rw [List.lookup_eq_none_iff]
      intro entry hentry
      have hne : identifier ≠ entry.1 := fun heq => hnew (heq ▸ List.mem_map_of_mem hentry)
      exact bne_iff_ne.mpr hne
    -- what is not listed is absent, or asking for it fails
    unfold Files.fetch Files.call Files.reply at hfetch
    rw [hlookup] at hfetch
    cases strict with
    | false => cases mode <;> cases hfetch
    | true => cases mode <;> cases hfetch

/-- A file that is new on a chain is not left any more. -/
lemma remaining_lt {trail : List Text} {identifier : Text} (hmem : identifier ∈ l.identifiers)
    (hnew : identifier ∉ trail) : l.remaining (trail ++ [identifier]) < l.remaining trail := by
  refine length_filter_not_contains_lt hmem hnew fun other => ?_
  rw [List.mem_append, List.mem_singleton, or_comm]

/-- Going on to sheets that are new on the way ends. -/
theorem wellFounded_entersNew (l : Loader) :
    WellFounded fun inner o : OpenSheet => l.Enters o inner ∧ inner.source ∉ o.trail := by
  refine Subrelation.wf (fun {inner o} h => ?_)
    (InvImage.wf (fun o : OpenSheet => l.remaining o.trail) Nat.lt_wfRel.wf)
  obtain ⟨hstep, hnew⟩ := h
  cases hstep with
  | embed _ hread =>
    obtain ⟨text, htext, -⟩ := Outcome.bind_eq_ok_iff.mp hread
    exact remaining_lt (mem_identifiers_of_document htext) hnew

/-! ## The depth -/

/-- Nothing follows a failure. -/
lemma throw_bind {α β : Type} (failure : Failure) (next : α → Load β) :
    throw failure >>= next = throw failure := rfl

/-- What follows a fetch matters only for the document that is fetched. -/
lemma fetch_bind_congr {α : Type} {identifier : Text} {next next' : Text → Load α}
    (h : ∀ text, l.document identifier = .ok text → next text = next' text) :
    l.fetch identifier >>= next = l.fetch identifier >>= next' := by
  unfold document at h
  cases hfiles : l.files? with
  | none =>
    rw [l.fetch_of_files?_eq_none hfiles]
    rfl
  | some files =>
    rw [hfiles] at h
    rw [l.fetch_of_files?_eq_some hfiles, bind_assoc, bind_assoc]
    congr 1
    funext _
    cases hfetch : files.fetch l.mode identifier with
    | error failure => rfl
    | ok text =>
      have hnext := h text hfetch
      rw [show Load.ofExcept (.ok text) = (pure text : Load Text) from rfl, pure_bind, pure_bind, hnext]

/-- One sheet more on a chain of files takes one unit of depth, so a depth beyond the number of files
that are left changes nothing. -/
lemma embedded_succ_eq {depth : Nat} {trail : List Text} (sheet : Entries)
    (h : l.remaining trail < depth) :
    l.embedded (depth + 1) trail sheet = l.embedded depth trail sheet := by
  induction depth generalizing trail sheet with
  | zero => exact absurd h (Nat.not_lt_zero _)
  | succ depth ih =>
    have hoccurrence : l.occurrence (depth + 1) trail = l.occurrence depth trail := by
      funext identifier
      unfold occurrence
      dsimp only
      split
      · rw [throw_bind, throw_bind]
      · next hnew =>
        refine fetch_bind_congr fun text htext => ?_
        have hlt : l.remaining (trail ++ [identifier]) < l.remaining trail :=
          remaining_lt (mem_identifiers_of_document htext) (by simpa using hnew)
        have hinner : l.embedded (depth + 1) (trail ++ [identifier]) =
            l.embedded depth (trail ++ [identifier]) := funext fun inner => ih inner (by omega)
        rw [hinner]
    rw [embedded_succ, embedded_succ, hoccurrence]

/-- On no chain are more files left than the depth allows. -/
lemma remaining_lt_depthBound (trail : List Text) : l.remaining trail < l.depthBound := by
  have hle : l.remaining trail ≤ l.identifiers.length := List.length_filter_le _ _
  have hlength : l.identifiers.length + 1 = l.depthBound := by
    obtain ⟨formats, _ | files, mode, settings⟩ := l
    · rfl
    · exact congrArg (· + 1) (List.length_map _)
  omega

/-- More depth than documents are loaded with changes nothing. -/
lemma embedded_add_eq (extra : Nat) (trail : List Text) (sheet : Entries) :
    l.embedded (l.depthBound + extra) trail sheet = l.embedded l.depthBound trail sheet := by
  induction extra with
  | zero => rfl
  | succ extra ih =>
    have hlt := l.remaining_lt_depthBound trail
    rw [← ih, ← Nat.add_assoc, embedded_succ_eq sheet (by omega)]

/-! ## Reports of cycles -/

/-- What is fetched is the document of the identifier. -/
lemma gives_fetch (l : Loader) (identifier : Text) :
    (l.fetch identifier).Gives fun text => l.document identifier = .ok text := by
  intro fetched text h
  obtain ⟨_, -, htext, -⟩ := l.logs_fetch identifier fetched text _ (Prod.ext h rfl)
  exact htext

/-- If a failure reports a cycle, then there is this cycle. -/
def ReportsCycle (l : Loader) (text source : Text) (failure : Failure) : Prop :=
  ∀ path, failure = .load (.cyclicEmbed path) → l.IsCycle text source path

/-- A failure that names no cycle reports none. -/
lemma reportsCycle_of_namesNoCycle {text source : Text} {failure : Failure}
    (h : failure.NamesNoCycle) : l.ReportsCycle text source failure := by
  rintro path rfl
  exact h.elim

/-- A computation that names no cycle, inside a loading. -/
lemma fails_ofExcept {α : Type} {x : Except Failure α} (h : Outcome.FailsIn Failure.NamesNoCycle x)
    (text source : Text) : (Load.ofExcept x).Fails (l.ReportsCycle text source) :=
  Load.fails_ofExcept fun failure hfailure => reportsCycle_of_namesNoCycle (h failure hfailure)

/-- Fetching names no cycle. -/
lemma fails_fetch (identifier text source : Text) :
    (l.fetch identifier).Fails (l.ReportsCycle text source) := by
  cases hfiles : l.files? with
  | none =>
    rw [l.fetch_of_files?_eq_none hfiles]
    exact Load.fails_throw (reportsCycle_of_namesNoCycle trivial)
  | some files =>
    rw [l.fetch_of_files?_eq_some hfiles]
    have hmodify : (modify fun fetched => fetched ++ [identifier] : Load Unit).Fails
        (l.ReportsCycle text source) := by
      intro fetched failure h
      cases h
    refine hmodify.bind (Load.gives_true _) fun _ _ => ?_
    exact fails_ofExcept (failsIn_fetch files l.mode identifier) text source

section

variable (hl : ∀ f ∈ l.formats, f.NamesNoCycle)

include hl

/-- Reading a document names no cycle. -/
lemma failsIn_parse (identifier text : Text) :
    Outcome.FailsIn Failure.NamesNoCycle (l.parse identifier text) := by
  unfold parse
  rw [Outcome.failsIn_bind_iff]
  refine ⟨?_, fun f hf => hl f (mem_of_formatFor_eq_ok hf) text⟩
  unfold formatFor
  split <;> simp [Failure.NamesNoCycle]

/-- Reading a sheet names no cycle. -/
lemma failsIn_decodeSheet (identifier text : Text) :
    Outcome.FailsIn Failure.NamesNoCycle (l.decodeSheet identifier text) := by
  unfold decodeSheet
  rw [Outcome.failsIn_bind_iff]
  refine ⟨l.failsIn_parse hl identifier text, fun d _ => ?_⟩
  split
  · simp
  · split <;> simp [Failure.NamesNoCycle]

/-- Reading a table names no cycle. -/
lemma fails_tableOf (r : Reference) (text source : Text) :
    (l.tableOf r).Fails (l.ReportsCycle text source) := by
  rw [tableOf_eq]
  split
  · next identifier _ =>
    refine (l.fails_fetch identifier text source).bind (Load.gives_true _) fun document _ => ?_
    refine (fails_ofExcept (l.failsIn_parse hl identifier document) text source).bind
      (Load.gives_true _) fun table _ => ?_
    split
    · exact fails_ofExcept (failsIn_tableEntries _) text source
    · exact Load.fails_throw (reportsCycle_of_namesNoCycle trivial)
  · split
    · exact fails_ofExcept (failsIn_tableEntries _) text source
    · refine (fails_ofExcept (failsIn_literalText _) text source).bind (Load.gives_true _) ?_
      exact fun _ _ => Load.fails_throw (reportsCycle_of_namesNoCycle trivial)

/-- A cycle that is reported for an identifier that a sheet embeds has been found there, or below the
sheet of the identifier. -/
lemma fails_occurrence {text source : Text} {depth : Nat} {o : OpenSheet} {identifier : Text}
    (hopens : l.Opens text source o) (hnodup : o.trail.Nodup) (hembed : o.Embeds identifier)
    (hbelow : ∀ inner, l.sheetAt identifier = .ok inner → identifier ∉ o.trail →
      (l.embedded depth (o.trail ++ [identifier]) inner).Fails (l.ReportsCycle text source)) :
    (l.occurrence depth o.trail identifier).Fails (l.ReportsCycle text source) := by
  unfold occurrence
  dsimp only
  split
  · next hrepeated =>
    rw [throw_bind]
    refine Load.fails_throw ?_
    rintro path hpath
    cases hpath
    refine ⟨?_, o, identifier, hopens, hembed, rfl, hnodup, by simpa using hrepeated⟩
    rw [List.head?_append, head?_trail_of_opens hopens]
    rfl
  · next hnew =>
    refine (l.fails_fetch identifier text source).bind (l.gives_fetch identifier)
      fun document hdocument => ?_
    refine (fails_ofExcept (l.failsIn_decodeSheet hl identifier document) text source).bind
      (Load.gives_ofExcept fun _ h => h) fun inner hinner => ?_
    refine (fails_ofExcept (failsIn_nodesOf inner) text source).bind (Load.gives_true _)
      fun nodes _ => ?_
    refine (fails_ofExcept (failsIn_referencesOf inner identifier) text source).bind
      (Load.gives_true _) fun references _ => ?_
    have hread : l.sheetAt identifier = .ok inner :=
      Outcome.bind_eq_ok_iff.mpr ⟨document, hdocument, hinner⟩
    exact (hbelow inner hread (by simpa using hnew)).bind (Load.gives_true _)
      fun parts _ => Load.fails_pure _

/-- A cycle that is reported below a sheet, on a chain without repetition, has been found. -/
lemma fails_embedded {text source : Text} {depth : Nat} {o : OpenSheet}
    (hopens : l.Opens text source o) (hnodup : o.trail.Nodup)
    (hdepth : l.remaining o.trail < depth) :
    (l.embedded depth o.trail o.sheet).Fails (l.ReportsCycle text source) := by
  induction depth generalizing o with
  | zero => exact absurd hdepth (Nat.not_lt_zero _)
  | succ depth ih =>
    rw [embedded_succ, o.getLast?_trail, Option.getD_some]
    refine (fails_ofExcept (failsIn_embedsOf o.sheet o.source) text source).bind
      (Load.gives_ofExcept fun _ h => h) fun identifiers hembeds => ?_
    refine (Load.fails_mapM fun identifier hmem => ?_).bind (Load.gives_true _)
      fun _ _ => Load.fails_pure _
    refine l.fails_occurrence hl hopens hnodup ⟨identifiers, hembeds, hmem⟩ ?_
    intro inner hread hnew
    obtain ⟨document, hdocument, -⟩ := Outcome.bind_eq_ok_iff.mp hread
    have hlt : l.remaining (o.trail ++ [identifier]) < l.remaining o.trail :=
      remaining_lt (mem_identifiers_of_document hdocument) hnew
    have hinner : l.Opens text source ⟨o.trail, identifier, inner⟩ :=
      hopens.enter ⟨identifiers, hembeds, hmem⟩ hread
    exact ih hinner (nodup_concat hnodup hnew) (Nat.lt_of_lt_of_le hlt (Nat.le_of_lt_succ hdepth))

/-- A cycle that is reported has been found. -/
lemma isCycle_of_run {text source : Text} {path : List Text}
    (h : (l.run text source).1 = .error (.load (.cyclicEmbed path))) :
    l.IsCycle text source path := by
  have hload : (l.load text source).Fails (l.ReportsCycle text source) := by
    rw [load_eq]
    refine (fails_ofExcept (l.failsIn_decodeSheet hl source text) text source).bind
      (Load.gives_ofExcept fun _ h => h) fun sheet hsheet => ?_
    refine (fails_ofExcept (failsIn_nodesOf sheet) text source).bind (Load.gives_true _)
      fun nodes _ => ?_
    refine (fails_ofExcept (failsIn_referencesOf sheet source) text source).bind
      (Load.gives_true _) fun references _ => ?_
    have hopens : l.Opens text source ⟨[], source, sheet⟩ := ⟨sheet, hsheet, .refl⟩
    refine (l.fails_embedded hl hopens (List.nodup_singleton source)
      (l.remaining_lt_depthBound _)).bind (Load.gives_true _) fun parts _ => ?_
    refine (Load.fails_foldlM (fun tables r _ => ?_) _).bind (Load.gives_true _)
      fun tables _ => Load.fails_pure _
    exact (l.fails_tableOf hl r text source).bind (Load.gives_true _) fun _ _ => Load.fails_pure _
  rw [run_eq] at h
  split at h
  · cases h
  · exact hload [] _ h path rfl

end

/-! ## Loadings that succeed -/

/-- Along every chain from a sheet on, every sheet embeds only what is new on the chain. -/
def EmbedsNew (l : Loader) (o : OpenSheet) : Prop :=
  ∀ o', Relation.ReflTransGen l.Enters o o' → ∀ identifier, o'.Embeds identifier →
    identifier ∉ o'.trail

/-- A sheet embeds only what is new if all identifiers that it embeds are new and the sheets of all of
them embed only what is new. -/
lemma embedsNew_of_forall {o : OpenSheet} {identifiers : List Text}
    (hembeds : embedsOf o.sheet o.source = .ok identifiers)
    (hall : ∀ identifier ∈ identifiers, identifier ∉ o.trail ∧
      ∃ inner, l.sheetAt identifier = .ok inner ∧ l.EmbedsNew ⟨o.trail, identifier, inner⟩) :
    l.EmbedsNew o := by
  have hmem : ∀ identifier, o.Embeds identifier → identifier ∈ identifiers := by
    rintro identifier ⟨identifiers', hembeds', hmem⟩
    rw [hembeds] at hembeds'
    cases hembeds'
    exact hmem
  intro o' hreach identifier hembed
  rcases hreach.cases_head with rfl | ⟨between, hstep, hreach'⟩
  · exact (hall identifier (hmem identifier hembed)).1
  · cases hstep with
    | @embed entered inner' hentered hread' =>
      obtain ⟨-, inner, hread, hinnerNew⟩ := hall entered (hmem entered hentered)
      obtain rfl : inner = inner' := Except.ok.inj (hread.symm.trans hread')
      exact hinnerNew o' hreach' identifier hembed

/-- A sheet below which loading succeeds embeds only what is new. -/
lemma logs_embedsNew (depth : Nat) (o : OpenSheet) :
    (l.embedded depth o.trail o.sheet).Logs fun _ _ => l.EmbedsNew o := by
  induction depth generalizing o with
  | zero =>
    rw [embedded_zero]
    exact Load.logs_throw _
  | succ depth ih =>
    rw [embedded_succ, o.getLast?_trail, Option.getD_some]
    refine (Load.logs_ofExcept _).bind ?_
    rintro identifiers _ ⟨hembeds, -⟩
    refine (Load.logs_mapM
      (R := fun identifier _ _ => identifier ∉ o.trail ∧
        ∃ inner, l.sheetAt identifier = .ok inner ∧ l.EmbedsNew ⟨o.trail, identifier, inner⟩)
      (S := fun identifiers _ _ => ∀ identifier ∈ identifiers, identifier ∉ o.trail ∧
        ∃ inner, l.sheetAt identifier = .ok inner ∧ l.EmbedsNew ⟨o.trail, identifier, inner⟩)
      (fun identifier => ?_) ?_ ?_ identifiers).bind ?_
    · refine (l.logs_occurrence fun inner => ih ⟨o.trail, identifier, inner⟩).imp ?_
      rintro part log ⟨hnew, inner, nodes, references, parts, log', hread, -, -, hinnerNew, -⟩
      exact ⟨hnew, inner, hread, hinnerNew⟩
    · exact fun _ h => absurd h List.not_mem_nil
    · intro identifier _ _ identifiers _ _ hfirst hrest
      exact List.forall_mem_cons.mpr ⟨hfirst, hrest⟩
    · exact fun parts _ hall => Load.logs_pure (embedsNew_of_forall hembeds hall)

/-- In a document that is loaded, every sheet embeds only what is new on the chain to it. -/
lemma embedsNew_of_run {text source : Text} {doc : Document}
    (h : (l.run text source).1 = .ok doc) {sheet : Entries}
    (hsheet : l.decodeSheet source text = .ok sheet) : l.EmbedsNew ⟨[], source, sheet⟩ := by
  have hload : (l.load text source).Logs fun _ _ => l.EmbedsNew ⟨[], source, sheet⟩ := by
    rw [load_eq]
    refine (Load.logs_ofExcept _).bind ?_
    rintro sheet' _ ⟨hsheet', -⟩
    rw [hsheet] at hsheet'
    cases hsheet'
    refine (Load.logs_ofExcept _).bind fun nodes _ _ => ?_
    refine (Load.logs_ofExcept _).bind fun references _ _ => ?_
    refine (l.logs_embedsNew _ ⟨[], source, sheet⟩).bind fun parts _ hnew => ?_
    exact (l.logs_tables _ _).bind fun tables _ _ => Load.logs_pure hnew
  rw [run_eq] at h
  split at h
  · cases h
  · obtain ⟨_, -, hnew⟩ := hload [] doc _ (Prod.ext h rfl)
    exact hnew

/-- The chain to a sheet repeats no identifier, if every sheet on it embeds only what is new. -/
lemma nodup_trail_of_reaches {o o' : OpenSheet} (ho : o.trail.Nodup) (hnew : l.EmbedsNew o)
    (hreach : Relation.ReflTransGen l.Enters o o') : o'.trail.Nodup := by
  induction hreach with
  | refl => exact ho
  | tail hbefore hstep ih =>
    cases hstep with
    | embed hembed hread => exact nodup_concat ih (hnew _ hbefore _ hembed)

/-- Loading ends: going on to sheets that are new on the chain ends, and more depth than documents
are loaded with changes nothing. A cycle that is reported begins with the root, every sheet on it
embeds the next identifier, and only the last one occurs before. In a document that is loaded, no
chain from the root repeats an identifier. -/
theorem chains_end (hl : ∀ f ∈ l.formats, f.NamesNoCycle) (text source : Text) :
    (WellFounded fun inner o : OpenSheet => l.Enters o inner ∧ inner.source ∉ o.trail) ∧
      (∀ extra sheet, l.embedded (l.depthBound + extra) [source] sheet =
        l.embedded l.depthBound [source] sheet) ∧
      (∀ path, (l.run text source).1 = .error (.load (.cyclicEmbed path)) →
        l.IsCycle text source path) ∧
      ∀ doc, (l.run text source).1 = .ok doc → ∀ o, l.Opens text source o →
        o.trail.Nodup ∧ ∀ identifier, o.Embeds identifier → identifier ∉ o.trail := by
  refine ⟨l.wellFounded_entersNew, fun extra sheet => l.embedded_add_eq extra _ sheet,
    fun path h => l.isCycle_of_run hl h, ?_⟩
  rintro doc h o ⟨sheet, hsheet, hreach⟩
  have hnew := embedsNew_of_run h hsheet
  have hroot : (OpenSheet.trail ⟨[], source, sheet⟩).Nodup := List.nodup_singleton source
  exact ⟨nodup_trail_of_reaches hroot hnew hreach, hnew o hreach⟩

/-- A loader with two sheets that embed each other. -/
def ring : Loader where
  formats := [.yaml]
  files? := some
    { entries := [("a", .text "embed: [b]"), ("b", .text "embed: [a]")] }
  mode := .awaiting
  settings := {}

/-- A ring of two sheets is found when the first of them is reached again, and two chains may lead to
the same sheet. -/
theorem chains_end_ring_diamond :
    ring.IsCycle "embed: [a]" "root" ["root", "a", "b", "a"] ∧
      ∃ doc, (diamond.run diamondSheet "root").1 = .ok doc ∧
        ∀ o, diamond.Opens diamondSheet "root" o → o.trail.Nodup := by
  have hformats : ∀ f ∈ [Format.yaml], f.NamesNoCycle := fun f hf =>
    Format.namesNoCycle_of_mem (List.mem_cons.mpr (.inl (List.mem_singleton.mp hf)))
  have hring : (ring.run "embed: [a]" "root").1.map (fun _ => ()) =
      .error (.load (.cyclicEmbed ["root", "a", "b", "a"])) := by decide +kernel
  have hdiamond : (diamond.run diamondSheet "root").1.isOk = true := by decide +kernel
  constructor
  · refine (chains_end (l := ring) hformats "embed: [a]" "root").2.2.1 _ ?_
    cases h : (ring.run "embed: [a]" "root").1 with
    | error failure =>
      rw [h] at hring
      exact congrArg _ (Except.error.inj hring)
    | ok doc =>
      rw [h] at hring
      cases hring
  · cases h : (diamond.run diamondSheet "root").1 with
    | error failure =>
      rw [h] at hdiamond
      cases hdiamond
    | ok doc =>
      have hchains := (chains_end (l := diamond) hformats diamondSheet "root").2.2.2 doc h
      exact ⟨doc, rfl, fun o ho => (hchains o ho).1⟩

end Loader

end StockFlow
