import StockFlow.Proofs.Document.Load
import StockFlow.Proofs.Yaml.Values
/-!
# Failures of loadings

Only the loader reports a cycle of sheets: what it reads and fetches fails in other ways
(`Format.namesNoCycle_of_mem`). With the rules for how loadings fail that are put together of
others, this says where such a report comes from.
-/

namespace StockFlow

/-! ## Failures that name no cycle -/

/-- A failure that tells nothing about a cycle of sheets. -/
def Failure.NamesNoCycle : Failure → Prop
  | .load (.cyclicEmbed _) => False
  | _ => True

open Outcome

@[simp]
lemma failsIn_literalText (d : Datum) : FailsIn Failure.NamesNoCycle d.literalText := by
  unfold Datum.literalText
  split <;> simp [Failure.NamesNoCycle]

@[simp]
lemma failsIn_displayed (d : Datum) : FailsIn Failure.NamesNoCycle d.displayed := by
  unfold Datum.displayed
  split <;> simp [Failure.NamesNoCycle]

lemma failsIn_nodesOf (sheet : Entries) : FailsIn Failure.NamesNoCycle (nodesOf sheet) := by
  unfold nodesOf Datum.givenElements
  split
  · split <;> simp [Failure.NamesNoCycle]
  · simp

lemma failsIn_embedsOf (sheet : Entries) (source : Text) :
    FailsIn Failure.NamesNoCycle (embedsOf sheet source) := by
  unfold embedsOf
  dsimp only
  split
  · simp
  · split
    · refine failsIn_mapM fun item _ => ?_
      split <;> simp [Failure.NamesNoCycle]
    · simp [Failure.NamesNoCycle]

lemma failsIn_referencesOf (sheet : Entries) (source : Text) :
    FailsIn Failure.NamesNoCycle (referencesOf sheet source) := by
  unfold referencesOf
  dsimp only
  split
  · simp
  · split
    · exact failsIn_mapM fun entry _ => by simp
    · simp [Failure.NamesNoCycle]

lemma failsIn_tableEntries (entries : Entries) :
    FailsIn Failure.NamesNoCycle (tableEntries entries) :=
  failsIn_foldlM (fun table entry _ => by simp) _

lemma failsIn_document (identifier : Text) (content : Content) :
    FailsIn Failure.NamesNoCycle (content.document identifier) := by
  unfold Content.document
  split
  any_goals simp [Failure.NamesNoCycle]
  split <;> simp [Failure.NamesNoCycle]

lemma failsIn_raised (identifier : Text) (reason : Raised) :
    FailsIn Failure.NamesNoCycle (.error (reason.failure identifier) : Except Failure Text) := by
  cases reason <;> simp [Raised.failure, Failure.NamesNoCycle]

lemma failsIn_fetch (files : Files) (mode : Mode) (identifier : Text) :
    FailsIn Failure.NamesNoCycle (files.fetch mode identifier) := by
  unfold Files.fetch Files.call
  cases files.reply identifier with
  | raises reason => exact failsIn_raised identifier reason
  | returns returned =>
    cases returned with
    | content given => cases mode <;> exact failsIn_document identifier given
    | awaitable outcome =>
      cases mode with
      | blocking => exact failsIn_error_iff.mpr trivial
      | awaiting =>
        cases outcome with
        | error reason => exact failsIn_raised identifier reason
        | ok given => exact failsIn_document identifier given

/-- A format that does not report cycles of sheets, of which it knows nothing. -/
def Format.NamesNoCycle (f : Format) : Prop :=
  ∀ text, FailsIn Failure.NamesNoCycle (f.parse text)

/-- No format reports cycles of sheets. -/
theorem Format.namesNoCycle_of_mem {f : Format} (h : f ∈ [yaml, json, lines]) :
    f.NamesNoCycle := by
  intro text failure hfailure
  rcases h with _ | ⟨_, _ | ⟨_, _ | ⟨_, h⟩⟩⟩
  · have hfault := (Yaml.failsIn_parse text failure hfailure).isFault
    cases failure with
    | load cause =>
      cases cause with
      | invalidYaml => trivial
      | _ => cases hfault
    | _ => trivial
  · have hjson : Json.parse text = .error failure := hfailure
    unfold Json.parse at hjson
    split at hjson
    · cases hjson
    · cases hjson
      trivial
    · cases hjson
      trivial
  · cases hfailure
  · cases h

namespace Load

variable {α β : Type} {P : Failure → Prop}

/-- How a loading fails. -/
def Fails (x : Load α) (P : Failure → Prop) : Prop :=
  ∀ fetched failure, (x.run.run fetched).1 = .error failure → P failure

lemma fails_pure (a : α) : Fails (pure a) P := by
  intro fetched failure h
  cases h

lemma fails_throw {failure : Failure} (h : P failure) : Fails (throw failure : Load α) P := by
  intro fetched failure' h'
  cases h'
  exact h

/-- A computation that fetches nothing fails in its own ways. -/
lemma fails_ofExcept {x : Except Failure α} (h : FailsIn P x) : Fails (Load.ofExcept x) P := by
  cases x with
  | ok a => exact fails_pure a
  | error failure => exact fails_throw (h failure rfl)

/-- How two loadings fail one after the other, given what the first one gives. -/
lemma Fails.bind {x : Load α} {f : α → Load β} {Q : α → Prop} (hx : Fails x P) (hgives : Gives x Q)
    (hf : ∀ a, Q a → Fails (f a) P) : Fails (x >>= f) P := by
  intro fetched failure h
  rw [ExceptT.run_bind, StateT.run_bind] at h
  have hx := hx fetched
  have hgives := hgives fetched
  cases hrun : x.run.run fetched with
  | mk result fetched' =>
    rw [hrun] at h hx hgives
    cases result with
    | error failure' =>
      cases h
      exact hx failure rfl
    | ok a => exact hf a (hgives a rfl) fetched' failure h

/-- How loadings for the members of a list fail. -/
lemma fails_mapM {f : α → Load β} {as : List α} (hf : ∀ a ∈ as, Fails (f a) P) :
    Fails (as.mapM f) P := by
  induction as with
  | nil => exact fails_pure _
  | cons a as ih =>
    rw [List.forall_mem_cons] at hf
    rw [List.mapM_cons]
    refine hf.1.bind (gives_true _) fun b _ => ?_
    exact (ih hf.2).bind (gives_true _) fun bs _ => fails_pure _

/-- How a fold of loadings fails. -/
lemma fails_foldlM {f : β → α → Load β} {as : List α} (hf : ∀ b, ∀ a ∈ as, Fails (f b a) P)
    (b : β) : Fails (as.foldlM f b) P := by
  induction as generalizing b with
  | nil => exact fails_pure _
  | cons a as ih =>
    rw [List.foldlM_cons]
    refine (hf b a List.mem_cons_self).bind (gives_true _) fun b' _ => ?_
    exact ih (fun b a ha => hf b a (List.mem_cons_of_mem _ ha)) b'

end Load

end StockFlow
