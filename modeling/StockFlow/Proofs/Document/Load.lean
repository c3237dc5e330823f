import StockFlow.Proofs.Document.Formats
import StockFlow.Proofs.Document.Modes
import StockFlow.Proofs.Sheet.Outline
/-!
# What loaded documents declare

With formats that make decoded values only, every declaration of a loaded document is a decoded value,
whether it is the sheet itself that declares the node or a sheet that it embeds
(`Loader.isDecoded_of_run`). So it is a value by itself, and it has steady names unless it contains
itself (`Loader.hasSteadyNames_of_run`).
-/

namespace StockFlow

/-! ## What loadings give -/

namespace Load

variable {α β : Type} {P : α → Prop} {Q : β → Prop}

/-- What a loading gives when it succeeds. -/
def Gives (x : Load α) (P : α → Prop) : Prop :=
  ∀ fetched a, (x.run.run fetched).1 = .ok a → P a

/-- Every loading gives something. -/
lemma gives_true (x : Load α) : Gives x fun _ => True :=
  fun _ _ _ => trivial

/-- A value is given as it is. -/
lemma gives_pure {a : α} (h : P a) : Gives (pure a) P := by
  intro fetched b hb
  cases hb
  exact h

/-- A loading that fails gives nothing. -/
lemma gives_throw (failure : Failure) : Gives (throw failure : Load α) P := by
  intro fetched a ha
  cases ha

/-- What a computation that fetches nothing gives. -/
lemma gives_ofExcept {x : Except Failure α} (h : ∀ a, x = .ok a → P a) :
    Gives (Load.ofExcept x) P := by
  cases x with
  | ok a => exact gives_pure (h a rfl)
  | error failure => exact gives_throw failure

/-- What two loadings give one after the other. -/
lemma Gives.bind {x : Load α} {f : α → Load β} (hx : Gives x P) (hf : ∀ a, P a → Gives (f a) Q) :
    Gives (x >>= f) Q := by
  intro fetched b hb
  rw [ExceptT.run_bind, StateT.run_bind] at hb
  have ha := hx fetched
  cases hrun : x.run.run fetched with
  | mk result fetched' =>
    rw [hrun] at ha hb
    cases result with
    | error failure => cases hb
    | ok a => exact hf a (ha a rfl) fetched' b hb

/-- What a loading for every member of a list gives. -/
lemma gives_mapM {f : α → Load β} {as : List α} (hf : ∀ a ∈ as, Gives (f a) Q) :
    Gives (as.mapM f) fun bs => ∀ b ∈ bs, Q b := by
  induction as with
  | nil => exact gives_pure fun _ h => absurd h List.not_mem_nil
  | cons a as ih =>
    rw [List.forall_mem_cons] at hf
    rw [List.mapM_cons]
    refine hf.1.bind fun b hb => (ih hf.2).bind fun bs hbs => gives_pure ?_
    exact List.forall_mem_cons.mpr ⟨hb, hbs⟩

end Load

/-- The format for an identifier is one of the formats. -/
lemma mem_of_formatFor_eq_ok {formats : List Format} {identifier : Text} {f : Format}
    (h : formatFor formats identifier = .ok f) : f ∈ formats := by
  unfold formatFor at h
  split at h
  · next f' hf =>
    cases h
    unfold formatFor? at hf
    dsimp only at hf
    split at hf
    · next f'' hfind =>
      cases hf
      exact List.mem_of_find?_eq_some hfind
    · exact List.mem_of_head? hf
  · cases h

/-! ## Declarations -/

/-- Every value under a key of a sheet is decoded. -/
def Entries.AreDecoded (sheet : Entries) : Prop := ∀ key : Text, (Entries.get sheet key).IsDecoded

/-- The nodes that a sheet declares are decoded. -/
lemma gives_nodesOf {sheet : Entries} (hsheet : sheet.AreDecoded) :
    (Load.ofExcept (nodesOf sheet)).Gives fun nodes => ∀ d ∈ nodes, d.IsDecoded :=
  Load.gives_ofExcept fun _ h => (hsheet "nodes").of_mem_givenElements h

namespace Loader

variable {l : Loader}

/-- What is read in a format is decoded. -/
lemma isDecoded_of_parse (hl : ∀ f ∈ l.formats, f.Decodes) {identifier text : Text} {d : Datum}
    (h : l.parse identifier text = .ok d) : d.IsDecoded := by
  obtain ⟨f, hf, hparse⟩ := Outcome.bind_eq_ok_iff.mp h
  exact hl f (mem_of_formatFor_eq_ok hf) text d hparse

/-- The values of a sheet are decoded. -/
lemma gives_decodeSheet (hl : ∀ f ∈ l.formats, f.Decodes) (identifier text : Text) :
    (Load.ofExcept (l.decodeSheet identifier text)).Gives Entries.AreDecoded := by
  refine Load.gives_ofExcept fun sheet h => ?_
  obtain ⟨d, hd, h⟩ := Outcome.bind_eq_ok_iff.mp h
  split at h
  · cases h
    exact fun key => Datum.isDecoded_of_isPart rfl
  · split at h
    · next entries hentries =>
      cases h
      exact (isDecoded_of_parse hl hd).get hentries
    · cases h

/-- The nodes that embedded sheets declare are decoded. -/
lemma gives_embedded (hl : ∀ f ∈ l.formats, f.Decodes) (depth : Nat) (trail : List Text)
    (sheet : Entries) :
    (l.embedded depth trail sheet).Gives fun parts => ∀ d ∈ parts.1, d.IsDecoded := by
  induction depth generalizing trail sheet with
  | zero =>
    rw [embedded_zero]
    exact Load.gives_throw _
  | succ depth ih =>
    rw [embedded_succ]
    refine (Load.gives_true _).bind fun identifiers _ => ?_
    refine (Load.gives_mapM (Q := fun part => ∀ d ∈ part.1, d.IsDecoded)
      fun identifier _ => ?_).bind fun parts hparts => Load.gives_pure ?_
    · unfold occurrence
      dsimp only
      split
      · exact (Load.gives_throw _).bind (P := fun _ => False) fun _ h => h.elim
      · refine (Load.gives_true _).bind fun text _ => ?_
        refine (gives_decodeSheet hl identifier text).bind fun inner hinner => ?_
        refine (gives_nodesOf hinner).bind fun nodes hnodes => ?_
        refine (Load.gives_true _).bind fun references _ => ?_
        refine (ih (trail ++ [identifier]) inner).bind fun parts hparts => Load.gives_pure ?_
        exact List.forall_mem_append.mpr ⟨hnodes, hparts⟩
    · intro d hd
      obtain ⟨part, hpart, hmem⟩ := List.mem_flatMap.mp hd
      exact hparts part hpart d hmem

/-- The nodes that a loaded document declares are decoded. -/
lemma gives_load (hl : ∀ f ∈ l.formats, f.Decodes) (text source : Text) :
    (l.load text source).Gives fun doc => ∀ d ∈ doc.nodes, d.IsDecoded := by
  rw [load_eq]
  refine (gives_decodeSheet hl source text).bind fun sheet hsheet => ?_
  refine (gives_nodesOf hsheet).bind fun nodes hnodes => ?_
  refine (Load.gives_true _).bind fun references _ => ?_
  refine (gives_embedded hl _ _ sheet).bind fun parts hparts => ?_
  refine (Load.gives_true _).bind fun tables _ => Load.gives_pure ?_
  exact List.forall_mem_append.mpr ⟨hnodes, hparts⟩

/-- With formats that make decoded values, the declarations of a loaded document are decoded. -/
theorem isDecoded_of_run (hl : ∀ f ∈ l.formats, f.Decodes) {text source : Text} {doc : Document}
    (h : (l.run text source).1 = .ok doc) : ∀ d ∈ doc.nodes, d.IsDecoded := by
  rw [run_eq] at h
  split at h
  · cases h
  · exact gives_load hl text source [] doc h

/-- The declarations of a loaded document that do not contain themselves have steady names. -/
theorem hasSteadyNames_of_run (hl : ∀ f ∈ l.formats, f.Decodes) {text source : Text}
    {doc : Document} (h : (l.run text source).1 = .ok doc) {d : Datum} (hd : d ∈ doc.nodes)
    (hknot : ∀ strands place, d ≠ .knot strands place) : d.HasSteadyNames :=
  Datum.hasSteadyNames_of_isFree (Datum.isFree_of_isClosed (isDecoded_of_run hl h d hd).isClosed)
    hknot

end Loader

end StockFlow
