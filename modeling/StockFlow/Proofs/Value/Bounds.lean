import Mathlib.Logic.Basic
import StockFlow.Value.Live
/-!
# Outcomes between bounds

A reading is cut short when it goes too deep, so what a bounded computation finds out is either the
outcome of the unbounded one or the failure that stands for too deep a chain. That failure is thus
the least outcome of a flat order, `Approximates`. A reading lies *between* two outcomes, with
respect to a registry and to the values that a memo may hold, if from every state that agrees with
both it ends in such a state again, with an outcome between the two.

The rules of this file say that all ways to put readings together keep the bounds. They are what
lets one walk through the definition of a step serve for a reading without a memo, for one with a
memo, and for the values themselves.
-/

namespace StockFlow

/-! ## The order of outcomes -/

/-- An outcome that goes too deep says nothing about the one that it approximates; every other one
is that one. -/
def Approximates {α : Type} (a b : Except Failure α) : Prop :=
  a = .error .tooDeep ∨ a = b

namespace Approximates

variable {α β : Type} {a b c : Except Failure α}

lemma refl (a : Except Failure α) : Approximates a a := Or.inr rfl

lemma bot (a : Except Failure α) : Approximates (.error .tooDeep) a := Or.inl rfl

lemma trans (hab : Approximates a b) (hbc : Approximates b c) : Approximates a c := by
  rcases hab with rfl | rfl
  · exact bot c
  · exact hbc

/-- Outcomes that approximate each other are the same. -/
lemma antisymm (hab : Approximates a b) (hba : Approximates b a) : a = b := by
  rcases hab with rfl | rfl
  · rcases hba with rfl | rfl <;> rfl
  · rfl

/-- A value is approximated by nothing else than itself and the least outcome. -/
lemma eq_of_ok {x : α} (h : Approximates (.ok x) b) : b = .ok x := by
  rcases h with h | rfl
  · cases h
  · rfl

/-- An outcome above one that does not go too deep is the same outcome. -/
lemma eq_of_ne (h : Approximates a b) (ha : a ≠ .error .tooDeep) : a = b :=
  h.resolve_left ha

/-- Nothing but going too deep approximates going too deep. -/
lemma eq_tooDeep (h : Approximates a (.error .tooDeep)) : a = .error .tooDeep :=
  h.elim id id

/-- Renaming failures keeps the order if too deep stays too deep. -/
lemma mapError {f : Failure → Failure} (hf : f .tooDeep = .tooDeep) (h : Approximates a b) :
    Approximates (a.mapError f) (b.mapError f) := by
  rcases h with rfl | rfl
  · exact Or.inl (congrArg Except.error hf)
  · exact refl _

end Approximates

/-! ## Registries as tables -/

namespace Registry

/-- What a registry knows apart from its counts of calls. -/
def table (r : Registry) : List (Text × Plugin) := r.plugins.map fun p => (p.name, p.plugin)

/-- Counting a call changes nothing but the counts. -/
lemma table_countCall (r : Registry) (name : Text) : (r.countCall name).table = r.table := by
  unfold table countCall
  rw [List.map_map]
  refine List.map_congr_left fun p _ => ?_
  simp only [Function.comp_apply]
  split <;> rfl

/-- The table decides which plugin has a name. -/
lemma map_find? (r : Registry) (name : Text) :
    (r.find? name).map (fun p => (p.name, p.plugin)) = r.table.find? fun e => e.1 == name := by
  unfold table find?
  rw [List.find?_map]
  rfl

/-- The table decides which plugin parameters choose, and how the choice fails. -/
lemma choose_of_table_eq {r r' : Registry} (h : r.table = r'.table) (params : Entries) :
    (r.choose params).map (fun p => (p.name, p.plugin)) =
      (r'.choose params).map fun p => (p.name, p.plugin) := by
  unfold choose
  split
  · next name _ =>
    have hfind : (r.find? name).map (fun p => (p.name, p.plugin)) =
        (r'.find? name).map fun p => (p.name, p.plugin) := by
      rw [map_find?, map_find?, h]
    split
    · rfl
    · cases hr : r.find? name <;> cases hr' : r'.find? name <;> simp_all [Except.map]
  · rfl

end Registry

/-! ## Sound states -/

/-- Whether everything that a memo holds is what an item is worth. -/
def Memo.IsSound (memo : Memo) (truth : Item → Except Failure Datum) : Prop :=
  ∀ item value, memo.lookup item = some value → truth item = .ok value

/-- A state whose registry has the plugins of a given one and whose memo, if one is open, holds
nothing but what items are worth. -/
structure Reading.IsSound (s : Reading) (r : Registry) (truth : Item → Except Failure Datum) :
    Prop where
  table : s.registry.table = r.table
  memo : ∀ memo, s.memo? = some memo → Memo.IsSound memo truth

/-- Without a memo there is nothing to be wrong. -/
lemma Reading.isSound_of_memo?_eq_none {s : Reading} {r : Registry}
    {truth : Item → Except Failure Datum} (htable : s.registry.table = r.table)
    (hmemo : s.memo? = none) : s.IsSound r truth where
  table := htable
  memo := by simp [hmemo]

/-! ## Bounds -/

namespace Read

/-- From every sound state a reading ends in a sound state, with an outcome between two others. -/
def Between {α : Type} (r : Registry) (truth : Item → Except Failure Datum)
    (low high : Except Failure α) (x : Read α) : Prop :=
  ∀ s : Reading, s.IsSound r truth →
    (x.run.run s).2.IsSound r truth ∧ Approximates low (x.run.run s).1 ∧
      Approximates (x.run.run s).1 high

variable {α β : Type} {r : Registry} {truth : Item → Except Failure Datum}

/-- What a reading does in two parts: the second part starts where the first one has ended, unless
that has failed. -/
lemma run_bind (x : Read α) (f : α → Read β) (s : Reading) :
    (x >>= f).run.run s =
      match x.run.run s with
      | (.ok a, s') => (f a).run.run s'
      | (.error failure, s') => (.error failure, s') := by
  rw [ExceptT.run_bind, StateT.run_bind]
  rcases x.run.run s with ⟨failure | a, s'⟩ <;> rfl

/-- Noting an outcome as a value keeps the state. -/
lemma run_attempt (x : Read α) (s : Reading) :
    (attempt x).run.run s = (.ok (x.run.run s).1, (x.run.run s).2) := rfl

/-- An outcome that needs no reading leaves the state. -/
lemma run_ofExcept (e : Except Failure α) (s : Reading) : (ofExcept e).run.run s = (e, s) := by
  cases e <;> rfl

/-- Changing the state gives nothing else. -/
lemma run_modify (change : Reading → Reading) (s : Reading) :
    (modify change : Read Unit).run.run s = (.ok (), change s) := rfl

/-- A pass uses the memo that is open, or one that is closed behind it. -/
lemma run_inPass (x : Read α) (s : Reading) :
    (inPass x).run.run s =
      match s.memo? with
      | some _ => x.run.run s
      | none =>
        ((x.run.run { s with memo? := some [] }).1,
          { (x.run.run { s with memo? := some [] }).2 with memo? := none }) := by
  obtain ⟨memo?, registry, calls⟩ := s
  cases memo? with
  | some memo => rfl
  | none =>
    change (ofExcept (x.run.run ⟨some [], registry, calls⟩).1 : Read α).run.run
      { (x.run.run ⟨some [], registry, calls⟩).2 with memo? := none } = _
    rcases x.run.run ⟨some [], registry, calls⟩ with ⟨failure | a, s'⟩ <;> rfl

namespace Between

variable {low high : Except Failure α} {x : Read α}

lemma pure (a : α) : Between r truth (.ok a) (.ok a) (Pure.pure a) :=
  fun _ hs => ⟨hs, .refl _, .refl _⟩

lemma throw (failure : Failure) :
    Between r truth (.error failure : Except Failure α) (.error failure) (throw failure) :=
  fun _ hs => ⟨hs, .refl _, .refl _⟩

lemma ofExcept (e : Except Failure α) : Between r truth e e (Read.ofExcept e) := by
  cases e with
  | error failure => exact throw failure
  | ok a => exact pure a

/-- Bounds may be widened. -/
lemma mono {low' high' : Except Failure α} (h : Between r truth low high x)
    (hlow : Approximates low' low) (hhigh : Approximates high high') :
    Between r truth low' high' x := by
  intro s hs
  obtain ⟨hs', hl, hh⟩ := h s hs
  exact ⟨hs', hlow.trans hl, hh.trans hhigh⟩

/-- The bounds of a reading in two parts. -/
lemma bind {flow fhigh : α → Except Failure β} {f : α → Read β}
    (hx : Between r truth low high x) (hf : ∀ a, Between r truth (flow a) (fhigh a) (f a)) :
    Between r truth (low >>= flow) (high >>= fhigh) (x >>= f) := by
  intro s hs
  obtain ⟨hs', hl, hh⟩ := hx s hs
  rw [run_bind]
  rcases hrun : x.run.run s with ⟨failure | a, s'⟩
  · rw [hrun] at hs' hl hh
    refine ⟨hs', ?_, ?_⟩
    · rcases hl with rfl | rfl
      · exact .bot _
      · exact .refl _
    · rcases hh with hbot | rfl
      · cases hbot
        exact .bot _
      · exact .refl _
  · rw [hrun] at hs' hl hh
    obtain ⟨hs'', hl', hh'⟩ := hf a s' hs'
    refine ⟨hs'', ?_, ?_⟩
    · rcases hl with rfl | rfl
      · exact .bot _
      · exact hl'
    · rw [hh.eq_of_ok]
      exact hh'

/-- The bounds of a reading whose value is converted. -/
lemma map (f : α → β) (hx : Between r truth low high x) :
    Between r truth (do return f (← low)) (do return f (← high)) (do return f (← x)) :=
  hx.bind fun a => pure (f a)

/-- The bounds of a loop that collects values. -/
lemma mapM {flow fhigh : α → Except Failure β} {f : α → Read β} (as : List α)
    (hf : ∀ a ∈ as, Between r truth (flow a) (fhigh a) (f a)) :
    Between r truth (as.mapM flow) (as.mapM fhigh) (as.mapM f) := by
  induction as with
  | nil => exact pure []
  | cons a as ih =>
    rw [List.mapM_cons, List.mapM_cons, List.mapM_cons]
    refine (hf a List.mem_cons_self).bind fun b => ?_
    exact (ih fun a' ha' => hf a' (List.mem_cons_of_mem a ha')).map (b :: ·)

/-- A reading with exact bounds, tried. -/
lemma attempt {e : Except Failure α} (hx : Between r truth e e x) :
    Between r truth (.ok e) (.ok e) (Read.attempt x) := by
  intro s hs
  obtain ⟨hs', hl, hh⟩ := hx s hs
  rw [run_attempt, hl.antisymm hh]
  exact ⟨hs', .refl _, .refl _⟩

/-- A pass keeps the bounds of what is read in it. -/
lemma inPass (hx : Between r truth low high x) : Between r truth low high (Read.inPass x) := by
  intro s hs
  rw [run_inPass]
  split
  · exact hx s hs
  · have hopen : Reading.IsSound { s with memo? := some [] } r truth := by
      refine ⟨hs.table, fun memo hmemo item value hlookup => ?_⟩
      cases hmemo
      simp at hlookup
    obtain ⟨hs', hl, hh⟩ := hx _ hopen
    exact ⟨Reading.isSound_of_memo?_eq_none hs'.table rfl, hl, hh⟩

end Between

end Read

end StockFlow
