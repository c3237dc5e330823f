import StockFlow.Proofs.Value.Passes
import StockFlow.Proofs.Value.Replay
/-!
# Readings at any time

A graph may be read outside any pass, or inside a pass in which any questions have been asked before, on
a stack with any room (`Graph.YieldsOn`). What every question keeps of the memo and of the registry holds
at the time of the reading (`Graph.YieldsOn.exists_state`). So with pure plugins a reading stays at any
time within the bounds that it has (`Graph.YieldsOn.between`): it finds no less than the stack has room for,
and nothing else than what there is to be found.

Where there is room for all values (`Graph.Yields`), these bounds meet, and a reading has the same outcome
at any time (`Graph.Yields.eq`). Whatever the plugins answer, the memo of a pass is steady at any time
(`Graph.Yields.exists_isSteady`).
-/

namespace StockFlow

/-- A live graph and its registry after questions that are asked one after the other on a stack with a
given room, whether or not they can be answered. -/
def LiveGraph.ask (l : LiveGraph) (room : ℕ) (r : Registry) : List Query → LiveGraph × Registry
  | [] => (l, r)
  | q :: rest =>
    let (_, l', r') := l.run r (q.read (l.graph.networkOn room))
    l'.ask room r' rest

namespace Graph

variable {α : Type} {g : Graph} {room : ℕ} {r : Registry} {x : Read α} {outcome : Except Failure α}

/-- Whether a reading of a graph has an outcome at some time: outside any pass, or inside a pass in
which some questions have been asked before on a stack with a given room. -/
def YieldsOn (g : Graph) (room : ℕ) (r : Registry) (x : Read α) (outcome : Except Failure α) : Prop :=
  (Read.runFresh x r).1 = outcome ∨ ∃ queries : List Query,
    let (l, r') := (LiveGraph.openPass { graph := g }).1.ask room r queries
    (l.run r' x).1 = outcome

/-- Whether a reading of a graph has an outcome at some time, where there is room for all its values. -/
def Yields (g : Graph) (r : Registry) (x : Read α) (outcome : Except Failure α) : Prop :=
  g.YieldsOn (g.valueCount + 1) r x outcome

/-- What every question keeps holds after all of them. -/
lemma ask_keeps {I : Option Memo → Registry → Prop}
    (hkeep : ∀ (q : Query) memo? r', I memo? r' →
      I ((q.read (g.networkOn room)).run.run ⟨memo?, r', []⟩).2.memo?
        ((q.read (g.networkOn room)).run.run ⟨memo?, r', []⟩).2.registry)
    (queries : List Query) {memo? : Option Memo} (h : I memo? r) :
    ∃ memo?' r', LiveGraph.ask ⟨g, memo?⟩ room r queries = (⟨g, memo?'⟩, r') ∧ I memo?' r' := by
  induction queries generalizing memo? r with
  | nil => exact ⟨memo?, r, rfl, h⟩
  | cons q rest ih => exact ih (hkeep q memo? r h)

/-- A reading starts outside any pass, or from what all questions asked before have kept. -/
lemma YieldsOn.exists_state (h : g.YieldsOn room r x outcome) {I : Option Memo → Registry → Prop}
    (hopen : I (some []) r)
    (hkeep : ∀ (q : Query) memo? r', I memo? r' →
      I ((q.read (g.networkOn room)).run.run ⟨memo?, r', []⟩).2.memo?
        ((q.read (g.networkOn room)).run.run ⟨memo?, r', []⟩).2.registry) :
    (x.run.run ⟨none, r, []⟩).1 = outcome ∨
      ∃ memo? r', I memo? r' ∧ (x.run.run ⟨memo?, r', []⟩).1 = outcome := by
  rcases h with h | ⟨queries, h⟩
  · exact Or.inl h
  · obtain ⟨memo?, r', hask, hI⟩ := ask_keeps hkeep queries hopen
    change (match LiveGraph.ask ⟨g, some []⟩ room r queries with
      | (l, r') => (l.run r' x).1 = outcome) at h
    rw [hask] at h
    exact Or.inr ⟨memo?, r', hI, h⟩

/-- If the plugins that links ask for are pure, then a reading keeps to its bounds at any time. -/
lemma YieldsOn.between (hr : r.IsPureFor g.network) {low high : Except Failure α}
    (hx : Read.Between r (g.network.settled r) low high x) (h : g.YieldsOn room r x outcome) :
    Approximates low outcome ∧ Approximates outcome high := by
  have hempty : Reading.IsSound ⟨some [], r, []⟩ r (g.network.settled r) := by
    refine ⟨rfl, fun memo hmemo item value hlookup => ?_⟩
    cases hmemo
    simp at hlookup
  have hkeep : ∀ (q : Query) memo? r',
      Reading.IsSound ⟨memo?, r', []⟩ r (g.network.settled r) →
      Reading.IsSound ⟨((q.read (g.networkOn room)).run.run ⟨memo?, r', []⟩).2.memo?,
        ((q.read (g.networkOn room)).run.run ⟨memo?, r', []⟩).2.registry, []⟩ r
          (g.network.settled r) := by
    intro q memo? r' hs
    obtain ⟨hs', -, -⟩ := q.between_networkOn hr room _ hs
    exact ⟨hs'.table, hs'.memo⟩
  rcases h.exists_state hempty hkeep with h | ⟨memo?, r', hs, h⟩
  · obtain ⟨-, hbounds⟩ := hx ⟨none, r, []⟩ (Reading.isSound_of_memo?_eq_none rfl rfl)
    rw [h] at hbounds
    exact hbounds
  · obtain ⟨-, hbounds⟩ := hx ⟨memo?, r', []⟩ hs
    rw [h] at hbounds
    exact hbounds

/-- If the plugins that links ask for are pure, then an item has at any time no less of a value than there
is room for, and no other value than the settled one. -/
lemma YieldsOn.between_item (hr : r.IsPureFor g.network) {item : Item} {answer : Except Failure Datum}
    (h : g.YieldsOn room r ((g.networkOn room).read item) answer) :
    Approximates ((g.networkOn room).settled r item) answer ∧
      Approximates answer (g.network.settled r item) :=
  h.between hr (Read.Between.read_networkOn hr room item)

/-- If the plugins that links ask for are pure, then a reading with exact bounds has the same outcome
at any time. -/
lemma Yields.eq (hr : r.IsPureFor g.network) {e : Except Failure α}
    (hx : Read.Between r (g.network.settled r) e e x) (h : g.Yields r x outcome) :
    outcome = e := by
  obtain ⟨hlow, hhigh⟩ := YieldsOn.between hr hx h
  exact hhigh.antisymm hlow

/-- If the plugins that links ask for are pure, then an item has its settled value at any time. -/
lemma yields_item_iff (hr : r.IsPureFor g.network) (item : Item) {answer : Except Failure Datum} :
    g.Yields r (g.network.read item) answer ↔ answer = g.network.settled r item := by
  have hread := Read.Between.read hr g.hasItems item
  constructor
  · exact Yields.eq hr hread
  · rintro rfl
    exact Or.inl hread.runFresh

/-- If the plugins are pure, then a question has one answer at any time. -/
lemma yields_read_iff (hr : r.IsPure) (q : Query) {answer : Except Failure Datum} :
    g.Yields r (q.read g.network) answer ↔ answer = q.answer g.network r := by
  constructor
  · exact Yields.eq (hr.isPureFor g.network) (q.between_read hr g.hasItems)
  · rintro rfl
    exact Or.inl (q.between_read hr g.hasItems).runFresh

/-- The whole number that an outcome is. -/
def wholeOutcome? : Except Failure Datum → Option ℤ
  | .ok (.int n) => some n
  | _ => none

/-- An outcome that is a whole number. -/
lemma eq_ok_int_of_wholeOutcome? {outcome : Except Failure Datum} {n : ℤ}
    (h : wholeOutcome? outcome = some n) : outcome = .ok (.int n) := by
  unfold wholeOutcome? at h
  split at h
  · exact congrArg (fun n => Except.ok (Datum.int n)) (Option.some.inj h)
  · cases h

/-- The whole number that an item has when it is read by itself on a stack with a given room. -/
def wholeValue? (g : Graph) (room : ℕ) (r : Registry) (item : Item) : Option ℤ :=
  wholeOutcome? (Read.runFresh ((g.networkOn room).read item) r).1

/-- A whole number that an item has by itself is one that it has at some time. -/
lemma yieldsOn_of_wholeValue? {item : Item} {n : ℤ} (h : g.wholeValue? room r item = some n) :
    g.YieldsOn room r ((g.networkOn room).read item) (.ok (.int n)) :=
  Or.inl (eq_ok_int_of_wholeOutcome? h)

end Graph

/-! ## Steady memos at any time -/

namespace Graph

variable {α : Type} {g : Graph} {r : Registry} {x : Read α} {outcome : Except Failure α}

/-- A reading starts outside any pass, or from a state with a steady memo. -/
lemma Yields.exists_isSteady (h : g.Yields r x outcome) :
    (x.run.run ⟨none, r, []⟩).1 = outcome ∨ ∃ (s : Reading) (memo : Memo),
      s.IsSteady g.network r memo ∧ (x.run.run s).1 = outcome := by
  have hopen : Reading.IsSteady ⟨some [], r, []⟩ g.network r [] := ⟨rfl, rfl, Memo.isSteady_nil⟩
  have hkeep : ∀ (q : Query) memo? r',
      (∃ memo, Reading.IsSteady ⟨memo?, r', []⟩ g.network r memo) →
      ∃ memo, Reading.IsSteady ⟨((q.read g.network).run.run ⟨memo?, r', []⟩).2.memo?,
        ((q.read g.network).run.run ⟨memo?, r', []⟩).2.registry, []⟩ g.network r memo := by
    rintro q memo? r' ⟨memo, hs⟩
    obtain ⟨e, hq⟩ := q.exists_holds (J := Read.Replays.judgement g.network r)
      (v := fun memo => memo.held) Read.Replays.read
    obtain ⟨memo', hs', -⟩ := hq _ memo hs
    exact ⟨memo', hs'.table, hs'.memo_eq, hs'.steady⟩
  refine (YieldsOn.exists_state h ⟨[], hopen⟩ hkeep).imp_right ?_
  rintro ⟨memo?, r', ⟨memo, hs⟩, h⟩
  exact ⟨_, memo, hs, h⟩

/-- What is read in a pass of a graph is what its computation gives by the memo of the pass. -/
lemma Yields.exists_memo {e : Memo → Except Failure α} {a : α}
    (hx : Read.Replays g.network r e x) (h : g.Yields r (Read.inPass x) (.ok a)) :
    ∃ memo : Memo, memo.IsSteady g.network r ∧ e memo = .ok a := by
  -- a pass that is opened for the reading starts like one that is open and holds nothing
  have hstart : ∃ (s : Reading) (memo : Memo), s.IsSteady g.network r memo ∧
      (x.run.run s).1 = .ok a := by
    rcases h.exists_isSteady with h | ⟨s, memo, hs, h⟩
    · rw [Read.run_inPass] at h
      exact ⟨_, [], ⟨rfl, rfl, Memo.isSteady_nil⟩, h⟩
    · rw [Read.run_inPass, hs.memo_eq] at h
      exact ⟨s, memo, hs, h⟩
  obtain ⟨s, memo, hs, hran⟩ := hstart
  obtain ⟨memo', hs', -, hgives⟩ := hx s memo hs
  exact ⟨memo', hs'.steady, hgives a hran memo' (.refl memo')⟩

end Graph

end StockFlow
