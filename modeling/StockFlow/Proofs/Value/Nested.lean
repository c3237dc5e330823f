import StockFlow.Proofs.Output.Rows
/-!
# Nested passes

A graph in use is read and written out, its passes are opened and closed, and it is changed in between
(`Session`). However the readings and outputs end, a memo is open exactly while a pass is
(`memo_open_iff_pass_open`): an inner pass and an output inside a pass leave the memo to the outermost
pass, which drops it when it is closed. So nothing that was read or changed before shows in what is read
after all passes are closed.

The invariant is that of all open passes only the outermost one owns the memo (`Session.IsNested`).
-/

namespace StockFlow

/-! ## What a reading changes -/

/-- How a state follows another one in a reading: the plugins stay, calls are only added, and a memo
that is open stays open and forgets nothing, while none is opened where none is. -/
structure Reading.Follows (s' s : Reading) : Prop where
  table : s'.registry.table = s.registry.table
  memo : ∃ more : Memo, s'.memo? = s.memo?.map (more ++ ·)
  calls : ∃ more, s'.calls = more ++ s.calls

namespace Reading.Follows

variable {s s' s'' : Reading}

lemma refl (s : Reading) : s.Follows s := by
  refine ⟨rfl, ⟨[], ?_⟩, [], rfl⟩
  cases s.memo? <;> rfl

lemma trans (h' : s''.Follows s') (h : s'.Follows s) : s''.Follows s := by
  obtain ⟨memo, hmemo⟩ := h.memo
  obtain ⟨memo', hmemo'⟩ := h'.memo
  obtain ⟨calls, hcalls⟩ := h.calls
  obtain ⟨calls', hcalls'⟩ := h'.calls
  refine ⟨h'.table.trans h.table, ⟨memo' ++ memo, ?_⟩, calls' ++ calls, ?_⟩
  · rw [hmemo', hmemo, Option.map_map]
    congr 1
    funext old
    exact (List.append_assoc ..).symm
  · rw [hcalls', hcalls, List.append_assoc]

/-- Noting calls forgets no call. -/
lemma note (s : Reading) (more : List Call) :
    Reading.Follows { s with calls := more ++ s.calls } s :=
  ⟨rfl, (refl s).memo, more, rfl⟩

/-- Remembering a value forgets none. -/
lemma remember (s : Reading) (item : Item) (value : Datum) :
    Reading.Follows { s with memo? := s.memo?.map fun memo => (item, value) :: memo } s :=
  ⟨rfl, ⟨[(item, value)], rfl⟩, [], rfl⟩

/-- Counting a call keeps the plugins. -/
lemma count (s : Reading) (name : Text) :
    Reading.Follows { s with registry := s.registry.countCall name } s :=
  ⟨Registry.table_countCall _ _, (refl s).memo, [], rfl⟩

end Reading.Follows

namespace Read

variable {α β : Type}

/-- Whether a reading ends in a state that follows the one in which it starts, whatever that is and
whether or not the reading fails. -/
def Keeps (x : Read α) : Prop := ∀ s : Reading, (x.run.run s).2.Follows s

namespace Keeps

lemma pure (a : α) : Keeps (Pure.pure a : Read α) := .refl

lemma throw (failure : Failure) : Keeps (MonadExcept.throw failure : Read α) := .refl

lemma bind {x : Read α} {f : α → Read β} (hx : Keeps x) (hf : ∀ a, Keeps (f a)) :
    Keeps (x >>= f) := by
  intro s
  have hfirst := hx s
  rw [run_bind]
  rcases hrun : x.run.run s with ⟨failure | a, s'⟩
  · rw [hrun] at hfirst
    exact hfirst
  · rw [hrun] at hfirst
    exact (hf a s').trans hfirst

/-- That readings keep what they find is a judgement; computations without state do not matter to it. -/
def judgement : Judgement Unit where
  Holds _ x := Keeps x
  pure := pure
  throw := throw
  bind := bind

lemma ofExcept (e : Except Failure α) : Keeps (Read.ofExcept e) := by
  cases e with
  | error failure => exact throw failure
  | ok a => exact pure a

/-- A call of a plugin counts itself, and else changes what its readings change. -/
lemma callPlugin {read : Probe → Read Datum} (h : ∀ p, Keeps (read p)) (params : Entries) :
    Keeps (StockFlow.callPlugin read params) := by
  intro s
  rw [Between.run_callPlugin]
  cases s.registry.choose params with
  | error failure => exact .refl s
  | ok p =>
    obtain ⟨name, plugin, count⟩ := p
    refine .trans ?_ (.count s name)
    cases plugin with
    | script body =>
      exact judgement.script (k := fun _ _ => .error .wrongType) h (body params) _
    | cell answer => exact ofExcept (answer count params) _

/-- A call for a link is noted. -/
lemma callForLink {read : Probe → Read Datum} (h : ∀ p, Keeps (read p)) (id : LinkId)
    (params : Entries) : Keeps (StockFlow.callForLink id read params) := by
  intro s
  rw [Between.run_callForLink]
  exact .trans (.note _ _) (callPlugin h params s)

variable (net : Network)

/-- A step changes what its readings change. -/
lemma step {read : Item → Read Datum} (h : ∀ item, Keeps (read item)) (item : Item) :
    Keeps (net.step StockFlow.callForLink read item) := by
  have hstep : judgement.Holds
      (fun _ => net.step (fun _ _ _ => .error .wrongType) (fun _ => .error .wrongType) item)
      (net.step StockFlow.callForLink read item) :=
    Judgement.step (v := fun _ _ => .error .wrongType) net h item fun id _ params _ _ _ => callForLink
      (Judgement.probe (J := judgement) (v := fun _ _ => .error .wrongType) net h id) id params
  exact hstep

/-- A visit remembers what it computes, and else changes what the step changes. -/
lemma visit (depth : Nat) (item : Item) : Keeps (net.visit depth item) := by
  induction depth generalizing item with
  | zero => exact throw _
  | succ depth ih =>
    cases hresolver : net.itemResolver? item with
    | none =>
      rw [Network.visit, hresolver]
      exact throw _
    | some resolver =>
      intro s
      rw [Between.run_visit hresolver]
      split
      · exact .refl s
      · have hstep := step net ih item s
        split
        · next value s' hrun =>
          rw [hrun] at hstep
          exact .trans (.remember s' item value) hstep
        · next failure s' hrun =>
          rw [hrun] at hstep
          exact hstep

lemma query (q : Query) : Keeps (q.read net) := by
  obtain ⟨_, h⟩ := q.exists_holds (J := judgement) (v := fun _ _ => .error .wrongType)
    (visit net net.room)
  exact h

/-- A pass drops the memo only if it has opened it. -/
lemma inPass {x : Read α} (hx : Keeps x) : Keeps (Read.inPass x) := by
  intro s
  rw [run_inPass]
  split
  · exact hx s
  · next hnone =>
    have hpass := hx { s with memo? := some [] }
    exact ⟨hpass.table, ⟨[], by rw [hnone]; rfl⟩, hpass.calls⟩

/-- An output is read in a pass. -/
lemma output (g : Graph) (o : OutputSettings) (d : Document) : Keeps (g.output o d) :=
  inPass (Judgement.rows (J := judgement) (v := fun _ _ => .error .wrongType)
    (visit g.network _) g o d)

end Keeps

end Read

/-! ## Sessions -/

/-- What is done with a graph in use. -/
inductive Act where
  | openPass
  | closePass
  | ask (q : Query)
  | output (o : OutputSettings) (d : Document)
  | change (edit : Graph → Graph)

/-- A graph in use. -/
structure Session where
  live : LiveGraph
  registry : Registry
  /-- Whether the open passes own the memo, the innermost first. -/
  owned : List Bool := []
  /-- The calls made for links, the latest first. -/
  calls : List Call := []

/-- How many passes are open after an act, if so many were before. Where no pass is open, none can be
closed. -/
def Act.passes (n : ℕ) : Act → ℕ
  | .openPass => n + 1
  | .closePass => n - 1
  | _ => n

/-- The graph after an act. -/
def Act.changed (g : Graph) : Act → Graph
  | .change edit => edit g
  | _ => g

/-- How many passes are open after acts. -/
def Act.openPasses (acts : List Act) : ℕ := acts.foldl Act.passes 0

/-- Whether some pass is open before, between and after acts, if so many are before. -/
def Act.StayOpen : ℕ → List Act → Prop
  | n, [] => 0 < n
  | n, act :: rest => 0 < n ∧ StayOpen (act.passes n) rest

lemma Act.StayOpen.pos {n : ℕ} {acts : List Act} (h : StayOpen n acts) : 0 < n := by
  cases acts with
  | nil => exact h
  | cons => exact h.1

namespace Session

/-- The session of a graph that is not in use yet. -/
def start (g : Graph) (r : Registry) : Session where
  live := { graph := g }
  registry := r

/-- Runs a reading in a session. What was remembered, counted and called stays when it fails. -/
def read {α : Type} (s : Session) (x : Read α) : Except Failure α × Session :=
  let (outcome, s') := x.run.run ⟨s.live.memo?, s.registry, []⟩
  (outcome, { s with
    live := { s.live with memo? := s'.memo? }, registry := s'.registry, calls := s'.calls ++ s.calls })

/-- A session after an act. -/
def step (s : Session) : Act → Session
  | .openPass =>
    let (live, owns) := s.live.openPass
    { s with live, owned := owns :: s.owned }
  | .closePass =>
    match s.owned with
    | [] => s
    | owns :: outer => { s with live := s.live.closePass owns, owned := outer }
  | .ask q => (s.read (q.read s.live.graph.network)).2
  | .output o d => (s.read (s.live.graph.output o d)).2
  | .change edit => { s with live := { s.live with graph := edit s.live.graph } }

/-- A session after acts. -/
def run (s : Session) (acts : List Act) : Session := acts.foldl step s

variable {s : Session}

/-- What runs alike in the state of a session is the same reading in it. -/
lemma read_congr {α : Type} {x y : Read α}
    (h : x.run.run ⟨s.live.memo?, s.registry, []⟩ = y.run.run ⟨s.live.memo?, s.registry, []⟩) :
    s.read x = s.read y := by
  unfold read
  rw [h]

/-- A reading in a session forgets no value. -/
lemma memo?_read {α : Type} {x : Read α} (hx : Read.Keeps x) (s : Session) :
    ∃ more : Memo, (s.read x).2.live.memo? = s.live.memo?.map (more ++ ·) :=
  (hx ⟨s.live.memo?, s.registry, []⟩).memo

/-- An act keeps the plugins. -/
lemma table_step (s : Session) (act : Act) : (s.step act).registry.table = s.registry.table := by
  cases act with
  | openPass => rfl
  | closePass =>
    unfold step
    dsimp only
    split <;> rfl
  | ask q => exact (Read.Keeps.query _ q _).table
  | output o d => exact (Read.Keeps.output _ o d _).table
  | change edit => rfl

/-- Only changes change the graph. -/
lemma graph_step (s : Session) (act : Act) : (s.step act).live.graph = act.changed s.live.graph := by
  cases act with
  | openPass =>
    change s.live.openPass.1.graph = _
    unfold LiveGraph.openPass
    split <;> rfl
  | closePass =>
    unfold step
    dsimp only
    split
    · rfl
    · unfold LiveGraph.closePass
      dsimp only
      split <;> rfl
  | ask q => rfl
  | output o d => rfl
  | change edit => rfl

lemma run_cons (s : Session) (act : Act) (acts : List Act) : s.run (act :: acts) = (s.step act).run acts :=
  rfl

lemma table_run (acts : List Act) (s : Session) : (s.run acts).registry.table = s.registry.table := by
  induction acts generalizing s with
  | nil => rfl
  | cons act acts ih => rw [run_cons, ih, table_step]

lemma graph_run (acts : List Act) (s : Session) :
    (s.run acts).live.graph = acts.foldl Act.changed s.live.graph := by
  induction acts generalizing s with
  | nil => rfl
  | cons act acts ih => rw [run_cons, ih, graph_step, List.foldl_cons]

/-! ## The owner of the memo -/

/-- Whether a session has so many open passes, of which only the outermost owns the memo. -/
def IsNested (s : Session) : ℕ → Prop
  | 0 => s.live.memo? = none ∧ s.owned = []
  | n + 1 => s.live.memo?.isSome ∧ s.owned = List.replicate n false ++ [true]

variable {n : ℕ}

lemma IsNested.isSome_iff (h : s.IsNested n) : s.live.memo?.isSome ↔ 0 < n := by
  cases n with
  | zero => simp [h.1]
  | succ n => simp [h.1]

/-- A reading neither opens a memo nor drops one. -/
lemma IsNested.read {α : Type} {x : Read α} (hx : Read.Keeps x) (h : s.IsNested n) :
    (s.read x).2.IsNested n := by
  obtain ⟨more, hmemo⟩ := memo?_read hx s
  cases n with
  | zero =>
    refine ⟨?_, h.2⟩
    rw [hmemo, h.1]
    rfl
  | succ n =>
    refine ⟨?_, h.2⟩
    rw [hmemo, Option.isSome_map]
    exact h.1

/-- A pass that is opened inside another one does not own the memo. -/
lemma step_openPass_of_isSome (h : s.live.memo?.isSome) :
    s.step .openPass = { s with owned := false :: s.owned } := by
  obtain ⟨memo, hmemo⟩ := Option.isSome_iff_exists.mp h
  unfold step LiveGraph.openPass
  rw [hmemo]

/-- After every act the outermost of the open passes, and no other one, owns the memo. -/
lemma IsNested.step (h : s.IsNested n) (act : Act) : (s.step act).IsNested (act.passes n) := by
  cases act with
  | openPass =>
    cases n with
    | zero =>
      obtain ⟨hmemo, howned⟩ := h
      unfold Session.step LiveGraph.openPass
      rw [hmemo, howned]
      exact ⟨rfl, rfl⟩
    | succ n =>
      obtain ⟨hmemo, howned⟩ := h
      rw [step_openPass_of_isSome hmemo]
      exact ⟨hmemo, congrArg (List.cons false) howned⟩
  | closePass =>
    rcases n with - | - | n
    · rw [Session.step, h.2]
      exact h
    · rw [Session.step, h.2]
      exact ⟨rfl, rfl⟩
    · rw [Session.step, h.2]
      exact ⟨h.1, rfl⟩
  | ask q => exact h.read (Read.Keeps.query _ q)
  | output o d => exact h.read (Read.Keeps.output _ o d)
  | change edit => cases n <;> exact h

lemma IsNested.run (h : s.IsNested n) (acts : List Act) :
    (s.run acts).IsNested (acts.foldl Act.passes n) := by
  induction acts generalizing s n with
  | nil => exact h
  | cons act acts ih => exact ih (h.step act)

/-- While passes stay open, no act forgets a value, and opening or closing one changes nothing. -/
lemma IsNested.exists_memo?_step (h : s.IsNested n) (act : Act) (hopen : 0 < n)
    (hstill : 0 < act.passes n) :
    (∃ more : Memo, (s.step act).live.memo? = s.live.memo?.map (more ++ ·)) ∧
      (act = .openPass ∨ act = .closePass → (s.step act).live = s.live) := by
  have hsame : s.live.memo? = s.live.memo?.map (([] : Memo) ++ ·) := by
    cases s.live.memo? <;> rfl
  cases act with
  | openPass =>
    rw [step_openPass_of_isSome (h.isSome_iff.mpr hopen)]
    exact ⟨⟨[], hsame⟩, fun _ => rfl⟩
  | closePass =>
    obtain ⟨n, rfl⟩ : ∃ k, n = k + 2 := ⟨n - 2, by simp only [Act.passes] at hstill; omega⟩
    have hlive : (s.step .closePass).live = s.live := by
      rw [Session.step, h.2]
      rfl
    rw [hlive]
    exact ⟨⟨[], hsame⟩, fun _ => rfl⟩
  | ask q => exact ⟨memo?_read (Read.Keeps.query _ q) s, by simp⟩
  | output o d => exact ⟨memo?_read (Read.Keeps.output _ o d) s, by simp⟩
  | change edit => exact ⟨⟨[], hsame⟩, by simp⟩

/-- While passes stay open, nothing is forgotten. -/
lemma IsNested.exists_memo?_run (h : s.IsNested n) {acts : List Act} (hopen : Act.StayOpen n acts) :
    ∃ more : Memo, (s.run acts).live.memo? = s.live.memo?.map (more ++ ·) := by
  induction acts generalizing s n with
  | nil =>
    refine ⟨[], ?_⟩
    change s.live.memo? = _
    cases s.live.memo? <;> rfl
  | cons act acts ih =>
    obtain ⟨hnow, hlater⟩ := hopen
    obtain ⟨⟨more, hmore⟩, -⟩ := h.exists_memo?_step act hnow hlater.pos
    obtain ⟨more', hmore'⟩ := ih (h.step act) hlater
    refine ⟨more' ++ more, ?_⟩
    rw [run_cons, hmore', hmore, Option.map_map]
    congr 1
    funext memo
    exact (List.append_assoc ..).symm

/-! ## Passes and the memo -/

/-- **The memo lives as long as the outermost pass.** Whatever is done with a graph, and however its
readings and outputs end, a memo is open exactly if a pass is: so none is left when the outermost pass is
closed, nor by an output outside any pass. While passes stay open, the memo forgets nothing, and opening
or closing an inner one leaves it as it is. With pure plugins, what is read while no pass is open is what
the graph, as it has been changed, answers when nothing has been read before. -/
theorem memo_open_iff_pass_open (g : Graph) (r : Registry) (acts : List Act) :
    let s := (start g r).run acts
    (s.live.memo?.isSome ↔ 0 < Act.openPasses acts) ∧
    (∀ more, Act.StayOpen (Act.openPasses acts) more → ∃ memo found : Memo,
      s.live.memo? = some memo ∧ (s.run more).live.memo? = some (found ++ memo)) ∧
    (∀ act, act = .openPass ∨ act = .closePass → Act.StayOpen (Act.openPasses acts) [act] →
      (s.step act).live = s.live) ∧
    (r.IsPure → Act.openPasses acts = 0 → ∀ q : Query,
      let now := acts.foldl Act.changed g
      s.live.graph = now ∧ (s.read (q.read now.network)).1 = q.answer now.network r ∧
        q.answer now.network r = (Read.runFresh (q.read now.network) r).1) := by
  intro s
  have hnested : s.IsNested (Act.openPasses acts) :=
    IsNested.run (n := 0) ⟨rfl, rfl⟩ acts
  refine ⟨hnested.isSome_iff, fun more hmore => ?_, fun act hact hmore => ?_, fun hr hclosed q => ?_⟩
  · obtain ⟨memo, hmemo⟩ := Option.isSome_iff_exists.mp (hnested.isSome_iff.mpr hmore.pos)
    obtain ⟨found, hfound⟩ := hnested.exists_memo?_run hmore
    exact ⟨memo, found, hmemo, by rw [hfound, hmemo, Option.map_some]⟩
  · exact (hnested.exists_memo?_step act hmore.1 hmore.2).2 hact
  · intro now
    have hnone : s.live.memo? = none := by
      rw [hclosed] at hnested
      exact hnested.1
    have htable : s.registry.table = r.table := table_run acts (start g r)
    obtain ⟨-, hlow, hhigh⟩ := q.between_read hr now.hasItems ⟨s.live.memo?, s.registry, []⟩
      (Reading.isSound_of_memo?_eq_none htable hnone)
    refine ⟨graph_run acts (start g r), (hlow.antisymm hhigh).symm, ?_⟩
    exact (Read.Between.runFresh (q.between_read hr now.hasItems)).symm

/-- Gives the stock `S` of a graph another value. -/
def refill (value : Datum) (g : Graph) : Graph :=
  { g with nodes := g.nodes.map fun n => if n.name = Text.ofString "S" then { n with value } else n }

/-- Acts up to the inside of an inner pass, where the value that was read before the first change is
still remembered. -/
def fillingActs : List Act :=
  [.ask (.link ⟨"S", 0⟩), .openPass, .ask (.link ⟨"S", 0⟩), .change (refill (.int 20)), .openPass]

/-- Acts in the inner pass and behind it, some of which fail. -/
def innerActs : List Act := [.ask (.node "A"), .output {} {}, .closePass, .ask (.link ⟨"S", 1⟩)]

/-- Acts that close the outermost pass and write the graph, which fails, and change it again. -/
def closingActs : List Act := [.closePass, .output {} {}, .change (refill (.int 30))]

/-- The memo stays open in the inner acts, and the closing acts leave none, so that the last value is
read. -/
theorem memo_open_iff_pass_open_forkedGraph :
    let inner := (start forkedGraph shareRegistry).run fillingActs
    let last := (start forkedGraph shareRegistry).run (fillingActs ++ innerActs ++ closingActs)
    Act.openPasses fillingActs = 2 ∧ Act.StayOpen 2 innerActs ∧
      (∃ memo found : Memo, inner.live.memo? = some memo ∧
        (inner.run innerActs).live.memo? = some (found ++ memo)) ∧
      (inner.step .closePass).live = inner.live ∧
      shareRegistry.IsPure ∧ Act.openPasses (fillingActs ++ innerActs ++ closingActs) = 0 ∧
      ¬last.live.memo?.isSome ∧
      (last.read ((Query.link ⟨"S", 0⟩).read last.live.graph.network)).1 = .ok (.int (-60)) := by
  have hstay : Act.StayOpen 2 innerActs := by
    simp [innerActs, Act.StayOpen, Act.passes]
  obtain ⟨-, hinner, hclose, -⟩ :=
    memo_open_iff_pass_open forkedGraph shareRegistry fillingActs
  obtain ⟨hlast, -, -, hfresh⟩ :=
    memo_open_iff_pass_open forkedGraph shareRegistry (fillingActs ++ innerActs ++ closingActs)
  obtain ⟨hgraph, hread, hanswer⟩ := hfresh isPure_shareRegistry rfl (.link ⟨"S", 0⟩)
  refine ⟨rfl, hstay, hinner innerActs hstay, hclose .closePass (Or.inr rfl) ?_,
    isPure_shareRegistry, rfl, fun hsome => ?_, ?_⟩
  · exact ⟨Nat.two_pos, Nat.one_pos⟩
  · exact absurd (hlast.mp hsome) (by decide)
  · rw [hgraph, hread, hanswer]
    rfl

end Session

end StockFlow
