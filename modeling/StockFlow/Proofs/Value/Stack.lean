import StockFlow.Proofs.Value.Settled
/-!
# Readings on a stack

A reading needs the room of one value on the stack for every value that waits for the next one. How much
room there is matters in one way only: where it is used up, a reading goes too deep. So on any stack an
item is worth what it is worth to the depth for which there is room (`Graph.settled_networkOn`), and on a
stack with room for more values than the graph has it is worth what it is worth at all
(`Graph.settled_networkOn_of_lt`).

Without a memo every value is computed anew, so a reading finds exactly what the stack has room for
(`Read.Alone.read`). With a memo it may find more, since what has been remembered takes no further room;
but what it finds is what the item is worth (`Read.Between.read_networkOn`).
-/

namespace StockFlow

/-! ## One graph on several stacks -/

namespace Graph

section Steps

variable {m : Type → Type} [Monad m] [MonadExceptOf Failure m] (g : Graph) (room room' : ℕ)

/-- The places that are seen from a link do not depend on the stack. -/
lemma nodeAt?_networkOn (id : LinkId) (place : Place) :
    (g.networkOn room).nodeAt? id place = (g.networkOn room').nodeAt? id place := by
  induction place with
  | source => rfl
  | target => rfl
  | sourceOf place position ih =>
    rw [Network.nodeAt?, Network.nodeAt?, ih]
    rfl
  | targetOf place position ih =>
    rw [Network.nodeAt?, Network.nodeAt?, ih]
    rfl

/-- A step does not depend on the stack. -/
lemma step_networkOn (call : LinkId → (Probe → m Datum) → Entries → m Datum)
    (read : Item → m Datum) (item : Item) :
    (g.networkOn room).step call read item = (g.networkOn room').step call read item := by
  have hprobe : (g.networkOn room).probe read = (g.networkOn room').probe read := by
    funext id p
    cases p <;> simp only [Network.probe, g.nodeAt?_networkOn room room']
  cases item with
  | node name => rfl
  | link id =>
    unfold Network.step Network.linkStep
    rw [hprobe]
    rfl

end Steps

variable (g : Graph) (room room' : ℕ)

/-- A visit depends on the room that is left, and not on the stack. -/
lemma visit_networkOn (left : ℕ) : (g.networkOn room).visit left = (g.networkOn room').visit left := by
  induction left with
  | zero => rfl
  | succ left ih =>
    funext item
    rw [Network.visit, Network.visit, ih, g.step_networkOn room room']
    cases item <;> rfl

/-- What an item is worth to a depth does not depend on the stack. -/
lemma valueAt_networkOn (r : Registry) (depth : ℕ) :
    (g.networkOn room).valueAt r depth = (g.networkOn room').valueAt r depth := by
  induction depth with
  | zero => rfl
  | succ depth ih =>
    funext item
    rw [Network.valueAt, Network.valueAt, ih, g.step_networkOn room room']
    cases item <;> rfl

variable {g room room'} {r : Registry}

/-- On a stack an item is worth what it is worth to the depth for which there is room. -/
lemma settled_networkOn (item : Item) :
    (g.networkOn room).settled r item = g.network.valueAt r room item :=
  congrFun (g.valueAt_networkOn room (g.valueCount + 1) r room) item

/-- All stacks with room for more values than the graph has are alike. -/
lemma settled_networkOn_of_lt (hr : r.IsPureFor g.network) (h : g.valueCount < room) (item : Item) :
    (g.networkOn room).settled r item = g.network.settled r item := by
  rw [settled_networkOn]
  exact congrFun (Network.valueAt_of_room_le hr g.hasItems h) item

end Graph

/-! ## Readings with a memo -/

/-- On any stack and with any memo a reading finds no less than the stack has room for without a memo, and
nothing else than what the item is worth. -/
lemma Read.Between.read_networkOn {g : Graph} {r : Registry} (hr : r.IsPureFor g.network) (room : ℕ)
    (item : Item) :
    Between r (g.network.settled r) ((g.networkOn room).settled r item) (g.network.settled r item)
      ((g.networkOn room).read item) := by
  have hvisit := visit hr g.hasItems room item
  rw [← g.settled_networkOn] at hvisit
  unfold Network.read
  rw [g.visit_networkOn _ (g.valueCount + 1)]
  exact hvisit

/-! ## Readings without a memo -/

namespace Read

variable {α β : Type} {r : Registry}

/-- From every state without a memo a reading ends in one, with a given outcome. -/
def Alone (r : Registry) (e : Except Failure α) (x : Read α) : Prop :=
  ∀ s : Reading, s.registry.table = r.table → s.memo? = none →
    (x.run.run s).2.registry.table = r.table ∧ (x.run.run s).2.memo? = none ∧ (x.run.run s).1 = e

namespace Alone

lemma pure (a : α) : Alone r (.ok a) (Pure.pure a) :=
  fun _ htable hmemo => ⟨htable, hmemo, rfl⟩

lemma throw (failure : Failure) :
    Alone r (.error failure : Except Failure α) (MonadExcept.throw failure) :=
  fun _ htable hmemo => ⟨htable, hmemo, rfl⟩

lemma ofExcept (e : Except Failure α) : Alone r e (Read.ofExcept e) := by
  cases e with
  | error failure => exact throw failure
  | ok a => exact pure a

/-- The second part of a reading starts where the first one has ended. -/
lemma bind {e : Except Failure α} {x : Read α} {k : α → Except Failure β} {f : α → Read β}
    (hx : Alone r e x) (hf : ∀ a, Alone r (k a) (f a)) : Alone r (e >>= k) (x >>= f) := by
  intro s htable hmemo
  obtain ⟨htable', hmemo', houtcome⟩ := hx s htable hmemo
  rw [run_bind, ← houtcome]
  rcases hrun : x.run.run s with ⟨failure | a, s'⟩
  · rw [hrun] at htable' hmemo'
    exact ⟨htable', hmemo', rfl⟩
  · rw [hrun] at htable' hmemo'
    exact hf a s' htable' hmemo'

/-- That a reading without a memo has an outcome is a judgement, with one computation. -/
def judgement (r : Registry) : Judgement Unit where
  Holds e x := Alone r (e ()) x
  pure := pure
  throw := throw
  bind := bind

/-- A pure plugin answers by what it reads. -/
lemma callForLink {e : Probe → Except Failure Datum} {read : Probe → Read Datum}
    (h : ∀ p, Alone r (e p) (read p)) (id : LinkId) {params : Entries}
    (hr : ∀ p, r.choose params = .ok p → p.plugin.IsPure) :
    Alone r (r.answer id e params) (StockFlow.callForLink id read params) := by
  intro s htable hmemo
  rw [Between.run_callForLink, Between.run_callPlugin]
  unfold Registry.answer
  cases hchoose : s.registry.choose params with
  | error failure =>
    rw [Registry.choose_eq_error_of_table_eq htable hchoose]
    exact ⟨htable, hmemo, rfl⟩
  | ok p =>
    obtain ⟨⟨name', plugin', count'⟩, hp', -, hplugin⟩ :=
      Registry.exists_choose_of_table_eq htable hchoose
    have hpure : plugin'.IsPure := hr _ hp'
    rw [hp']
    obtain ⟨name, plugin, count⟩ := p
    obtain rfl : plugin' = plugin := hplugin
    have hcounted : (s.registry.countCall name).table = r.table :=
      (Registry.table_countCall _ _).trans htable
    cases plugin' with
    | script body =>
      have hbody := (judgement r).script (k := fun _ => e) h (body params)
      obtain ⟨htable', hmemo', houtcome⟩ :=
        hbody { s with registry := s.registry.countCall name } hcounted hmemo
      exact ⟨htable', hmemo', congrArg (Except.mapError Failure.forLink) houtcome⟩
    | cell answer =>
      -- the count in the state is not that of the registry, and purity says that it does not matter
      have hanswer : answer count' params = answer count params := hpure _ _ _
      obtain ⟨htable', hmemo', houtcome⟩ := ofExcept (r := r) (answer count params)
        { s with registry := s.registry.countCall name } hcounted hmemo
      refine ⟨htable', hmemo', ?_⟩
      change _ = Except.mapError Failure.forLink (answer count' params)
      rw [hanswer]
      exact congrArg (Except.mapError Failure.forLink) houtcome

variable {net : Network}

/-- Without a memo a visit finds what an item is worth to the depth for which room is left. -/
lemma visit (hr : r.IsPureFor net) (left : ℕ) (item : Item) :
    Alone r (net.valueAt r left item) (net.visit left item) := by
  induction left generalizing item with
  | zero => exact throw _
  | succ left ih =>
    unfold Network.valueAt Network.visit
    cases hresolver : net.itemResolver? item with
    | none => exact throw _
    | some resolver =>
      have hstep : Alone r (net.step r.answer (net.valueAt r left) item)
          (net.step StockFlow.callForLink (net.visit left) item) := by
        refine Judgement.step (J := judgement r) (v := fun _ => net.valueAt r left) net ih item ?_
        intro id link params _ hlink hdemand
        have hprobe := Judgement.probe (J := judgement r) (v := fun _ => net.valueAt r left) net ih id
        exact callForLink hprobe id fun p hp => hr id link params p hlink hdemand hp
      intro s htable hmemo
      have hvisit := Between.run_visit hresolver left s
      rw [Network.visit, hresolver, hmemo, Option.bind_none] at hvisit
      obtain ⟨htable', hmemo', houtcome⟩ := hstep s htable hmemo
      rw [hvisit, ← houtcome]
      rcases hrun : (net.step StockFlow.callForLink (net.visit left) item).run.run s with
        ⟨failure | value, s'⟩
      · rw [hrun] at htable' hmemo'
        exact ⟨htable', hmemo', rfl⟩
      · rw [hrun] at htable' hmemo'
        exact ⟨htable', congrArg (Option.map _) hmemo', rfl⟩

/-- Without a memo a reading finds exactly what the stack has room for. -/
theorem read (hr : r.IsPureFor net) (item : Item) : Alone r (net.settled r item) (net.read item) :=
  visit hr net.room item

/-- A reading by itself has the outcome that it has without a memo. -/
lemma runFresh {e : Except Failure α} {x : Read α} (hx : Alone r e x) :
    (Read.runFresh x r).1 = e :=
  (hx ⟨none, r, []⟩ rfl rfl).2.2

end Alone

end Read

/-- By itself an item has what it is worth to the depth for which there is room. -/
lemma Graph.runFresh_read_networkOn {g : Graph} {r : Registry} (hr : r.IsPureFor g.network) (room : ℕ)
    (item : Item) :
    (Read.runFresh ((g.networkOn room).read item) r).1 = g.network.valueAt r room item := by
  have hpure : r.IsPureFor (g.networkOn room) := hr
  rw [(Read.Alone.read hpure item).runFresh, g.settled_networkOn]

end StockFlow
