import StockFlow.Proofs.Outcome
import StockFlow.Proofs.Value.Settled
/-!
# Replaying a pass

In a pass every value is fixed when it is first asked for, and whatever is computed afterwards uses
that value. So the memo at the end of a pass tells what was used: a step that reads this memo gives
for every item the value that the memo holds for it (`Memo.IsSteady`), and a reading gives what its
computation gives by the memo (`Read.Replays`). The plugins need not be pure for this. Only for the
links whose plugins read nothing, and may answer anything, there is nothing to replay; these items
are *drawn*.
-/

namespace StockFlow

/-! ## Remembered values -/

namespace Memo

/-- The value that a memo holds for an item. Where it holds none, nothing is found at any depth. -/
def held (memo : Memo) (item : Item) : Except Failure Datum :=
  match memo.lookup item with
  | some value => .ok value
  | none => .error .tooDeep

/-- Whether a memo holds all values that another one holds. -/
def Extends (later memo : Memo) : Prop :=
  ∀ item value, memo.held item = .ok value → later.held item = .ok value

variable {memo later last : Memo} {item : Item} {value : Datum}

lemma held_eq_ok_iff : memo.held item = .ok value ↔ memo.lookup item = some value := by
  unfold held
  cases memo.lookup item <;> simp

lemma held_cons (memo : Memo) (item other : Item) (value : Datum) :
    held ((item, value) :: memo) other = if other = item then .ok value else memo.held other := by
  unfold held
  rw [List.lookup_cons]
  by_cases h : other = item
  · simp [h]
  · simp [h, beq_false_of_ne h]

lemma Extends.refl (memo : Memo) : memo.Extends memo := fun _ _ h => h

lemma Extends.trans (h : last.Extends later) (h' : later.Extends memo) : last.Extends memo :=
  fun item value hvalue => h item value (h' item value hvalue)

/-- Remembering a value extends a memo that holds no other value for the item. -/
lemma extends_cons (h : ∀ found, memo.held item = .ok found → found = value) :
    Extends ((item, value) :: memo) memo := by
  intro other found hfound
  rw [held_cons]
  split
  · next hother =>
    rw [hother] at hfound
    rw [h found hfound]
  · exact hfound

end Memo

/-! ## Steady memos -/

/-- Whether an item is a link that asks for a plugin that reads nothing. -/
def Network.IsDrawn (net : Network) (r : Registry) : Item → Prop
  | .node _ => False
  | .link id => ∃ link params p answer, net.link? id = some link ∧ link.demand = .answer params ∧
      r.choose params = .ok p ∧ p.plugin = .cell answer

/-- Whether a memo holds for the items that are not drawn what a step gives that reads the memo, or
a later one. -/
def Memo.IsSteady (memo : Memo) (net : Network) (r : Registry) : Prop :=
  ∀ item value, ¬net.IsDrawn r item → memo.held item = .ok value →
    ∀ later : Memo, later.Extends memo → net.step r.answer later.held item = .ok value

/-- A state with the plugins of a given registry whose memo is open and steady. -/
structure Reading.IsSteady (s : Reading) (net : Network) (r : Registry) (memo : Memo) : Prop where
  table : s.registry.table = r.table
  memo_eq : s.memo? = some memo
  steady : Memo.IsSteady memo net r

variable {net : Network} {r : Registry}

/-- A memo that holds nothing is steady. -/
lemma Memo.isSteady_nil : Memo.IsSteady [] net r := by
  intro item value _ hvalue
  cases hvalue

/-- Remembering what a step gives that reads the memo, or a later one, keeps a memo steady. -/
lemma Memo.IsSteady.cons {memo : Memo} (h : memo.IsSteady net r) {item : Item} {value : Datum}
    (hextends : Memo.Extends ((item, value) :: memo) memo)
    (hvalue : ¬net.IsDrawn r item → ∀ later : Memo, later.Extends memo →
      net.step r.answer later.held item = .ok value) :
    Memo.IsSteady ((item, value) :: memo) net r := by
  intro other found hdrawn hfound later hlater
  rw [held_cons] at hfound
  split at hfound
  · next hother =>
    cases hfound
    rw [hother] at hdrawn ⊢
    exact hvalue hdrawn later (hlater.trans hextends)
  · exact h other found hdrawn hfound later (hlater.trans hextends)

/-! ## Replaying readings -/

namespace Read

variable {α β : Type}

/-- From every state with a steady memo a reading ends in one whose memo extends it, and what it
gives is what a computation gives by this memo, or by a later one. -/
def Replays (net : Network) (r : Registry) (e : Memo → Except Failure α) (x : Read α) : Prop :=
  ∀ (s : Reading) (memo : Memo), s.IsSteady net r memo → ∃ memo' : Memo,
    (x.run.run s).2.IsSteady net r memo' ∧ memo'.Extends memo ∧
      ∀ a, (x.run.run s).1 = .ok a → ∀ later : Memo, later.Extends memo' → e later = .ok a

namespace Replays

lemma pure (a : α) : Replays net r (fun _ => .ok a) (Pure.pure a) := by
  intro s memo hs
  refine ⟨memo, hs, .refl memo, fun b hb later _ => ?_⟩
  cases hb
  rfl

/-- What fails gives nothing that would have to be replayed. -/
lemma throw (e : Memo → Except Failure α) (failure : Failure) :
    Replays net r e (MonadExcept.throw failure) := by
  intro s memo hs
  refine ⟨memo, hs, .refl memo, fun b hb => ?_⟩
  cases hb

/-- What the first part used is not forgotten in the second. -/
lemma bind {e : Memo → Except Failure α} {x : Read α} {k : Memo → α → Except Failure β}
    {f : α → Read β} (hx : Replays net r e x)
    (hf : ∀ a, Replays net r (fun memo => k memo a) (f a)) :
    Replays net r (fun memo => e memo >>= k memo) (x >>= f) := by
  intro s memo hs
  obtain ⟨memo', hs', hextends, hgives⟩ := hx s memo hs
  rw [run_bind]
  rcases hrun : x.run.run s with ⟨failure | a, s'⟩
  · rw [hrun] at hs'
    refine ⟨memo', hs', hextends, fun b hb => ?_⟩
    cases hb
  · rw [hrun] at hs' hgives
    obtain ⟨memo'', hs'', hextends', hgives'⟩ := hf a s' memo' hs'
    refine ⟨memo'', hs'', hextends'.trans hextends, fun b hb later hlater => ?_⟩
    dsimp only
    rw [hgives a rfl later (hlater.trans hextends')]
    exact hgives' b hb later hlater

/-- That readings replay is a judgement, with a computation for every memo. -/
def judgement (net : Network) (r : Registry) : Judgement Memo where
  Holds := Replays net r
  pure := pure
  throw failure := throw _ failure
  bind := bind

/-! ## Replaying plugins -/

/-- The answer of a script is replayed if what it reads is. -/
lemma callForLink {e : Memo → Probe → Except Failure Datum} {read : Probe → Read Datum}
    (h : ∀ p, Replays net r (fun memo => e memo p) (read p)) (id : LinkId) {params : Entries}
    (hscript : ∀ p answer, r.choose params = .ok p → p.plugin ≠ .cell answer) :
    Replays net r (fun memo => r.answer id (e memo) params) (callForLink id read params) := by
  intro s memo hs
  rw [Between.run_callForLink, Between.run_callPlugin]
  cases hchoose : s.registry.choose params with
  | error failure =>
    refine ⟨memo, ⟨hs.table, hs.memo_eq, hs.steady⟩, .refl memo, fun a ha => ?_⟩
    cases ha
  | ok p =>
    obtain ⟨p', hp', -, hplugin⟩ := Registry.exists_choose_of_table_eq hs.table hchoose
    obtain ⟨name, plugin, count⟩ := p
    cases plugin with
    | cell answer => exact absurd hplugin (hscript p' answer hp')
    | script body =>
      have hcounted : Reading.IsSteady { s with registry := s.registry.countCall name } net r memo :=
        ⟨(Registry.table_countCall _ _).trans hs.table, hs.memo_eq, hs.steady⟩
      have hbody := (judgement net r).script h (body params)
      obtain ⟨memo', hs', hextends, hgives⟩ := hbody _ memo hcounted
      refine ⟨memo', ⟨hs'.table, hs'.memo_eq, hs'.steady⟩, hextends, fun a ha later hlater => ?_⟩
      have hran := Outcome.mapError_eq_ok_iff.mp ha
      unfold Registry.answer
      rw [hp']
      obtain ⟨name', plugin', count'⟩ := p'
      obtain rfl : plugin' = .script body := hplugin
      change Except.mapError Failure.forLink ((body params).run (e later)) = _
      exact Outcome.mapError_eq_ok_iff.mpr (hgives a hran later hlater)

/-- The evaluation of a drawn item leaves the memo alone. -/
lemma run_step_of_isDrawn {item : Item} (hdrawn : net.IsDrawn r item) (read : Item → Read Datum)
    {s : Reading} (hs : s.registry.table = r.table) :
    ((net.step StockFlow.callForLink read item).run.run s).2.registry.table = r.table ∧
      ((net.step StockFlow.callForLink read item).run.run s).2.memo? = s.memo? := by
  cases item with
  | node name => exact hdrawn.elim
  | link id =>
    obtain ⟨link, params, p, answer, hlink, hdemand, hchoose, hplugin⟩ := hdrawn
    obtain ⟨p', hp', -, hplugin'⟩ := Registry.exists_choose_of_table_eq hs.symm hchoose
    obtain ⟨name, plugin, count⟩ := p'
    obtain rfl : plugin = .cell answer := hplugin'.trans hplugin
    rw [Network.step_eq_call hlink hdemand, Between.run_callForLink, Between.run_callPlugin, hp']
    dsimp only
    cases answer count params with
    | error failure => exact ⟨(Registry.table_countCall _ _).trans hs, rfl⟩
    | ok value => exact ⟨(Registry.table_countCall _ _).trans hs, rfl⟩

/-- The evaluation of an item that is not drawn is replayed if the values that it depends on are. -/
lemma step {item : Item} (hdrawn : ¬net.IsDrawn r item) {read : Item → Read Datum}
    (h : ∀ item, Replays net r (fun memo => memo.held item) (read item)) :
    Replays net r (fun memo => net.step r.answer memo.held item)
      (net.step StockFlow.callForLink read item) := by
  refine Judgement.step (J := judgement net r) (v := fun memo => memo.held) net h item ?_
  rintro id link params rfl hlink hdemand
  have hprobe := Judgement.probe (J := judgement net r) (v := fun memo => memo.held) net h id
  refine callForLink hprobe id fun p answer hp hplugin => hdrawn ?_
  exact ⟨link, params, p, answer, hlink, hdemand, hp, hplugin⟩

/-- After the evaluation of an item for which a memo holds nothing, the memo holds no other value for
it than the one that was found, and unless the item is drawn the value is replayed. -/
lemma exists_memo_of_step {read : Item → Read Datum}
    (h : ∀ item, Replays net r (fun memo => memo.held item) (read item)) {s : Reading}
    {memo : Memo} (hs : s.IsSteady net r memo) {item : Item}
    (hnone : ∀ value, memo.held item ≠ .ok value) :
    ∃ memo' : Memo,
      ((net.step StockFlow.callForLink read item).run.run s).2.IsSteady net r memo' ∧
      memo'.Extends memo ∧
      ∀ value, ((net.step StockFlow.callForLink read item).run.run s).1 = .ok value →
        (∀ found, memo'.held item = .ok found → found = value) ∧
        (¬net.IsDrawn r item → ∀ later : Memo, later.Extends memo' →
          net.step r.answer later.held item = .ok value) := by
  by_cases hdrawn : net.IsDrawn r item
  · obtain ⟨htable, hmemo⟩ := run_step_of_isDrawn hdrawn read hs.table
    refine ⟨memo, ⟨htable, hmemo.trans hs.memo_eq, hs.steady⟩, .refl memo, fun value _ => ?_⟩
    exact ⟨fun found hfound => absurd hfound (hnone found), fun h => absurd hdrawn h⟩
  · obtain ⟨memo', hs', hextends, hgives⟩ := step hdrawn h s memo hs
    refine ⟨memo', hs', hextends, fun value hvalue => ⟨fun found hfound => ?_, fun _ =>
      hgives value hvalue⟩⟩
    -- the memo may hold the item already if it was met on the way, and then the step gave the same
    have hheld : net.step r.answer memo'.held item = .ok found :=
      hs'.steady item found hdrawn hfound memo' (.refl memo')
    have hnow : net.step r.answer memo'.held item = .ok value :=
      hgives value hvalue memo' (.refl memo')
    exact Except.ok.inj (hheld.symm.trans hnow)

/-- A visit gives what the memo holds for the item afterwards. -/
lemma visit (depth : Nat) (item : Item) :
    Replays net r (fun memo => memo.held item) (net.visit depth item) := by
  induction depth generalizing item with
  | zero => exact throw _ _
  | succ depth ih =>
    cases hresolver : net.itemResolver? item with
    | none =>
      rw [Network.visit, hresolver]
      exact throw _ _
    | some resolver =>
      intro s memo hs
      rw [Between.run_visit hresolver, hs.memo_eq, Option.bind_some]
      cases hfound : memo.lookup item with
      | some value =>
        refine ⟨memo, hs, .refl memo, fun a ha later hlater => ?_⟩
        cases ha
        exact hlater item value (Memo.held_eq_ok_iff.mpr hfound)
      | none =>
        have hnone : ∀ value, memo.held item ≠ .ok value := by
          intro value hvalue
          rw [Memo.held_eq_ok_iff, hfound] at hvalue
          cases hvalue
        obtain ⟨memo', hs', hextends, hvalue⟩ := exists_memo_of_step ih hs hnone
        rcases hrun : (net.step StockFlow.callForLink (net.visit depth) item).run.run s with
          ⟨failure | value, s'⟩
        · rw [hrun] at hs'
          refine ⟨memo', hs', hextends, fun a ha => ?_⟩
          cases ha
        · rw [hrun] at hs' hvalue
          obtain ⟨hsame, hsteady⟩ := hvalue value rfl
          have hmore := Memo.extends_cons hsame
          refine ⟨(item, value) :: memo', ⟨hs'.table, ?_, hs'.steady.cons hmore hsteady⟩,
            hmore.trans hextends, fun a ha later hlater => ?_⟩
          · change s'.memo?.map _ = _
            rw [hs'.memo_eq, Option.map_some]
          · cases ha
            refine hlater item value ?_
            rw [Memo.held_cons, if_pos rfl]

/-- A reading gives what the memo holds for the item afterwards. -/
theorem read (item : Item) : Replays net r (fun memo => memo.held item) (net.read item) :=
  visit net.room item

end Replays

end Read

end StockFlow
