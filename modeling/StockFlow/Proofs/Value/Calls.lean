import StockFlow.Proofs.Value.Nested
import StockFlow.Proofs.Value.Replay
/-!
# Calls in a pass

In a pass the plugin of a link answers at most once (`calls_once_per_pass`): its answer is remembered, so
it is not asked again. A call that fails is not remembered, and then the plugin is called again.

What has to be excluded is that a link is met again in the course of its own call, and answers there as
well. A link that is being computed *waits*, like all items that the computation has come through. A
computation on which waiting items depend (`Read.Pending`) cannot find a value for one of them, because
the value would let the waiting item find a value by the memo alone, for which it still waits. So whatever
waits is not remembered before its own computation has ended (`Read.CallsOnce`).
-/

namespace StockFlow

/-! ## Counting calls -/

/-- The value that a state remembers for an item. -/
def Reading.held? (s : Reading) (item : Item) : Option Datum :=
  s.memo?.bind fun memo => memo.lookup item

/-- How many calls for a link have been answered. -/
def answeredCalls (id : LinkId) (calls : List Call) : ℕ :=
  calls.countP fun call => call.link = id ∧ call.answered

lemma answeredCalls_append (id : LinkId) (calls calls' : List Call) :
    answeredCalls id (calls ++ calls') = answeredCalls id calls + answeredCalls id calls' :=
  List.countP_append

lemma answeredCalls_cons (id : LinkId) (call : Call) (calls : List Call) :
    answeredCalls id (call :: calls) =
      answeredCalls id calls + if call.link = id ∧ call.answered then 1 else 0 := by
  unfold answeredCalls
  rw [List.countP_cons]
  simp

/-- How many values a memo holds for an item: one or none. -/
def Memo.count (memo : Memo) (item : Item) : ℕ := if (memo.lookup item).isSome then 1 else 0

namespace Memo

variable {memo : Memo} {item : Item} {value : Datum}

lemma held_ne_ok_of_lookup (h : memo.lookup item = none) (value : Datum) :
    memo.held item ≠ .ok value := by
  rw [Ne, held_eq_ok_iff, h]
  simp

lemma count_le_one (memo : Memo) (item : Item) : memo.count item ≤ 1 := by
  unfold count
  split <;> omega

lemma count_eq_zero (h : ∀ value, memo.held item ≠ .ok value) : memo.count item = 0 := by
  unfold count
  cases hfound : memo.lookup item with
  | none => rfl
  | some value => exact absurd (held_eq_ok_iff.mpr hfound) (h value)

lemma count_cons (memo : Memo) (item other : Item) (value : Datum) :
    count ((item, value) :: memo) other = if other = item then 1 else memo.count other := by
  unfold count
  rw [List.lookup_cons]
  by_cases h : other = item
  · simp [h]
  · rw [beq_false_of_ne h, if_neg h]

/-- Whether a memo holds no value for any of the items that wait. -/
def Lacks (memo : Memo) (waiting : Item → Prop) : Prop :=
  ∀ item, waiting item → ∀ value, memo.held item ≠ .ok value

/-- Remembering a value for an item that does not wait. -/
lemma Lacks.cons {waiting : Item → Prop} (h : memo.Lacks waiting) (hitem : ¬waiting item)
    (value : Datum) : Lacks ((item, value) :: memo) waiting := by
  intro other hother found
  have hne : other ≠ item := by
    rintro rfl
    exact hitem hother
  rw [held_cons, if_neg hne]
  exact h other hother found

end Memo

/-! ## Waiting items -/

namespace Read

variable {α β : Type} {net : Network} {r : Registry}

/-- The link that a call may have been answered for without remembering the value yet: the link itself
whose value has been computed. -/
def credit : Item → Except Failure α → Option LinkId
  | .link id, .ok _ => some id
  | _, _ => none

lemma credit_eq_some_iff {id other : LinkId} {outcome : Except Failure α} :
    credit (.link id) outcome = some other ↔ id = other ∧ outcome.isOk = true := by
  cases outcome <;> simp [credit, Except.isOk, Except.toBool]

lemma credit_error (item : Item) (failure : Failure) :
    credit item (.error failure : Except Failure α) = none := by
  cases item <;> rfl

lemma credit_ne_some {item : Item} {id : LinkId} (h : Item.link id ≠ item) (outcome : Except Failure α) :
    credit item outcome ≠ some id := by
  cases item with
  | node name => simp [credit]
  | link other =>
    rw [Ne, credit_eq_some_iff]
    rintro ⟨rfl, -⟩
    exact h rfl

/-- How a state with an open memo goes on while items wait: no value is forgotten, none is found for
what waits, and but for a credit every call for a link that is answered adds a
value for the link. -/
structure Advances (r : Registry) (waiting : Item → Prop) (credit? : Option LinkId) (s : Reading)
    (memo : Memo) (s' : Reading) (memo' : Memo) : Prop where
  table : s'.registry.table = r.table
  memo_eq : s'.memo? = some memo'
  keeps : memo'.Extends memo
  lacks : memo'.Lacks waiting
  once : ∀ id, answeredCalls id s'.calls + memo.count (.link id) ≤
    answeredCalls id s.calls + memo'.count (.link id) + if credit? = some id then 1 else 0

/-- A state in which items wait for a computation: unless the computation finds a value by a later
memo, a step from this memo finds none for them. The items that wait are not drawn. -/
structure Pending (net : Network) (r : Registry) (waiting : Item → Prop) (s : Reading) (memo : Memo)
    (e : Memo → Except Failure α) : Prop where
  table : s.registry.table = r.table
  memo_eq : s.memo? = some memo
  lacks : memo.Lacks waiting
  not_drawn : ∀ item, waiting item → ¬net.IsDrawn r item
  waits : ∀ later : Memo, later.Extends memo → later.Lacks waiting → (∀ a, e later ≠ .ok a) →
    ∀ item, waiting item → ∀ value, net.step r.answer later.held item ≠ .ok value

/-- Whether a reading finds no value for what waits for it, answers no call without remembering the
value, and gives what a computation gives by the memo that it leaves, or by a later one. -/
def CallsOnce (net : Network) (r : Registry) (e : Memo → Except Failure α) (x : Read α) : Prop :=
  ∀ waiting s memo, Pending net r waiting s memo e → ∃ memo' : Memo,
    Advances r waiting none s memo (x.run.run s).2 memo' ∧
      ∀ a, (x.run.run s).1 = .ok a → ∀ later : Memo, later.Extends memo' → e later = .ok a

variable {waiting : Item → Prop} {s s' s'' : Reading} {memo memo' memo'' : Memo}

lemma Pending.refl {e : Memo → Except Failure α} (h : Pending net r waiting s memo e) :
    Advances r waiting none s memo s memo :=
  ⟨h.table, h.memo_eq, .refl memo, h.lacks, fun _ => le_rfl⟩

lemma Advances.trans {credit? : Option LinkId} (h' : Advances r waiting credit? s' memo' s'' memo'')
    (h : Advances r waiting none s memo s' memo') : Advances r waiting credit? s memo s'' memo'' := by
  refine ⟨h'.table, h'.memo_eq, h'.keeps.trans h.keeps, h'.lacks, fun id => ?_⟩
  have hfirst := h.once id
  have hsecond := h'.once id
  rw [if_neg (by simp)] at hfirst
  omega

/-- What is made without a credit is made with any. -/
lemma Advances.mono (h : Advances r waiting none s memo s' memo') (credit? : Option LinkId) :
    Advances r waiting credit? s memo s' memo' :=
  ⟨h.table, h.memo_eq, h.keeps, h.lacks, fun id => (h.once id).trans (by simp)⟩

/-- What is remembered for an item that does not wait and had no value pays for its credit. -/
lemma Advances.remember {item : Item} {value : Datum}
    (h : Advances r waiting (credit item (.ok value : Except Failure Datum)) s memo s' memo')
    (hitem : ¬waiting item) (hnone : ∀ found, memo'.held item ≠ .ok found) :
    Advances r waiting none s memo
      { s' with memo? := s'.memo?.map fun memo => (item, value) :: memo } ((item, value) :: memo') := by
  have hmore : Memo.Extends ((item, value) :: memo') memo' :=
    Memo.extends_cons fun found hfound => absurd hfound (hnone found)
  refine ⟨h.table, ?_, hmore.trans h.keeps, h.lacks.cons hitem value, fun id => ?_⟩
  · rw [h.memo_eq, Option.map_some]
  · have honce := h.once id
    rw [Memo.count_cons]
    by_cases hid : Item.link id = item
    · subst hid
      rw [Memo.count_eq_zero hnone, credit, if_pos rfl] at honce
      rw [if_pos rfl]
      exact honce
    · rw [if_neg (credit_ne_some hid _)] at honce
      rw [if_neg hid]
      exact honce

/-- No more is noted for a link than its own call, if it is answered. -/
lemma answeredCalls_noted_le (r' : Registry) (id other : LinkId) (params : Entries) (answered : Bool)
    (calls : List Call) : answeredCalls other (r'.noted id params answered ++ calls) ≤
      answeredCalls other calls + if id = other ∧ answered then 1 else 0 := by
  unfold Registry.noted
  cases r'.choose params with
  | error failure => exact Nat.le_add_right _ _
  | ok p => exact (answeredCalls_cons other ⟨id, p.name, answered⟩ calls).le

/-- To note a call for a link takes the credit of the link, if the call is answered. -/
lemma Advances.noted (h : Advances r waiting none s memo s' memo') (id : LinkId) (params : Entries)
    (outcome : Except Failure α) :
    Advances r waiting (credit (.link id) (outcome.mapError Failure.forLink)) s memo
      { s' with calls := s'.registry.noted id params outcome.isOk ++ s'.calls } memo' := by
  refine ⟨h.table, h.memo_eq, h.keeps, h.lacks, fun other => ?_⟩
  have honce := h.once other
  have hnoted := answeredCalls_noted_le s'.registry id other params outcome.isOk s'.calls
  simp only [credit_eq_some_iff, Outcome.isOk_mapError]
  rw [if_neg (by simp)] at honce
  omega

namespace CallsOnce

lemma pure (a : α) : CallsOnce net r (fun _ => .ok a) (Pure.pure a) := by
  intro waiting s memo h
  refine ⟨memo, h.refl, fun b hb later _ => ?_⟩
  cases hb
  rfl

lemma throw (e : Memo → Except Failure α) (failure : Failure) :
    CallsOnce net r e (MonadExcept.throw failure) := by
  intro waiting s memo h
  refine ⟨memo, h.refl, fun b hb => ?_⟩
  cases hb

/-- What waits for the whole waits for the first part, and after that for the second one. -/
lemma bind {e : Memo → Except Failure α} {x : Read α} {k : Memo → α → Except Failure β}
    {f : α → Read β} (hx : CallsOnce net r e x)
    (hf : ∀ a, CallsOnce net r (fun memo => k memo a) (f a)) :
    CallsOnce net r (fun memo => e memo >>= k memo) (x >>= f) := by
  intro waiting s memo h
  have hfirst : Pending net r waiting s memo e := by
    refine ⟨h.table, h.memo_eq, h.lacks, h.not_drawn, fun later hlater hlacks hnone => ?_⟩
    refine h.waits later hlater hlacks fun b hb => ?_
    obtain ⟨a, ha, -⟩ := Outcome.bind_eq_ok_iff.mp hb
    exact hnone a ha
  obtain ⟨memo', hadvances, hgives⟩ := hx waiting s memo hfirst
  rw [run_bind]
  rcases hrun : x.run.run s with ⟨failure | a, s'⟩
  · rw [hrun] at hadvances
    refine ⟨memo', hadvances, fun b hb => ?_⟩
    cases hb
  · rw [hrun] at hadvances hgives
    have hsecond : Pending net r waiting s' memo' (fun memo => k memo a) := by
      refine ⟨hadvances.table, hadvances.memo_eq, hadvances.lacks, h.not_drawn,
        fun later hlater hlacks hnone => ?_⟩
      refine h.waits later (hlater.trans hadvances.keeps) hlacks fun b hb => ?_
      rw [hgives a rfl later hlater] at hb
      exact hnone b hb
    obtain ⟨memo'', hadvances', hgives'⟩ := hf a waiting s' memo' hsecond
    refine ⟨memo'', hadvances'.trans hadvances, fun b hb later hlater => ?_⟩
    dsimp only
    rw [hgives a rfl later (hlater.trans hadvances'.keeps)]
    exact hgives' b hb later hlater

/-- That readings call once is a judgement, with a computation for every memo. -/
def judgement (net : Network) (r : Registry) : Judgement Memo where
  Holds := CallsOnce net r
  pure := pure
  throw failure := throw _ failure
  bind := bind

/-! ## Calls of plugins -/

/-- The plugin of a script is called once, and goes on like the script. -/
lemma callPlugin {read : Probe → Read Datum} {e : Memo → Probe → Except Failure Datum}
    (h : ∀ p, CallsOnce net r (fun memo => e memo p) (read p)) (id : LinkId) {params : Entries}
    (hscript : ∀ p answer, r.choose params = .ok p → p.plugin ≠ .cell answer) :
    CallsOnce net r (fun memo => r.answer id (e memo) params) (callPlugin read params) := by
  intro waiting s memo hpending
  rw [Between.run_callPlugin]
  cases hchoose : s.registry.choose params with
  | error failure =>
    refine ⟨memo, hpending.refl, fun a ha => ?_⟩
    cases ha
  | ok p =>
    obtain ⟨p', hp', -, hplugin⟩ := Registry.exists_choose_of_table_eq hpending.table hchoose
    obtain ⟨name, plugin, count⟩ := p
    obtain ⟨name', plugin', count'⟩ := p'
    obtain rfl : plugin' = plugin := hplugin
    cases plugin' with
    | cell answer => exact absurd rfl (hscript _ answer hp')
    | script body =>
      have hanswer : ∀ memo : Memo, r.answer id (e memo) params =
          Except.mapError Failure.forLink ((body params).run (e memo)) := by
        intro memo
        unfold Registry.answer
        rw [hp']
        rfl
      have hcounted : Pending net r waiting { s with registry := s.registry.countCall name } memo
          fun memo => (body params).run (e memo) := by
        refine ⟨(Registry.table_countCall _ _).trans hpending.table, hpending.memo_eq, hpending.lacks,
          hpending.not_drawn, fun later hlater hlacks hnone => ?_⟩
        refine hpending.waits later hlater hlacks fun a ha => hnone a ?_
        rw [hanswer] at ha
        exact Outcome.mapError_eq_ok_iff.mp ha
      obtain ⟨memo', hadvances, hgives⟩ :=
        (judgement net r).script h (body params) waiting _ memo hcounted
      refine ⟨memo', ⟨hadvances.table, hadvances.memo_eq, hadvances.keeps, hadvances.lacks,
        hadvances.once⟩, fun a ha later hlater => ?_⟩
      exact (hanswer later).trans (Outcome.mapError_eq_ok_iff.mpr (hgives a ha later hlater))

/-- A call of a script for a link goes on like the script, and if it is answered, then one more call for
the link is. -/
lemma exists_memo_of_callForLink {read : Probe → Read Datum} {e : Memo → Probe → Except Failure Datum}
    (h : ∀ p, CallsOnce net r (fun memo => e memo p) (read p)) {id : LinkId} {params : Entries}
    (hscript : ∀ p answer, r.choose params = .ok p → p.plugin ≠ .cell answer)
    (hpending : Pending net r waiting s memo fun memo => r.answer id (e memo) params) :
    ∃ memo' : Memo,
      Advances r waiting (credit (.link id) ((callForLink id read params).run.run s).1) s memo
        ((callForLink id read params).run.run s).2 memo' ∧
      ∀ a, ((callForLink id read params).run.run s).1 = .ok a →
        ∀ later : Memo, later.Extends memo' → r.answer id (e later) params = .ok a := by
  obtain ⟨memo', hadvances, hgives⟩ := callPlugin h id hscript waiting s memo hpending
  rw [Between.run_callForLink]
  exact ⟨memo', hadvances.noted id params _,
    fun a ha => hgives a (Outcome.mapError_eq_ok_iff.mp ha)⟩

/-! ## Steps and visits -/

/-- A drawn item reads nothing, and if its plugin answers, then one more call for it is answered. -/
lemma exists_memo_of_isDrawn {item : Item} (hdrawn : net.IsDrawn r item) (read : Item → Read Datum)
    {e : Memo → Except Failure α} (hpending : Pending net r waiting s memo e) :
    Advances r waiting
      (credit item ((net.step StockFlow.callForLink read item).run.run s).1) s memo
      ((net.step StockFlow.callForLink read item).run.run s).2 memo := by
  cases item with
  | node name => exact hdrawn.elim
  | link id =>
    obtain ⟨link, params, p, answer, hlink, hdemand, hchoose, hplugin⟩ := hdrawn
    obtain ⟨p', hp', -, hplugin'⟩ :=
      Registry.exists_choose_of_table_eq hpending.table.symm hchoose
    have hcalled : Advances r waiting none s memo
        ((StockFlow.callPlugin (net.probe read id) params).run.run s).2 memo := by
      rw [Between.run_callPlugin, hp']
      dsimp only
      rw [hplugin', hplugin]
      dsimp only
      rw [run_ofExcept]
      exact ⟨(Registry.table_countCall _ _).trans hpending.table, hpending.memo_eq, .refl memo,
        hpending.lacks, fun _ => le_rfl⟩
    rw [Network.step_eq_call hlink hdemand, Between.run_callForLink]
    exact hcalled.noted id params _

/-- The evaluation of an item that is not drawn gives what a step gives by the memo that it leaves, and
if a plugin answers for the item itself, then one more call is answered. -/
lemma exists_memo_of_step {item : Item} (hdrawn : ¬net.IsDrawn r item) {read : Item → Read Datum}
    (h : ∀ item, CallsOnce net r (fun memo => memo.held item) (read item))
    (hpending : Pending net r waiting s memo fun memo => net.step r.answer memo.held item) :
    ∃ memo' : Memo,
      Advances r waiting (credit item ((net.step StockFlow.callForLink read item).run.run s).1) s memo
        ((net.step StockFlow.callForLink read item).run.run s).2 memo' ∧
      ∀ a, ((net.step StockFlow.callForLink read item).run.run s).1 = .ok a →
        ∀ later : Memo, later.Extends memo' → net.step r.answer later.held item = .ok a := by
  by_cases hplugin : ∃ id link params, item = .link id ∧ net.link? id = some link ∧
      link.demand = .answer params
  · obtain ⟨id, link, params, rfl, hlink, hdemand⟩ := hplugin
    simp only [Network.step_eq_call hlink hdemand] at hpending ⊢
    refine exists_memo_of_callForLink
      (Judgement.probe (J := judgement net r) (v := fun memo => memo.held) net h id) ?_ hpending
    exact fun p answer hp hcell => hdrawn ⟨link, params, p, answer, hlink, hdemand, hp, hcell⟩
  · have hstep : CallsOnce net r (fun memo => net.step r.answer memo.held item)
        (net.step StockFlow.callForLink read item) :=
      Judgement.step (J := judgement net r) (v := fun memo => memo.held) net h item
        fun id link params hitem hlink hdemand =>
          absurd ⟨id, link, params, hitem, hlink, hdemand⟩ hplugin
    obtain ⟨memo', hadvances, hgives⟩ := hstep waiting s memo hpending
    exact ⟨memo', hadvances.mono _, hgives⟩

/-- The evaluation of an item that has no value leaves it without one, and if it finds a value, then the
item has not been waiting for it. -/
lemma exists_memo_of_unheld {item : Item} {read : Item → Read Datum}
    (h : ∀ item, CallsOnce net r (fun memo => memo.held item) (read item))
    (hpending : Pending net r waiting s memo fun memo => memo.held item)
    (hnone : ∀ value, memo.held item ≠ .ok value) :
    ∃ memo' : Memo,
      Advances r waiting (credit item ((net.step StockFlow.callForLink read item).run.run s).1) s memo
        ((net.step StockFlow.callForLink read item).run.run s).2 memo' ∧
      (∀ value, memo'.held item ≠ .ok value) ∧
      ∀ value, ((net.step StockFlow.callForLink read item).run.run s).1 = .ok value →
        ¬waiting item := by
  by_cases hdrawn : net.IsDrawn r item
  · refine ⟨memo, exists_memo_of_isDrawn hdrawn _ hpending, hnone, fun _ _ hwaiting => ?_⟩
    exact hpending.not_drawn item hwaiting hdrawn
  · -- from now on the item waits as well
    have hwaits : Pending net r (fun other => waiting other ∨ other = item) s memo
        fun memo => net.step r.answer memo.held item := by
      refine ⟨hpending.table, hpending.memo_eq, ?_, ?_, fun later hlater hlacks hnone => ?_⟩
      · rintro other (hother | rfl)
        · exact hpending.lacks other hother
        · exact hnone
      · rintro other (hother | rfl)
        · exact hpending.not_drawn other hother
        · exact hdrawn
      · rintro other (hother | rfl)
        · exact hpending.waits later hlater (fun i hi => hlacks i (Or.inl hi))
            (hlacks item (Or.inr rfl)) other hother
        · exact hnone
    obtain ⟨memo', hadvances, hgives⟩ := exists_memo_of_step hdrawn h hwaits
    have hlacks : memo'.Lacks waiting := fun i hi => hadvances.lacks i (Or.inl hi)
    have hitem := hadvances.lacks item (Or.inr rfl)
    refine ⟨memo', ⟨hadvances.table, hadvances.memo_eq, hadvances.keeps, hlacks, hadvances.once⟩,
      hitem, fun value hvalue hwaiting => ?_⟩
    exact hpending.waits memo' hadvances.keeps hlacks hitem item hwaiting value
      (hgives value hvalue memo' (.refl memo'))

/-- A visit calls once. -/
theorem visit (depth : ℕ) (item : Item) :
    CallsOnce net r (fun memo => memo.held item) (net.visit depth item) := by
  induction depth generalizing item with
  | zero => exact throw _ _
  | succ depth ih =>
    cases hresolver : net.itemResolver? item with
    | none =>
      rw [Network.visit, hresolver]
      exact throw _ _
    | some resolver =>
      intro waiting s memo h
      rw [Between.run_visit hresolver, h.memo_eq, Option.bind_some]
      cases hfound : memo.lookup item with
      | some value =>
        refine ⟨memo, h.refl, fun a ha later hlater => ?_⟩
        cases ha
        exact hlater item value (Memo.held_eq_ok_iff.mpr hfound)
      | none =>
        obtain ⟨memo', hadvances, hnone, hwaiting⟩ :=
          exists_memo_of_unheld ih h (Memo.held_ne_ok_of_lookup hfound)
        dsimp only
        rcases hrun : (net.step StockFlow.callForLink (net.visit depth) item).run.run s with
          ⟨failure | value, s'⟩
        · rw [hrun] at hadvances
          refine ⟨memo', ?_, fun a ha => ?_⟩
          · rwa [credit_error] at hadvances
          · cases ha
        · rw [hrun] at hadvances hwaiting
          refine ⟨(item, value) :: memo', hadvances.remember (hwaiting value rfl) hnone,
            fun a ha later hlater => ?_⟩
          cases ha
          refine hlater item value ?_
          rw [Memo.held_cons, if_pos rfl]

end CallsOnce

/-! ## Where a reading comes to a link -/

/-- An item whose value is remembered is not computed. -/
lemma run_visit_of_held {item : Item} {resolver : Resolver}
    (hresolver : net.itemResolver? item = some resolver) {value : Datum}
    (hheld : s.held? item = some value) (depth : ℕ) :
    (net.visit (depth + 1) item).run.run s = (.ok value, s) := by
  rw [Between.run_visit hresolver, ← Reading.held?, hheld]

/-- The evaluation of an item whose value is not remembered does not remember it. -/
lemma held?_run_step (htable : s.registry.table = r.table) {item : Item} (hunheld : s.held? item = none)
    (depth : ℕ) :
    ((net.step callForLink (net.visit depth) item).run.run s).2.held? item = none := by
  unfold Reading.held? at hunheld ⊢
  cases hmemo : s.memo? with
  | none =>
    obtain ⟨more, hkept⟩ := (Keeps.step net (Keeps.visit net depth) item s).memo
    rw [hkept, hmemo]
    rfl
  | some memo =>
    rw [hmemo, Option.bind_some] at hunheld
    have hpending : Pending net r (fun _ => False) s memo fun memo => memo.held item :=
      ⟨htable, hmemo, fun _ => False.elim, fun _ => False.elim, fun _ _ _ _ _ => False.elim⟩
    obtain ⟨memo', hadvances, hnone, -⟩ := CallsOnce.exists_memo_of_unheld (CallsOnce.visit depth) hpending
      (Memo.held_ne_ok_of_lookup hunheld)
    rw [hadvances.memo_eq, Option.bind_some, Option.eq_none_iff_forall_ne_some]
    exact fun value hvalue => hnone value (Memo.held_eq_ok_iff.mpr hvalue)

/-- A link whose value is not remembered calls its plugin, and if the call fails, then its value is still
not remembered. -/
lemma exists_calls_of_unheld {id : LinkId} {link : Link} {params : Entries} {p : Registered}
    {resolver : Resolver} (hresolver : net.itemResolver? (.link id) = some resolver)
    (hlink : net.link? id = some link) (hdemand : link.demand = .answer params)
    (htable : s.registry.table = r.table) (hchoose : r.choose params = .ok p)
    (hunheld : s.held? (.link id) = none) (depth : ℕ) :
    let ran := (net.visit (depth + 1) (.link id)).run.run s
    (∃ made, ran.2.calls = ⟨id, p.name, ran.1.isOk⟩ :: (made ++ s.calls)) ∧
      (ran.1.isOk = false → ran.2.held? (.link id) = none) := by
  intro ran
  have hprobe : ∀ p, Keeps (net.probe (net.visit depth) id p) := Judgement.probe
    (J := Keeps.judgement) (v := fun _ _ => .error .wrongType) net (Keeps.visit net depth) id
  have hcall := Keeps.callPlugin hprobe params s
  obtain ⟨made, hmade⟩ := hcall.calls
  obtain ⟨p', hp', hname, -⟩ :=
    Registry.exists_choose_of_table_eq (htable.symm.trans hcall.table.symm) hchoose
  have hnoted : ∀ answered,
      ((callPlugin (net.probe (net.visit depth) id) params).run.run s).2.registry.noted id params answered =
        [⟨id, p.name, answered⟩] := by
    intro answered
    unfold Registry.noted
    rw [hp', ← hname]
  have hstill : ((net.step callForLink (net.visit depth) (.link id)).run.run s).2.held? (.link id) =
      none := held?_run_step htable hunheld depth
  unfold ran
  rw [Between.run_visit hresolver, ← Reading.held?, hunheld]
  rw [Network.step_eq_call hlink hdemand] at hstill ⊢
  rw [Between.run_callForLink, hnoted, hmade] at hstill ⊢
  rcases ((callPlugin (net.probe (net.visit depth) id) params).run.run s).1 with failure | value
  · exact ⟨⟨made, rfl⟩, fun _ => hstill⟩
  · exact ⟨⟨made, rfl⟩, fun h => by cases h⟩

end Read

/-! ## Calls in a session -/

namespace Session

variable {s s' s'' : Session} {n : ℕ}

/-- Whether one session goes on to another one while passes stay open, and every call for a link that is
answered in between adds a value for the link. -/
def PaysUpTo (s s' : Session) : Prop :=
  ∃ (memo memo' : Memo) (made : List Call), s.live.memo? = some memo ∧ s'.live.memo? = some memo' ∧
    s'.calls = made ++ s.calls ∧
    ∀ id, answeredCalls id made + memo.count (.link id) ≤ memo'.count (.link id)

lemma PaysUpTo.of_eq {memo : Memo} (hmemo : s.live.memo? = some memo)
    (hsame : s'.live.memo? = s.live.memo?) (hcalls : s'.calls = s.calls) : s.PaysUpTo s' :=
  ⟨memo, memo, [], hmemo, hsame.trans hmemo, hcalls, fun _ => (Nat.zero_add _).le⟩

lemma PaysUpTo.trans (h : s.PaysUpTo s') (h' : s'.PaysUpTo s'') : s.PaysUpTo s'' := by
  obtain ⟨memo, memo', made, hmemo, hmemo', hcalls, hpaid⟩ := h
  obtain ⟨memo'', last, made', hmemo'', hlast, hcalls', hpaid'⟩ := h'
  obtain rfl : memo' = memo'' := Option.some.inj (hmemo'.symm.trans hmemo'')
  refine ⟨memo, last, made' ++ made, hmemo, hlast, by rw [hcalls', hcalls, List.append_assoc],
    fun id => ?_⟩
  rw [answeredCalls_append]
  have hfirst := hpaid id
  have hsecond := hpaid' id
  omega

/-- A reading that calls once pays for the calls that it makes. -/
lemma paysUpTo_read {α : Type} {r : Registry} {net : Network} {e : Memo → Except Failure α} {x : Read α}
    (hx : Read.CallsOnce net r e x) (htable : s.registry.table = r.table) {memo : Memo}
    (hmemo : s.live.memo? = some memo) : s.PaysUpTo (s.read x).2 := by
  have hpending : Read.Pending net r (fun _ => False) ⟨s.live.memo?, s.registry, []⟩ memo e :=
    ⟨htable, hmemo, fun _ => False.elim, fun _ => False.elim, fun _ _ _ _ _ => False.elim⟩
  obtain ⟨memo', hadvances, -⟩ := hx _ _ memo hpending
  refine ⟨memo, memo', _, hmemo, hadvances.memo_eq, rfl, fun id => ?_⟩
  have honce := hadvances.once id
  rw [if_neg (by simp), Nat.add_zero] at honce
  exact honce.trans_eq (Nat.zero_add _)

/-- While passes stay open, an act pays for the calls that are made. -/
lemma IsNested.paysUpTo_step (h : s.IsNested n) (act : Act) (hopen : 0 < n) (hstill : 0 < act.passes n) :
    s.PaysUpTo (s.step act) := by
  obtain ⟨memo, hmemo⟩ := Option.isSome_iff_exists.mp (h.isSome_iff.mpr hopen)
  have hsame := (h.exists_memo?_step act hopen hstill).2
  have hvisit : ∀ item, Read.CallsOnce s.live.graph.network s.registry (fun memo => memo.held item)
      (s.live.graph.network.read item) := Read.CallsOnce.visit _
  cases act with
  | openPass => exact .of_eq hmemo (by rw [hsame (Or.inl rfl)]) rfl
  | closePass =>
    refine .of_eq hmemo (by rw [hsame (Or.inr rfl)]) ?_
    unfold Session.step
    dsimp only
    split <;> rfl
  | ask q =>
    obtain ⟨e, hq⟩ := q.exists_holds (J := Read.CallsOnce.judgement s.live.graph.network s.registry)
      (v := fun memo => memo.held) hvisit
    exact paysUpTo_read hq rfl hmemo
  | output o d =>
    have hrows := Read.Judgement.rows
      (J := Read.CallsOnce.judgement s.live.graph.network s.registry) (v := fun memo => memo.held) hvisit
      s.live.graph o d
    -- inside a pass an output reads its rows in this pass
    have hinside : (s.live.graph.output o d).run.run ⟨s.live.memo?, s.registry, []⟩ =
        (s.live.graph.rows s.live.graph.network.read o d).run.run ⟨s.live.memo?, s.registry, []⟩ := by
      rw [Graph.output, Read.run_inPass, hmemo]
    rw [Session.step, read_congr hinside]
    exact paysUpTo_read hrows rfl hmemo
  | change edit => exact .of_eq hmemo rfl rfl

lemma IsNested.paysUpTo_run (h : s.IsNested n) {acts : List Act} (hopen : Act.StayOpen n acts) :
    s.PaysUpTo (s.run acts) := by
  induction acts generalizing s n with
  | nil =>
    obtain ⟨memo, hmemo⟩ := Option.isSome_iff_exists.mp (h.isSome_iff.mpr hopen)
    exact .of_eq hmemo rfl rfl
  | cons act acts ih => exact (h.paysUpTo_step act hopen.1 hopen.2.pos).trans (ih (h.step act) hopen.2)

/-- **Plugins answer at most once in a pass.** Whatever is done in an outermost pass, with inner passes
and outputs and readings that fail, at most one call for a link is answered in it. Where a reading comes to
a link that asks for a plugin, the plugin is not called if the value of the link is remembered; otherwise
it is called, and if the call fails, then nothing is remembered, so that the next reading that comes to
the link calls it again. A reading of the link while no pass is open calls the plugin anew. -/
theorem calls_once_per_pass (g : Graph) (r : Registry) (acts : List Act) :
    let s := (start g r).run acts
    (Act.openPasses acts = 0 → ∀ inside, Act.StayOpen 1 inside → ∃ made,
      ((s.step .openPass).run inside).calls = made ++ s.calls ∧ ∀ id, answeredCalls id made ≤ 1) ∧
    ∀ (id : LinkId) (link : Link) (params : Entries) (p : Registered),
      let net := s.live.graph.network
      net.link? id = some link → link.demand = .answer params → r.choose params = .ok p →
      s.live.graph.resolver.isSome →
      (∀ (t : Reading) (depth : ℕ), t.registry.table = r.table →
        let ran := (net.visit (depth + 1) (.link id)).run.run t
        (∀ value, t.held? (.link id) = some value → ran = (.ok value, t)) ∧
        (t.held? (.link id) = none →
          (∃ made, ran.2.calls = ⟨id, p.name, ran.1.isOk⟩ :: (made ++ t.calls)) ∧
            (ran.1.isOk = false → ran.2.held? (.link id) = none))) ∧
      (Act.openPasses acts = 0 →
        let asked := s.read ((Query.link id).read net)
        ∃ made, asked.2.calls = ⟨id, p.name, asked.1.isOk⟩ :: (made ++ s.calls)) := by
  intro s
  have hnested : s.IsNested (Act.openPasses acts) := IsNested.run (n := 0) ⟨rfl, rfl⟩ acts
  have htable : s.registry.table = r.table := table_run acts (start g r)
  refine ⟨fun hclosed inside hinside => ?_, ?_⟩
  · rw [hclosed] at hnested
    obtain ⟨memo, memo', made, -, -, hcalls, hpaid⟩ := (hnested.step .openPass).paysUpTo_run hinside
    refine ⟨made, hcalls, fun id => ?_⟩
    exact (Nat.le_of_add_right_le (hpaid id)).trans (memo'.count_le_one _)
  · intro id link params p net hlink hdemand hchoose hsome
    obtain ⟨resolver, hresolver⟩ := Option.isSome_iff_exists.mp hsome
    have hitem : net.itemResolver? (.link id) = some resolver := hresolver
    refine ⟨fun t depth ht => ⟨fun value hheld => ?_, fun hunheld => ?_⟩, fun hclosed => ?_⟩
    · exact Read.run_visit_of_held hitem hheld depth
    · exact Read.exists_calls_of_unheld hitem hlink hdemand ht hchoose hunheld depth
    · rw [hclosed] at hnested
      have hunheld : Reading.held? ⟨s.live.memo?, s.registry, []⟩ (.link id) = none := by
        unfold Reading.held?
        rw [hnested.1]
        rfl
      obtain ⟨⟨made, hmade⟩, -⟩ :=
        Read.exists_calls_of_unheld hitem hlink hdemand htable hchoose hunheld
          s.live.graph.valueCount
      refine ⟨made, ?_⟩
      change ((net.visit (s.live.graph.valueCount + 1) (.link id)).run.run ⟨s.live.memo?, s.registry, []⟩).2.calls ++
        s.calls = _
      rw [hmade, List.append_nil]
      rfl

/-- The registry of a plugin whose first call fails. -/
def hesitantRegistry : Registry :=
  { plugins :=
      [⟨"hesitant", .cell fun calls _ => if calls = 0 then .error .wrongType else .ok (.int 4), 0⟩] }

/-- A graph in which two links and a node depend on what the plugin answers. -/
def hesitantGraph : Graph where
  nodes :=
    [{ bareNode "S" with
        value := .int 10
        outgoing :=
          [⟨"A", .map [(.text "plugin", .text "hesitant")], .null, .null⟩,
            ⟨"B", .text "rest", .null, .null⟩] },
      { bareNode "A" with incoming := [⟨"S", 0⟩] },
      { bareNode "B" with incoming := [⟨"S", 1⟩] }]
  suffix := []
  resolver := some ⟨false⟩

/-- Acts in a pass that come to the link of the plugin four times, in an inner pass as well. -/
def hesitantActs : List Act :=
  [.ask (.link ⟨"S", 0⟩), .ask (.link ⟨"S", 1⟩), .openPass, .ask (.node "A"), .output {} {}, .closePass]

/-- The acts with those that open and close the pass. -/
def hesitantPass : List Act := .openPass :: (hesitantActs ++ [.closePass])

/-- The calls in the pass: the first one fails, so there is a second one, which is answered, and then no
more. -/
def hesitantCalls : List Call :=
  [⟨⟨"S", 0⟩, "hesitant", true⟩, ⟨⟨"S", 0⟩, "hesitant", false⟩]

/-- The first reading of the link in a pass. -/
def firstReading : Except Failure Datum × Reading :=
  (hesitantGraph.network.visit 6 (.link ⟨"S", 0⟩)).run.run ⟨some [], hesitantRegistry, []⟩

/-- After the first reading the link still has no value, and after the whole pass the plugin is called
again. -/
theorem calls_once_per_pass_hesitantGraph :
    Act.openPasses [] = 0 ∧ Act.StayOpen 1 hesitantActs ∧
      (((start hesitantGraph hesitantRegistry).step .openPass).run hesitantActs).calls = hesitantCalls ∧
      answeredCalls ⟨"S", 0⟩ hesitantCalls ≤ 1 ∧
      firstReading.2.calls = [⟨⟨"S", 0⟩, "hesitant", false⟩] ∧
      firstReading.2.held? (.link ⟨"S", 0⟩) = none ∧ Act.openPasses hesitantPass = 0 ∧
      ((start hesitantGraph hesitantRegistry).run hesitantPass).calls = hesitantCalls ∧
      let closed := (start hesitantGraph hesitantRegistry).run hesitantPass
      ∃ answered again, (closed.read ((Query.link ⟨"S", 0⟩).read closed.live.graph.network)).2.calls =
        ⟨⟨"S", 0⟩, "hesitant", answered⟩ :: (again ++ closed.calls) := by
  have hstay : Act.StayOpen 1 hesitantActs := by
    simp [hesitantActs, Act.StayOpen, Act.passes]
  have hmade : (((start hesitantGraph hesitantRegistry).step .openPass).run hesitantActs).calls =
      hesitantCalls := by
    decide +kernel
  have hfirst : firstReading.2.calls = [⟨⟨"S", 0⟩, "hesitant", false⟩] ∧
      firstReading.1.isOk = false := by
    decide +kernel
  obtain ⟨honce, hcalls⟩ := calls_once_per_pass hesitantGraph hesitantRegistry []
  obtain ⟨made, hmade', hone⟩ := honce rfl hesitantActs hstay
  obtain rfl : hesitantCalls = made := hmade.symm.trans (hmade'.trans (List.append_nil _))
  obtain ⟨-, hunheld⟩ := (hcalls ⟨"S", 0⟩ _ _ _ rfl rfl rfl rfl).1 ⟨some [], hesitantRegistry, []⟩ 5 rfl
  refine ⟨rfl, hstay, hmade, hone _, hfirst.1, (hunheld rfl).2 hfirst.2, rfl, by decide +kernel, ?_⟩
  intro closed
  have hgraph : closed.live.graph = hesitantGraph := graph_run hesitantPass _
  obtain ⟨-, hcalls⟩ := calls_once_per_pass hesitantGraph hesitantRegistry hesitantPass
  obtain ⟨again, hanew⟩ := (hcalls ⟨"S", 0⟩ _ _ _
    (congrArg (fun g : Graph => g.network.link? ⟨"S", 0⟩) hgraph) rfl rfl
    (congrArg (fun g : Graph => g.resolver.isSome) hgraph)).2 rfl
  exact ⟨_, again, hanew⟩

end Session

end StockFlow
