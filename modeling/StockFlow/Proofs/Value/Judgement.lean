import StockFlow.Proofs.Value.Demand
/-!
# Judgements on readings

A judgement compares a reading with computations that carry no state, one for every member of a
family. If it passes through returning, failing and going on, then it passes through all ways in
which readings are put together, and so through the step that computes a value
(`Read.Judgement.step`): whatever holds of the readings of the values that an item depends on, holds
of the computation of its own. The rules of this file are this one walk through the definition of a
step; what a judgement is about does not matter to it.
-/

namespace StockFlow.Read

/-- A way to compare readings with families of computations, kept by returning a value, by failing
and by going on. -/
structure Judgement (ι : Type) where
  Holds : {α : Type} → (ι → Except Failure α) → Read α → Prop
  pure : ∀ {α : Type} (a : α), Holds (fun _ => .ok a) (Pure.pure a)
  throw : ∀ {α : Type} (failure : Failure),
    Holds (fun _ => (.error failure : Except Failure α)) (MonadExcept.throw failure)
  bind : ∀ {α β : Type} {e : ι → Except Failure α} {x : Read α}
    {k : ι → α → Except Failure β} {f : α → Read β}, Holds e x →
    (∀ a, Holds (fun i => k i a) (f a)) → Holds (fun i => e i >>= k i) (x >>= f)

namespace Judgement

variable {ι : Type} (J : Judgement ι) {α β : Type}

/-! ## Ways to put readings together -/

/-- An outcome that needs no reading. -/
lemma lift (e : Except Failure α) :
    J.Holds (fun _ => MonadExcept.ofExcept e) (MonadExcept.ofExcept e) := by
  cases e with
  | error failure => exact J.throw failure
  | ok a => exact J.pure a

/-- A reading whose value is converted. -/
lemma map {e : ι → Except Failure α} {x : Read α} (f : α → β) (hx : J.Holds e x) :
    J.Holds (fun i => do return f (← e i)) (do return f (← x)) :=
  J.bind hx fun a => J.pure (f a)

/-- A loop that carries a value along. -/
lemma foldlM {k : ι → β → α → Except Failure β} {f : β → α → Read β}
    (hf : ∀ b a, J.Holds (fun i => k i b a) (f b a)) (b : β) (as : List α) :
    J.Holds (fun i => as.foldlM (k i) b) (as.foldlM f b) := by
  induction as generalizing b with
  | nil => exact J.pure b
  | cons a as ih =>
    simp only [List.foldlM_cons]
    exact J.bind (hf b a) ih

/-- A loop that collects values. -/
lemma mapM {k : ι → α → Except Failure β} {f : α → Read β} (as : List α)
    (hf : ∀ a ∈ as, J.Holds (fun i => k i a) (f a)) :
    J.Holds (fun i => as.mapM (k i)) (as.mapM f) := by
  induction as with
  | nil => exact J.pure []
  | cons a as ih =>
    simp only [List.mapM_cons]
    refine J.bind (hf a List.mem_cons_self) fun b => ?_
    have hrest := ih fun a' ha' => hf a' (List.mem_cons_of_mem a ha')
    exact J.map (b :: ·) hrest

/-- A script, judged by what it reads. -/
lemma script {k : ι → Probe → Except Failure Datum} {f : Probe → Read Datum}
    (hf : ∀ p, J.Holds (fun i => k i p) (f p)) (body : Script) :
    J.Holds (fun i => body.run (k i)) (body.run f) := by
  induction body with
  | answer value => exact J.pure value
  | fail failure => exact J.throw failure
  | read p next ih => exact J.bind (hf p) ih

/-! ## The step that computes a value -/

variable {J} {v : ι → Item → Except Failure Datum} {read : Item → Read Datum}

/-- A sum of links, judged by the links. -/
lemma sumLinks (h : ∀ item, J.Holds (fun i => v i item) (read item)) (ids : List LinkId) :
    J.Holds (fun i => sumLinks (v i) ids) (sumLinks read ids) := by
  unfold StockFlow.sumLinks
  exact J.foldlM (fun total id => J.bind (h (.link id)) fun value => J.lift _) _ ids

/-- What a script reads, judged by the values. -/
lemma probe (net : Network) (h : ∀ item, J.Holds (fun i => v i item) (read item)) (id : LinkId)
    (p : Probe) : J.Holds (fun i => net.probe (v i) id p) (net.probe read id p) := by
  cases p with
  | value place =>
    simp only [Network.probe]
    cases net.nodeAt? id place with
    | some n => exact h _
    | none => exact J.throw _
  | outgoingValue place =>
    simp only [Network.probe]
    cases net.nodeAt? id place with
    | some n => exact J.map _ (sumLinks h _)
    | none => exact J.throw _
  | incomingCount place =>
    simp only [Network.probe]
    cases net.nodeAt? id place with
    | some n => exact J.pure _
    | none => exact J.throw _
  | outgoingCount place =>
    simp only [Network.probe]
    cases net.nodeAt? id place with
    | some n => exact J.pure _
    | none => exact J.throw _
  | incomingLink place position =>
    simp only [Network.probe]
    cases (net.nodeAt? id place).bind fun n => n.incoming[position]? with
    | some entering => exact h _
    | none => exact J.throw _
  | outgoingLink place position =>
    simp only [Network.probe]
    cases (net.nodeAt? id place).bind fun n => n.linkIds[position]? with
    | some leaving => exact h _
    | none => exact J.throw _

/-- The value of a node, judged by the values that it depends on. -/
lemma nodeStep (net : Network) (h : ∀ item, J.Holds (fun i => v i item) (read item))
    (name : Text) : J.Holds (fun i => net.nodeStep (v i) name) (net.nodeStep read name) := by
  unfold Network.nodeStep
  cases net.node? name with
  | none => exact J.throw _
  | some n =>
    cases net.resolver? name with
    | none => exact J.throw _
    | some resolver =>
      cases hdeclared : resolver.declaredNumber? n.value with
      | some number =>
        simp only [hdeclared]
        exact J.pure _
      | none =>
        simp only [hdeclared]
        exact J.map _ (sumLinks h _)

variable {call : LinkId → (Probe → Except Failure Datum) → Entries → Except Failure Datum}
variable {callRead : LinkId → (Probe → Read Datum) → Entries → Read Datum}

/-- The value of a link, judged by the values that it depends on and by the call of its plugin, if
it asks for one. -/
lemma linkStep (net : Network) (h : ∀ item, J.Holds (fun i => v i item) (read item)) (id : LinkId)
    (hcall : ∀ link params, net.link? id = some link → link.demand = .answer params →
      J.Holds (fun i => call id (net.probe (v i) id) params)
        (callRead id (net.probe read id) params)) :
    J.Holds (fun i => net.linkStep call (v i) id) (net.linkStep callRead read id) := by
  simp only [Network.linkStep_eq]
  cases net.node? id.source with
  | none => exact J.throw _
  | some source =>
    cases hlink : net.link? id with
    | none => exact J.throw _
    | some link =>
      dsimp only
      cases hdemand : link.demand with
      | constant value => exact J.pure value
      | answer params => exact hcall link params hlink hdemand
      | rest =>
        refine J.bind (sumLinks h _) fun others => J.bind (h _) fun own => ?_
        exact J.map _ (J.lift _)
      | onward =>
        dsimp only
        cases net.node? link.target with
        | none => exact J.throw _
        | some target => exact J.map _ (sumLinks h _)
      | share percentage => exact J.bind (h _) fun value => J.lift _

/-- The value of an item, judged by the values that it depends on and by the call of its plugin, if
it asks for one. -/
theorem step (net : Network) (h : ∀ item, J.Holds (fun i => v i item) (read item)) (item : Item)
    (hcall : ∀ id link params, item = .link id → net.link? id = some link →
      link.demand = .answer params → J.Holds (fun i => call id (net.probe (v i) id) params)
        (callRead id (net.probe read id) params)) :
    J.Holds (fun i => net.step call (v i) item) (net.step callRead read item) := by
  cases item with
  | node name => exact nodeStep net h name
  | link id => exact linkStep net h id fun link params => hcall id link params rfl

end Judgement

end StockFlow.Read
