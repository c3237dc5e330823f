import StockFlow.Proofs.Value.Bounds
import StockFlow.Proofs.Value.Judgement
/-!
# Bounds of a step

Computing the value of an item needs the values that it depends on, and the answer of a plugin. If
the readings of those values lie between outcomes, then so does the computation, between what a step
makes of the lower outcomes and what it makes of the higher ones (`Read.Between.step`). For plugins
this needs that they are *pure*: that a plugin answers the same to the same parameters and values,
however often it has been called. Only the plugins that links ask for matter, so nothing is needed
where no link asks for one.
-/

namespace StockFlow

/-! ## Pure plugins -/

/-- Whether a plugin answers the same to the same parameters and values, however often it has been
called. -/
def Plugin.IsPure : Plugin → Prop
  | .script _ => True
  | .cell answer => ∀ m n params, answer m params = answer n params

/-- Whether all plugins of a registry are pure. -/
def Registry.IsPure (r : Registry) : Prop :=
  ∀ p ∈ r.plugins, p.plugin.IsPure

/-- Whether the plugins that the links of a network ask for are pure. -/
def Registry.IsPureFor (r : Registry) (net : Network) : Prop :=
  ∀ id link params p, net.link? id = some link → link.demand = .answer params →
    r.choose params = .ok p → p.plugin.IsPure

/-- What the plugin that parameters name answers for a link, given the values that it reads. -/
def Registry.answer (r : Registry) (_ : LinkId) (read : Probe → Except Failure Datum)
    (params : Entries) : Except Failure Datum :=
  Except.mapError Failure.forLink do
    let p ← r.choose params
    match p.plugin with
    | .script body => (body params).run read
    | .cell answer => answer p.calls params

/-- What is noted when parameters have asked for a plugin: the call, unless they name no plugin. -/
def Registry.noted (r : Registry) (id : LinkId) (params : Entries) (answered : Bool) : List Call :=
  match r.choose params with
  | .ok p => [⟨id, p.name, answered⟩]
  | .error _ => []

/-- A plugin that is chosen is registered. -/
lemma Registry.mem_of_choose_eq_ok {r : Registry} {params : Entries} {p : Registered}
    (h : r.choose params = .ok p) : p ∈ r.plugins := by
  unfold choose at h
  split at h
  · split at h
    · cases h
    · split at h
      · next hfind =>
        cases h
        exact List.mem_of_find?_eq_some hfind
      · cases h
  · split at h
    · cases h
    · split at h
      · split at h <;> cases h
      · cases h

/-- If all plugins are pure, then so are those that links ask for. -/
lemma Registry.IsPure.isPureFor {r : Registry} (hr : r.IsPure) (net : Network) :
    r.IsPureFor net :=
  fun _ _ _ p _ _ hp => hr p (mem_of_choose_eq_ok hp)

/-- Where no link has a plugin value, no plugin matters. -/
lemma Registry.isPureFor_of_forall_ne (r : Registry) {net : Network}
    (h : ∀ id link, net.link? id = some link → classify link.value ≠ .plugin) :
    r.IsPureFor net :=
  fun id link _ _ hlink hdemand _ =>
    absurd (Link.demand_eq_answer_iff.mp hdemand).1 (h id link hlink)

/-- Registries with the same table choose the same plugin under the same name. -/
lemma Registry.exists_choose_of_table_eq {r r' : Registry} (h : r.table = r'.table)
    {params : Entries} {p : Registered} (hp : r.choose params = .ok p) :
    ∃ p', r'.choose params = .ok p' ∧ p'.name = p.name ∧ p'.plugin = p.plugin := by
  have hmap := choose_of_table_eq h params
  rw [hp] at hmap
  cases hp' : r'.choose params with
  | error failure => simp [hp', Except.map] at hmap
  | ok p' =>
    simp only [hp', Except.map, Except.ok.injEq, Prod.mk.injEq] at hmap
    exact ⟨p', rfl, hmap.1.symm, hmap.2.symm⟩

/-- Registries with the same table fail to choose in the same way. -/
lemma Registry.choose_eq_error_of_table_eq {r r' : Registry} (h : r.table = r'.table)
    {params : Entries} {failure : Failure} (hp : r.choose params = .error failure) :
    r'.choose params = .error failure := by
  have hmap := choose_of_table_eq h params
  rw [hp] at hmap
  cases hp' : r'.choose params with
  | error failure' => simpa [hp', Except.map, eq_comm] using hmap
  | ok p' => simp [hp', Except.map] at hmap

/-! ## Bounds of a step -/

namespace Read.Between

variable {r : Registry} {truth : Item → Except Failure Datum}

/-- Bounds are a judgement, with a lower and an upper computation. -/
def judgement (r : Registry) (truth : Item → Except Failure Datum) : Judgement Bool where
  Holds e x := Between r truth (e false) (e true) x
  pure := pure
  throw := throw
  bind hx hf := hx.bind hf

/-- Calling a plugin: the choice, the count of the call, and the answer. -/
lemma run_callPlugin (read : Probe → Read Datum) (params : Entries) (s : Reading) :
    (callPlugin read params).run.run s =
      match s.registry.choose params with
      | .error failure => (.error failure, s)
      | .ok p =>
        (match p.plugin with
          | .script body => (body params).run read
          | .cell answer => Read.ofExcept (answer p.calls params)).run.run
          { s with registry := s.registry.countCall p.name } := by
  change (Read.ofExcept (s.registry.choose params) >>= _ : Read Datum).run.run s = _
  cases s.registry.choose params with
  | error failure => rfl
  | ok p => rcases p with ⟨name, body | answer, calls⟩ <;> rfl

/-- Noting a call changes nothing else. -/
lemma run_noteCall (id : LinkId) (params : Entries) (answered : Bool) (s : Reading) :
    (noteCall id params answered).run.run s =
      (.ok (), { s with calls := s.registry.noted id params answered ++ s.calls }) := by
  unfold noteCall Registry.noted
  rw [run_modify]
  cases s.registry.choose params <;> rfl

/-- The answer to a call for a link is that of the plugin, and besides the call is noted. -/
lemma run_callForLink (id : LinkId) (read : Probe → Read Datum) (params : Entries) (s : Reading) :
    (callForLink id read params).run.run s =
      (((callPlugin read params).run.run s).1.mapError Failure.forLink,
        { ((callPlugin read params).run.run s).2 with
          calls := ((callPlugin read params).run.run s).2.registry.noted id params
              ((callPlugin read params).run.run s).1.isOk ++
            ((callPlugin read params).run.run s).2.calls }) := by
  unfold callForLink
  rw [run_bind, run_attempt]
  rcases (callPlugin read params).run.run s with ⟨failure | value, s'⟩
  · change (noteCall id params false >>= fun _ => _ : Read Datum).run.run s' = _
    rw [run_bind, run_noteCall]
    rfl
  · change (noteCall id params true >>= fun _ => _ : Read Datum).run.run s' = _
    rw [run_bind, run_noteCall]
    rfl

variable {low high : Probe → Except Failure Datum} {read : Probe → Read Datum}

/-- A pure plugin keeps the bounds of what it reads. -/
lemma callForLink (h : ∀ p, Between r truth (low p) (high p) (read p)) (id : LinkId)
    {params : Entries} (hr : ∀ p, r.choose params = .ok p → p.plugin.IsPure) :
    Between r truth (r.answer id low params) (r.answer id high params)
      (StockFlow.callForLink id read params) := by
  intro s hs
  rw [run_callForLink, run_callPlugin]
  unfold Registry.answer
  cases hchoose : s.registry.choose params with
  | error failure =>
    rw [Registry.choose_eq_error_of_table_eq hs.table hchoose]
    exact ⟨⟨hs.table, hs.memo⟩, .refl _, .refl _⟩
  | ok p =>
    obtain ⟨⟨name', plugin', count'⟩, hp', -, hplugin⟩ :=
      Registry.exists_choose_of_table_eq hs.table hchoose
    have hpure : plugin'.IsPure := hr _ hp'
    have hcounted : Reading.IsSound { s with registry := s.registry.countCall p.name } r truth :=
      ⟨(Registry.table_countCall _ _).trans hs.table, hs.memo⟩
    rw [hp']
    obtain ⟨name, plugin, count⟩ := p
    obtain rfl : plugin' = plugin := hplugin
    cases plugin' with
    | script body =>
      have hbody := (judgement r truth).script (k := fun upper => bif upper then high else low) h
        (body params)
      obtain ⟨hs', hl, hh⟩ := hbody _ hcounted
      exact ⟨⟨hs'.table, hs'.memo⟩, hl.mapError rfl, hh.mapError rfl⟩
    | cell answer =>
      -- the count in the state is not that of the registry, and purity says that it does not matter
      have hanswer : answer count' params = answer count params := hpure _ _ _
      have hcell : Between r truth _ _ (Read.ofExcept (answer count params)) := ofExcept _
      obtain ⟨hs', hl, hh⟩ := hcell _ hcounted
      refine ⟨⟨hs'.table, hs'.memo⟩, ?_, ?_⟩
      · change Approximates (Except.mapError Failure.forLink (answer count' params)) _
        rw [hanswer]
        exact hl.mapError rfl
      · change Approximates _ (Except.mapError Failure.forLink (answer count' params))
        rw [hanswer]
        exact hh.mapError rfl

variable {low high : Item → Except Failure Datum} {read : Item → Read Datum}

/-- A sum of links has the bounds of the links. -/
lemma sumLinks (h : ∀ item, Between r truth (low item) (high item) (read item))
    (ids : List LinkId) :
    Between r truth (sumLinks low ids) (sumLinks high ids) (sumLinks read ids) :=
  Judgement.sumLinks (J := judgement r truth) (v := fun upper => bif upper then high else low) h ids

/-- The value of an item has the bounds of the values that it depends on. -/
lemma step {net : Network} (hr : r.IsPureFor net)
    (h : ∀ item, Between r truth (low item) (high item) (read item)) (item : Item) :
    Between r truth (net.step r.answer low item) (net.step r.answer high item)
      (net.step StockFlow.callForLink read item) := by
  refine Judgement.step (J := judgement r truth)
    (v := fun upper => bif upper then high else low) net h item ?_
  intro id link params _ hlink hdemand
  have hprobe := Judgement.probe (J := judgement r truth)
    (v := fun upper => bif upper then high else low) net h id
  exact callForLink hprobe id fun p hp => hr id link params p hlink hdemand hp

end Read.Between

end StockFlow
