import Mathlib.Data.List.Perm.Basic
import StockFlow.Failure
/-!
# Computations that can fail

When a computation in two parts, or one for every member of a list, has a result, and when it fails; and
when two of them, run side by side, have related results or fail alike.
-/

namespace StockFlow.Outcome

variable {ε : Type} {α β γ : Type}

/-- An outcome that is taken over is that outcome. -/
lemma ofExcept_eq (x : Except ε α) : MonadExcept.ofExcept x = x := by
  cases x <;> rfl

/-- A computation in two parts has a result if both parts have. -/
lemma bind_eq_ok_iff {x : Except ε α} {f : α → Except ε β} {b : β} :
    (x >>= f) = .ok b ↔ ∃ a, x = .ok a ∧ f a = .ok b := by
  cases x with
  | error e => simp [bind, Except.bind]
  | ok a => simp [bind, Except.bind]

/-- A computation in two parts fails in the way of the first part, or else in that of the second. -/
lemma bind_eq_error_iff {x : Except ε α} {f : α → Except ε β} {e : ε} :
    (x >>= f) = .error e ↔ x = .error e ∨ ∃ a, x = .ok a ∧ f a = .error e := by
  cases x with
  | error e' => simp [bind, Except.bind]
  | ok a => simp [bind, Except.bind]

/-- A changed result is a result. -/
lemma map_eq_ok_iff {x : Except ε α} {f : α → β} {b : β} :
    f <$> x = .ok b ↔ ∃ a, x = .ok a ∧ f a = b := by
  cases x with
  | error e => simp [Functor.map, Except.map]
  | ok a => simp [Functor.map, Except.map]

/-- What is left of a computation without its failures is its result. -/
lemma toOption_eq_some_iff {x : Except ε α} {a : α} : x.toOption = some a ↔ x = .ok a := by
  cases x with
  | error e => simp [Except.toOption]
  | ok b => simp [Except.toOption]

/-- Renaming failures makes no results and loses none. -/
lemma mapError_eq_ok_iff {ε' : Type} {x : Except ε α} {f : ε → ε'} {a : α} :
    x.mapError f = .ok a ↔ x = .ok a := by
  cases x with
  | error e => simp [Except.mapError]
  | ok b => simp [Except.mapError]

/-- A failure that is left when results are changed has been there before. -/
lemma eq_error_of_map {x : Except ε α} {f : α → β} {e : ε} (h : x.map f = .error e) : x = .error e := by
  cases x with
  | error e' => exact congrArg Except.error (Except.error.inj h)
  | ok a => cases h

lemma isOk_mapError {ε' : Type} (x : Except ε α) (f : ε → ε') : (x.mapError f).isOk = x.isOk := by
  cases x <;> rfl

/-- Collecting results has a result if every computation has. -/
lemma mapM_eq_ok_iff {f : α → Except ε β} {as : List α} {bs : List β} :
    as.mapM f = .ok bs ↔ List.Forall₂ (fun a b => f a = .ok b) as bs := by
  induction as generalizing bs with
  | nil =>
    rw [List.mapM_nil, List.forall₂_nil_left_iff]
    constructor
    · intro h
      cases h
      rfl
    · rintro rfl
      rfl
  | cons a as ih =>
    rw [List.mapM_cons, bind_eq_ok_iff, List.forall₂_cons_left_iff]
    constructor
    · rintro ⟨b, hb, hrest⟩
      obtain ⟨bs', hbs', hpure⟩ := bind_eq_ok_iff.mp hrest
      cases hpure
      exact ⟨b, bs', hb, ih.mp hbs', rfl⟩
    · rintro ⟨b, bs', hb, hbs', rfl⟩
      exact ⟨b, hb, bind_eq_ok_iff.mpr ⟨bs', ih.mpr hbs', rfl⟩⟩

/-- Collecting results has some result if every computation has one. -/
lemma exists_mapM_eq_ok_iff {f : α → Except ε β} {as : List α} :
    (∃ bs, as.mapM f = .ok bs) ↔ ∀ a ∈ as, ∃ b, f a = .ok b := by
  simp only [mapM_eq_ok_iff]
  induction as with
  | nil => exact ⟨fun _ _ h => absurd h List.not_mem_nil, fun _ => ⟨[], .nil⟩⟩
  | cons a as ih =>
    rw [List.forall_mem_cons, ← ih]
    constructor
    · rintro ⟨bs, h⟩
      obtain ⟨b, bs', hb, hbs', -⟩ := List.forall₂_cons_left_iff.mp h
      exact ⟨⟨b, hb⟩, bs', hbs'⟩
    · rintro ⟨⟨b, hb⟩, bs, hbs⟩
      exact ⟨b :: bs, .cons hb hbs⟩

/-- Every collected result is that of some member of the list. -/
lemma exists_of_mem_of_mapM_eq_ok {f : α → Except ε β} {as : List α} {bs : List β}
    (h : as.mapM f = .ok bs) {b : β} (hb : b ∈ bs) : ∃ a ∈ as, f a = .ok b := by
  have hresults := mapM_eq_ok_iff.mp h
  induction hresults with
  | nil => cases hb
  | @cons a b' as bs hab hrest ih =>
    rcases List.mem_cons.mp hb with rfl | hb
    · exact ⟨a, List.mem_cons_self, hab⟩
    · obtain ⟨a', ha', hab'⟩ := ih (mapM_eq_ok_iff.mpr hrest) hb
      exact ⟨a', List.mem_cons_of_mem a ha', hab'⟩

/-- Every member of the list has a collected result. -/
lemma exists_mem_of_mapM_eq_ok {f : α → Except ε β} {as : List α} {bs : List β}
    (h : as.mapM f = .ok bs) {a : α} (ha : a ∈ as) : ∃ b ∈ bs, f a = .ok b := by
  have hresults := mapM_eq_ok_iff.mp h
  clear h
  induction hresults with
  | nil => cases ha
  | @cons a' b as bs hab _ ih =>
    rcases List.mem_cons.mp ha with rfl | ha
    · exact ⟨b, List.mem_cons_self, hab⟩
    · obtain ⟨b', hb', hab'⟩ := ih ha
      exact ⟨b', List.mem_cons_of_mem b hb', hab'⟩

/-- In another order a list has the same results in another order. -/
lemma exists_mapM_of_perm {f : α → Except ε β} {as as' : List α} (h : as.Perm as') {bs : List β}
    (hbs : as.mapM f = .ok bs) : ∃ bs', as'.mapM f = .ok bs' ∧ bs.Perm bs' := by
  obtain ⟨bs', hresults, hperm⟩ := List.perm_comp_forall₂ h.symm (mapM_eq_ok_iff.mp hbs)
  exact ⟨bs', mapM_eq_ok_iff.mpr hresults, hperm.symm⟩

/-- A list of computations fails in the way of one of them. -/
lemma exists_of_mapM_eq_error {f : α → Except ε β} {as : List α} {e : ε}
    (h : as.mapM f = .error e) : ∃ a ∈ as, f a = .error e := by
  induction as with
  | nil => cases h
  | cons a as ih =>
    rw [List.mapM_cons] at h
    cases ha : f a with
    | error e' =>
      rw [ha] at h
      cases h
      exact ⟨a, List.mem_cons_self, ha⟩
    | ok b =>
      rw [ha] at h
      cases has : as.mapM f with
      | error e' =>
        simp only [has, bind, Except.bind] at h
        cases h
        obtain ⟨a', ha', hfa'⟩ := ih has
        exact ⟨a', List.mem_cons_of_mem a ha', hfa'⟩
      | ok bs =>
        simp only [has, bind, Except.bind] at h
        cases h

/-- Computations that are the same for all members of a list have the same results. -/
lemma mapM_congr {f g : α → Except ε β} {as : List α} (h : ∀ a ∈ as, f a = g a) :
    as.mapM f = as.mapM g := by
  induction as with
  | nil => rfl
  | cons a as ih =>
    rw [List.forall_mem_cons] at h
    rw [List.mapM_cons, List.mapM_cons, h.1, ih h.2]

/-- Going on with every one of some results is one computation for every member of the list that
they come from. -/
lemma mapM_bind {f : α → Except ε β} {as : List α} {bs : List β} (h : as.mapM f = .ok bs)
    (g : β → Except ε γ) : as.mapM (fun a => f a >>= g) = bs.mapM g := by
  induction as generalizing bs with
  | nil =>
    cases h
    rfl
  | cons a as ih =>
    rw [List.mapM_cons, bind_eq_ok_iff] at h
    obtain ⟨b, hb, hrest⟩ := h
    obtain ⟨bs', hbs', hpure⟩ := bind_eq_ok_iff.mp hrest
    cases hpure
    rw [List.mapM_cons, List.mapM_cons, hb, ih hbs']
    rfl

/-- What every result has to do with its member, the results have to do with the members in pairs. -/
lemma forall₂_of_mapM_eq_ok {f : α → Except ε β} {P : α → β → Prop} {as : List α} {bs : List β}
    (h : as.mapM f = .ok bs) (hf : ∀ a ∈ as, ∀ b, f a = .ok b → P a b) : List.Forall₂ P as bs := by
  have hresults := mapM_eq_ok_iff.mp h
  clear h
  induction hresults with
  | nil => exact .nil
  | cons hab _ ih =>
    rw [List.forall_mem_cons] at hf
    exact .cons (hf.1 _ hab) (ih hf.2)

/-- Changed computations for changed members have changed results. -/
lemma mapM_map_eq_ok {α' β' : Type} {f : α → Except ε β} {f' : α' → Except ε β'} {p : α → α'}
    {q : β → β'} {as : List α} {bs : List β} (h : as.mapM f = .ok bs)
    (hf : ∀ a ∈ as, ∀ b, f a = .ok b → f' (p a) = .ok (q b)) :
    (as.map p).mapM f' = .ok (bs.map q) := by
  rw [mapM_eq_ok_iff, List.forall₂_map_left_iff, List.forall₂_map_right_iff]
  exact forall₂_of_mapM_eq_ok h hf

/-- Lists of computations that follow from the results of other ones, one list after the other. -/
lemma mapM_flatMap_eq_ok {γ' : Type} {f : α → Except ε β} {f' : γ → Except ε γ'}
    {p : α → List γ} {q : β → List γ'} {as : List α} {bs : List β} (h : as.mapM f = .ok bs)
    (hf : ∀ a ∈ as, ∀ b, f a = .ok b → (p a).mapM f' = .ok (q b)) :
    (as.flatMap p).mapM f' = .ok (bs.flatMap q) := by
  have hgroups := forall₂_of_mapM_eq_ok h hf
  rw [mapM_eq_ok_iff]
  clear h hf
  induction hgroups with
  | nil => exact .nil
  | cons hgroup _ ih =>
    rw [List.flatMap_cons, List.flatMap_cons]
    exact List.rel_append (mapM_eq_ok_iff.mp hgroup) ih

/-- What is collected out of results is collected where the results are all that there is. -/
lemma mapM_eq_some_of_mapM_eq_ok {f : α → Except ε β} {g : α → Option β}
    (h : ∀ a b, f a = .ok b → g a = some b) {as : List α} {bs : List β} (hbs : as.mapM f = .ok bs) :
    as.mapM g = some bs := by
  rw [mapM_eq_ok_iff] at hbs
  induction hbs with
  | nil => rfl
  | cons hfirst _ ih =>
    rw [List.mapM_cons, h _ _ hfirst, ih]
    rfl

/-- Collecting lists of results of two lists. -/
lemma flatten_mapM_append {f : α → Except ε (List β)} {as as' : List α} {bs cs : List β}
    (h : List.flatten <$> as.mapM f = .ok bs) (h' : List.flatten <$> as'.mapM f = .ok cs) :
    List.flatten <$> (as ++ as').mapM f = .ok (bs ++ cs) := by
  obtain ⟨lists, hlists, rfl⟩ := map_eq_ok_iff.mp h
  obtain ⟨lists', hlists', rfl⟩ := map_eq_ok_iff.mp h'
  rw [List.mapM_append, hlists, hlists', ← List.flatten_append]
  rfl

/-- Counting in blocks: a computation for every number below a product is one for every block and
every place in it. -/
lemma mapM_range_mul (n k : Nat) (f : Nat → Nat → Except ε β) :
    (List.range (n * k)).mapM (fun x => f (x % n) (x / n)) =
      List.flatten <$>
        (List.range k).mapM fun block => (List.range n).mapM fun place => f place block := by
  induction k with
  | zero => rfl
  | succ k ih =>
    have hlast : ((List.range n).map (n * k + ·)).mapM (fun x => f (x % n) (x / n)) =
        (List.range n).mapM fun place => f place k := by
      rw [List.mapM_map]
      refine mapM_congr fun place hplace => ?_
      have hlt : place < n := List.mem_range.mp hplace
      dsimp only [Function.comp_apply]
      rw [Nat.mul_add_mod, Nat.mod_eq_of_lt hlt, Nat.mul_add_div (by omega),
        Nat.div_eq_of_lt hlt, Nat.add_zero]
    rw [Nat.mul_succ, List.range_add, List.mapM_append, ih, hlast, List.range_succ,
      List.mapM_append]
    simp

/-! ## Ways to fail -/

/-- A computation fails only in the given ways. -/
def FailsIn (S : ε → Prop) (x : Except ε α) : Prop := ∀ e, x = .error e → S e

section FailsIn

variable {S : ε → Prop}

@[simp]
lemma failsIn_ok (a : α) : FailsIn S (.ok a) := fun _ h => by cases h

@[simp]
lemma failsIn_pure (a : α) : FailsIn S (pure a) := failsIn_ok a

@[simp]
lemma failsIn_error_iff {e : ε} : FailsIn S (.error e : Except ε α) ↔ S e := by
  constructor
  · intro h
    exact h e rfl
  · intro h e' he'
    cases he'
    exact h

@[simp]
lemma failsIn_throw_iff {e : ε} : FailsIn S (throw e : Except ε α) ↔ S e := failsIn_error_iff

@[simp]
lemma failsIn_bind_iff {x : Except ε α} {f : α → Except ε β} :
    FailsIn S (x >>= f) ↔ FailsIn S x ∧ ∀ a, x = .ok a → FailsIn S (f a) := by
  constructor
  · intro h
    refine ⟨fun e he => ?_, fun a ha e he => ?_⟩
    · exact h e (bind_eq_error_iff.mpr (.inl he))
    · exact h e (bind_eq_error_iff.mpr (.inr ⟨a, ha, he⟩))
  · rintro ⟨hx, hf⟩ e he
    rcases bind_eq_error_iff.mp he with hfirst | ⟨a, ha, hsecond⟩
    · exact hx e hfirst
    · exact hf a ha e hsecond

@[simp]
lemma failsIn_map_iff {x : Except ε α} {f : α → β} : FailsIn S (f <$> x) ↔ FailsIn S x := by
  cases x with
  | error e => exact failsIn_error_iff.trans failsIn_error_iff.symm
  | ok a => exact iff_of_true (failsIn_ok (f a)) (failsIn_ok a)

@[simp]
lemma failsIn_ite_iff {c : Prop} [Decidable c] {x y : Except ε α} :
    FailsIn S (if c then x else y) ↔ (c → FailsIn S x) ∧ (¬c → FailsIn S y) := by
  split
  · next hc => exact ⟨fun h => ⟨fun _ => h, absurd hc⟩, fun h => h.1 hc⟩
  · next hc => exact ⟨fun h => ⟨fun h' => absurd h' hc, fun _ => h⟩, fun h => h.2 hc⟩

/-- A list of computations fails in the ways of its members. -/
lemma failsIn_mapM {f : α → Except ε β} {as : List α} (h : ∀ a ∈ as, FailsIn S (f a)) :
    FailsIn S (as.mapM f) := by
  intro e he
  obtain ⟨a, ha, hfail⟩ := exists_of_mapM_eq_error he
  exact h a ha e hfail

/-- A fold fails in the ways of its steps. -/
lemma failsIn_foldlM {f : β → α → Except ε β} {as : List α} (h : ∀ b, ∀ a ∈ as, FailsIn S (f b a))
    (b : β) : FailsIn S (as.foldlM f b) := by
  induction as generalizing b with
  | nil => exact failsIn_pure b
  | cons a as ih =>
    rw [List.foldlM_cons, failsIn_bind_iff]
    refine ⟨h b a List.mem_cons_self, fun b' _ => ih (fun b a ha => ?_) b'⟩
    exact h b a (List.mem_cons_of_mem _ ha)

end FailsIn

/-- A computation has a result of a given sort, or fails in one of the given ways. -/
def Meets (P : α → Prop) (S : ε → Prop) : Except ε α → Prop
  | .ok a => P a
  | .error e => S e

section Meets

variable {P P' : α → Prop} {Q : β → Prop} {S : ε → Prop}

lemma meets_ok {a : α} (h : P a) : Meets P S (.ok a) := h

lemma meets_error {e : ε} (h : S e) : Meets P S (.error e) := h

lemma Meets.failsIn {x : Except ε α} (h : Meets P S x) : FailsIn S x := by
  intro e he
  rw [he] at h
  exact h

lemma Meets.mono {S' : ε → Prop} {x : Except ε α} (h : Meets P S x) (hP : ∀ a, P a → P' a)
    (hS : ∀ e, S e → S' e) : Meets P' S' x := by
  cases x with
  | error e => exact hS e h
  | ok a => exact hP a h

/-- What follows a computation starts from a result of its sort. -/
lemma Meets.bind {x : Except ε α} {f : α → Except ε β} (hx : Meets P S x)
    (hf : ∀ a, P a → Meets Q S (f a)) : Meets Q S (x >>= f) := by
  cases x with
  | error e => exact hx
  | ok a => exact hf a hx

end Meets

/-! ## Computations on a state -/

/-- From a state with an invariant a computation comes to a state with it, or it fails in one of the
given ways. -/
def Keeps {σ : Type} (I : σ → Prop) (S : ε → Prop) (x : StateT σ (Except ε) α) : Prop :=
  ∀ s, I s → Meets (fun result => I result.2) S (x.run s)

section Keeps

variable {σ : Type} {I : σ → Prop} {S : ε → Prop}

lemma keeps_pure (a : α) : Keeps I S (pure a) := fun _ hs => hs

lemma keeps_get : Keeps I S get := fun _ hs => hs

lemma keeps_set {s : σ} (h : I s) : Keeps I S (set s) := fun _ _ => h

lemma keeps_modify {f : σ → σ} (h : ∀ s, I s → I (f s)) : Keeps I S (modify f) := h

lemma keeps_throw {e : ε} (h : S e) : Keeps I S (throw e : StateT σ (Except ε) α) := fun _ _ => h

lemma keeps_throw_bind {e : ε} (h : S e) (f : α → StateT σ (Except ε) β) :
    Keeps I S (throw e >>= f) :=
  fun _ _ => h

/-- A computation that leaves the state alone. -/
lemma keeps_lift {x : Except ε α} (h : FailsIn S x) : Keeps I S (liftM x) := by
  intro s hs
  cases x with
  | error e => exact h e rfl
  | ok a => exact hs

lemma Keeps.bind {x : StateT σ (Except ε) α} {f : α → StateT σ (Except ε) β} (hx : Keeps I S x)
    (hf : ∀ a, Keeps I S (f a)) : Keeps I S (x >>= f) :=
  fun s hs => (hx s hs).bind fun result hresult => hf result.1 result.2 hresult

/-- What follows may use that the state has the invariant. -/
lemma keeps_get_bind {f : σ → StateT σ (Except ε) β} (hf : ∀ s, I s → Keeps I S (f s)) :
    Keeps I S (get >>= f) :=
  fun s hs => hf s hs s hs

/-- What follows may use of which sort the result is. -/
lemma keeps_lift_bind {P : α → Prop} {x : Except ε α} {f : α → StateT σ (Except ε) β}
    (h : Meets P S x) (hf : ∀ a, P a → Keeps I S (f a)) : Keeps I S (liftM x >>= f) := by
  intro s hs
  cases x with
  | error e => exact h
  | ok a => exact hf a h s hs

lemma keeps_mapM {f : α → StateT σ (Except ε) β} {as : List α} (h : ∀ a ∈ as, Keeps I S (f a)) :
    Keeps I S (as.mapM f) := by
  induction as with
  | nil => exact keeps_pure _
  | cons a as ih =>
    rw [List.forall_mem_cons] at h
    rw [List.mapM_cons]
    exact h.1.bind fun b => (ih h.2).bind fun bs => keeps_pure _

lemma keeps_foldlM {f : β → α → StateT σ (Except ε) β} (h : ∀ b a, Keeps I S (f b a)) (as : List α)
    (b : β) : Keeps I S (as.foldlM f b) := by
  induction as generalizing b with
  | nil => exact keeps_pure _
  | cons a as ih =>
    rw [List.foldlM_cons]
    exact (h b a).bind fun b => ih b

lemma keeps_forM {f : α → StateT σ (Except ε) PUnit} (h : ∀ a, Keeps I S (f a)) (as : List α) :
    Keeps I S (as.forM f) := by
  induction as with
  | nil => exact keeps_pure _
  | cons a as ih => exact (h a).bind fun _ => ih

end Keeps

/-! ## Outcomes side by side -/

/-- Outcomes that are related results or failures of one kind. What fails in an excused way is alike with
anything. -/
inductive Alike (excused : Failure → Prop) (R : α → β → Prop) :
    Except Failure α → Except Failure β → Prop where
  | ok {a : α} {b : β} (h : R a b) : Alike excused R (.ok a) (.ok b)
  | error {e e' : Failure} (h : e.kind = e'.kind) : Alike excused R (.error e) (.error e')
  | left {e : Failure} (h : excused e) (x' : Except Failure β) : Alike excused R (.error e) x'
  | right {e : Failure} (h : excused e) (x : Except Failure α) : Alike excused R x (.error e)

namespace Alike

variable {excused : Failure → Prop} {R : α → β → Prop} {x : Except Failure α} {x' : Except Failure β}

/-- An outcome is alike with itself. -/
lemma refl {R : α → α → Prop} (hR : ∀ a, R a a) (x : Except Failure α) : Alike excused R x x := by
  cases x with
  | error e => exact .error rfl
  | ok a => exact .ok (hR a)

/-- What follows for the results of related computations may use that they are their results. -/
lemma imp_of_eq_ok {S : α → β → Prop} (h : Alike excused R x x')
    (hS : ∀ a b, x = .ok a → x' = .ok b → R a b → S a b) : Alike excused S x x' := by
  cases h with
  | ok h => exact .ok (hS _ _ rfl rfl h)
  | error h => exact .error h
  | left h x' => exact .left h x'
  | right h x => exact .right h x

/-- Going on alike from outcomes that are alike gives outcomes that are alike. -/
lemma bind {α' β' : Type} {S : α' → β' → Prop} {f : α → Except Failure α'} {f' : β → Except Failure β'}
    (h : Alike excused R x x') (hf : ∀ a b, R a b → Alike excused S (f a) (f' b)) :
    Alike excused S (x >>= f) (x' >>= f') := by
  cases h with
  | ok h => exact hf _ _ h
  | error h => exact .error h
  | left h x' => exact .left h _
  | right h x => exact .right h _

/-- Changed alike, outcomes stay alike. -/
lemma map {α' β' : Type} {S : α' → β' → Prop} {f : α → α'} {f' : β → β'} (h : Alike excused R x x')
    (hf : ∀ a b, R a b → S (f a) (f' b)) : Alike excused S (f <$> x) (f' <$> x') := by
  cases h with
  | ok h => exact .ok (hf _ _ h)
  | error h => exact .error h
  | left h x' => exact .left h _
  | right h x => exact .right h _

/-- Lists of computations that are alike in pairs are alike, since the first failure of the one is at the
place of the first failure of the other. -/
lemma mapM {α' β' : Type} {S : α' → β' → Prop} {f : α → Except Failure α'}
    {f' : β → Except Failure β'} {as : List α} {bs : List β}
    (h : List.Forall₂ (fun a b => Alike excused S (f a) (f' b)) as bs) :
    Alike excused (List.Forall₂ S) (as.mapM f) (bs.mapM f') := by
  induction h with
  | nil => exact .ok .nil
  | cons hab _ ih =>
    rw [List.mapM_cons, List.mapM_cons]
    exact hab.bind fun a' b' ha => ih.bind fun as' bs' has => .ok (.cons ha has)

/-- Results of computations that are alike are related. -/
lemma exists_ok (h : Alike excused R x x') (hx : x.isOk) (hx' : x'.isOk) :
    ∃ a b, x = .ok a ∧ x' = .ok b ∧ R a b := by
  cases h with
  | ok h => exact ⟨_, _, rfl, rfl, h⟩
  | error h => cases hx
  | left h x' => cases hx
  | right h x => cases hx'

/-- Where nothing is excused, computations that are alike both have results or fail with one kind of
failure. -/
lemma mapError_kind_eq (h : Alike (fun _ => False) R x x') :
    (x.map fun _ => ()).mapError Failure.kind = (x'.map fun _ => ()).mapError Failure.kind := by
  cases h with
  | ok h => rfl
  | error h => exact congrArg Except.error h
  | left h x' => exact h.elim
  | right h x => exact h.elim

end Alike

/-! ## Options and lists side by side -/

/-- Going on alike from related options gives related options. -/
lemma rel_option_bind {α' β' : Type} {R : α → β → Prop} {S : α' → β' → Prop} {o : Option α}
    {o' : Option β} {f : α → Option α'} {f' : β → Option β'} (h : Option.Rel R o o')
    (hf : ∀ a b, R a b → Option.Rel S (f a) (f' b)) : Option.Rel S (o.bind f) (o'.bind f') := by
  cases h with
  | none => exact .none
  | some h => exact hf _ _ h

/-- Lists that are related in pairs have related members at every place. -/
lemma rel_getElem? {R : α → β → Prop} {as : List α} {bs : List β} (h : List.Forall₂ R as bs) (i : ℕ) :
    Option.Rel R as[i]? bs[i]? := by
  induction h generalizing i with
  | nil => exact .none
  | cons hab _ ih =>
    cases i with
    | zero => exact .some hab
    | succ i => exact ih i

/-- What holds of all members of two lists holds of the members in pairs. -/
lemma forall₂_and {R : α → β → Prop} {P : α → Prop} {Q : β → Prop} {as : List α} {bs : List β}
    (h : List.Forall₂ R as bs) (has : ∀ a ∈ as, P a) (hbs : ∀ b ∈ bs, Q b) :
    List.Forall₂ (fun a b => R a b ∧ P a ∧ Q b) as bs := by
  induction h with
  | nil => exact .nil
  | cons hab _ ih =>
    rw [List.forall_mem_cons] at has hbs
    exact .cons ⟨hab, has.1, hbs.1⟩ (ih has.2 hbs.2)

end StockFlow.Outcome
