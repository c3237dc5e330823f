import Mathlib.Algebra.BigOperators.Group.List.Basic
import Mathlib.Data.List.GetD
import StockFlow.Proofs.Sheet.Outline
/-!
# Choices of alternatives

A declaration whose value has alternatives stands for one declaration for each of them. The choices
for a list of declarations are numbered, and a number, read with the numbers of alternatives as bases
and the first declaration as the least digit, is the choice (`Builder.variant`).

The invariant of adding declarations is that the collections held so far are, in the order of their
numbers, what becomes of the first ones under each choice (`Builder.addAll_eq_iff`).
-/

namespace StockFlow

namespace Collection

/-- A collection under another suffix. -/
def withSuffix (c : Collection) (suffix : Text) : Collection := { c with suffix }

/-- Adding a declaration keeps the suffix. -/
lemma add_withSuffix (c : Collection) (suffix : Text) (d : Datum) :
    (c.withSuffix suffix).add d = (withSuffix · suffix) <$> c.add d := by
  unfold add
  cases declaredName d with
  | error failure => rfl
  | ok name =>
    have hfind : (c.withSuffix suffix).find? name = c.find? name := rfl
    simp only [bind, Except.bind]
    rw [hfind]
    cases c.find? name with
    | none => rfl
    | some existing =>
      dsimp only
      cases declaredFields d with
      | error failure => rfl
      | ok fields =>
        dsimp only
        cases declaredLinks fields with
        | error failure => rfl
        | ok further =>
          dsimp only
          cases mergeLinks existing.declaration further with
          | error failure => rfl
          | ok merged => rfl

/-- Adding declarations keeps the suffix. -/
lemma foldlM_add_withSuffix (ds : List Datum) (c : Collection) (suffix : Text) :
    ds.foldlM add (c.withSuffix suffix) = (withSuffix · suffix) <$> ds.foldlM add c := by
  induction ds generalizing c with
  | nil => rfl
  | cons d ds ih =>
    rw [List.foldlM_cons, List.foldlM_cons, add_withSuffix]
    cases c.add d with
    | error failure => rfl
    | ok added => exact ih added

end Collection

namespace Builder

/-! ## Choices -/

/-- The alternatives of a declaration, if it is a mapping that has some. -/
def alternativesOf (d : Datum) : Option (List Text) := alternatives? (d.fields?.getD [])

/-- The number of ways to choose the value of a declaration. -/
def choiceCount (d : Datum) : Nat :=
  match alternativesOf d with
  | none => 1
  | some parts => parts.length

/-- The number of ways to choose the values of declarations. -/
def variantTotal (ds : List Datum) : Nat := ((ds.filterMap alternativesOf).map List.length).prod

/-- A declaration with the value that the least digit of a number chooses. -/
def chosen (d : Datum) (number : Nat) : Datum :=
  match alternativesOf d with
  | none => d
  | some parts => withValue d (parts.getD (number % parts.length) "")

/-- What the choice of the value of a declaration adds to a suffix. -/
def chosenSuffix (separator : Text) (d : Datum) (number : Nat) : Text :=
  match alternativesOf d with
  | none => ""
  | some parts => separator ++ parts.getD (number % parts.length) ""

/-- Declarations with the values that the digits of a number choose. -/
def variant : List Datum → Nat → List Datum
  | [], _ => []
  | d :: ds, number => chosen d number :: variant ds (number / choiceCount d)

/-- The suffix that tells the choice of the digits of a number. -/
def variantSuffix (separator : Text) : List Datum → Nat → Text
  | [], _ => ""
  | d :: ds, number =>
    chosenSuffix separator d number ++ variantSuffix separator ds (number / choiceCount d)

/-- A declaration with alternatives has at least one. -/
lemma alternatives?_ne_nil {fields : Entries} {parts : List Text}
    (h : alternatives? fields = some parts) : parts ≠ [] := by
  unfold alternatives? at h
  split at h
  · split at h
    · cases h
      unfold splitAlternatives
      rw [ne_eq, List.map_eq_nil_iff]
      exact splitBars_ne_nil _
    · cases h
  · cases h

/-- There is some choice for every declaration. -/
lemma choiceCount_pos (d : Datum) : 0 < choiceCount d := by
  unfold choiceCount
  cases h : alternativesOf d with
  | none => exact Nat.one_pos
  | some parts => exact List.length_pos_iff.mpr (alternatives?_ne_nil h)

/-- The choices for a declaration multiply those for the others. -/
lemma variantTotal_cons (d : Datum) (ds : List Datum) :
    variantTotal (d :: ds) = choiceCount d * variantTotal ds := by
  unfold variantTotal choiceCount
  rw [List.filterMap_cons]
  cases alternativesOf d with
  | none => rw [Nat.one_mul]
  | some parts => rw [List.map_cons, List.prod_cons]

/-- There is some choice for all declarations. -/
lemma variantTotal_pos (ds : List Datum) : 0 < variantTotal ds := by
  induction ds with
  | nil => exact Nat.one_pos
  | cons d ds ih =>
    rw [variantTotal_cons]
    exact Nat.mul_pos (choiceCount_pos d) ih

/-! ## Adding declarations under a choice -/

/-- Adds a declaration with the value that the least digit of a number chooses. -/
def grow (separator : Text) (d : Datum) (number : Nat) (c : Collection) :
    Except Failure Collection := do
  let added ← c.add (chosen d number)
  return added.withSuffix (c.suffix ++ chosenSuffix separator d number)

/-- Adds declarations with the values that the digits of a number choose. -/
def growAll (separator : Text) : List Datum → Nat → Collection → Except Failure Collection
  | [], _, c => .ok c
  | d :: ds, number, c => do growAll separator ds (number / choiceCount d) (← grow separator d number c)

/-- A declaration without alternatives is added as it is. -/
lemma grow_of_eq_none {separator : Text} {d : Datum} (h : alternativesOf d = none) (number : Nat)
    (c : Collection) : grow separator d number c = c.add d := by
  have hkept := c.add_withSuffix c.suffix d
  unfold grow chosen chosenSuffix
  rw [h]
  dsimp only
  change (c.add d >>= fun added => pure (added.withSuffix (c.suffix ++ []))) = c.add d
  rw [List.append_nil, bind_pure_comp]
  exact hkept.symm

/-- A declaration with alternatives is added with one of them. -/
lemma grow_of_eq_some {separator : Text} {d : Datum} {parts : List Text}
    (h : alternativesOf d = some parts) {number : Nat} (hnumber : number < parts.length)
    (c : Collection) : grow separator d number c = (do
      let added ← c.add (withValue d (parts.getD number ""))
      return { added with suffix := c.suffix ++ separator ++ parts.getD number "" }) := by
  unfold grow chosen chosenSuffix
  rw [h]
  dsimp only
  rw [Nat.mod_eq_of_lt hnumber, ← List.append_assoc]
  rfl

/-- Only the least digit of a number matters. -/
lemma grow_mod (separator : Text) (d : Datum) (number : Nat) :
    grow separator d (number % choiceCount d) = grow separator d number := by
  funext c
  unfold grow chosen chosenSuffix choiceCount
  cases alternativesOf d with
  | none => rfl
  | some parts =>
    dsimp only
    rw [Nat.mod_mod]

/-- What something becomes that is changed until a failure, if it does not fail. -/
def completed {α : Type} : α × Option Failure → Except Failure α
  | (changed, none) => .ok changed
  | (_, some failure) => .error failure

/-- Something that is changed until a failure is complete if there is none. -/
lemma completed_eq_ok_iff {α : Type} {x : α × Option Failure} {changed : α} :
    completed x = .ok changed ↔ x = (changed, none) := by
  obtain ⟨changed', failure?⟩ := x
  cases failure? with
  | none => simp [completed]
  | some failure => simp [completed]

/-- Collections to which a declaration is added in turn all have it if none fails. -/
lemma completed_addEach (d : Datum) (cs : List Collection) :
    completed (addEach d cs) = cs.mapM fun c => c.add d := by
  induction cs with
  | nil => rfl
  | cons c cs ih =>
    unfold addEach
    rw [List.mapM_cons, ← ih]
    cases c.add d with
    | error failure => rfl
    | ok added =>
      obtain ⟨changed, failure?⟩ := addEach d cs
      cases failure? with
      | none => rfl
      | some failure => rfl

/-- What is no mapping has no alternatives and can be added to no collection. -/
lemma grow_of_fields?_eq_none {d : Datum} (h : d.fields? = none) (separator : Text) (number : Nat)
    (c : Collection) : grow separator d number c = .error .wrongType := by
  have halternatives : alternativesOf d = none := by
    unfold alternativesOf
    rw [h]
    rfl
  rw [grow_of_eq_none halternatives]
  unfold Collection.add declaredName declaredFields
  rw [h]
  rfl

/-- The collections that go on with the alternatives in turn are those that grow under the choices. -/
lemma mapM_continueWith {d : Datum} {parts : List Text} (h : alternativesOf d = some parts)
    (b : Builder) : parts.mapM (b.continueWith d) = (List.range parts.length).mapM fun block =>
      b.collections.mapM (grow b.separator d block) := by
  have hindices : (List.range parts.length).map (parts.getD · "") = parts := by
    refine List.ext_getElem (by simp) fun i hi hi' => ?_
    rw [List.getElem_map, List.getElem_range, List.getD_eq_getElem parts "" hi']
  conv_lhs => rw [← hindices]
  rw [List.mapM_map]
  refine Outcome.mapM_congr fun block hblock => ?_
  refine Outcome.mapM_congr fun c _ => ?_
  exact (grow_of_eq_some h (List.mem_range.mp hblock) c).symm

/-- Adding a declaration goes through the choices for it, and for each through the collections. -/
lemma completed_add_eq_mapM {b : Builder} (hne : b.collections ≠ []) (d : Datum) :
    completed (b.add d) = (fun collections => { b with collections }) <$> List.flatten <$>
      (List.range (choiceCount d)).mapM fun block =>
        b.collections.mapM (grow b.separator d block) := by
  unfold add declaredFields
  cases hfields : d.fields? with
  | none =>
    obtain ⟨c, rest, hcons⟩ := List.exists_cons_of_ne_nil hne
    have hfails : b.collections.mapM (grow b.separator d 0) = .error .wrongType := by
      rw [hcons, List.mapM_cons, grow_of_fields?_eq_none hfields]
      rfl
    have hcount : choiceCount d = 1 := by
      unfold choiceCount alternativesOf
      rw [hfields]
      rfl
    rw [hcount, List.range_one, List.mapM_cons, hfails]
    rfl
  | some fields =>
    have halternatives : alternativesOf d = alternatives? fields := by
      unfold alternativesOf
      rw [hfields, Option.getD_some]
    unfold choiceCount
    rw [halternatives]
    dsimp only
    cases hparts : alternatives? fields with
    | none =>
      have hgrow : grow b.separator d 0 = fun c => c.add d :=
        funext fun c => grow_of_eq_none (halternatives.trans hparts) 0 c
      dsimp only
      rw [List.range_one, List.mapM_cons, List.mapM_nil, hgrow, ← completed_addEach]
      obtain ⟨changed, failure?⟩ := addEach d b.collections
      cases failure? with
      | none => simp [completed]
      | some failure => rfl
    | some parts =>
      dsimp only
      rw [← mapM_continueWith (halternatives.trans hparts)]
      cases parts.mapM (b.continueWith d) with
      | error failure => rfl
      | ok expanded => rfl

/-- Adding a declaration makes one collection of every choice and every collection so far. -/
lemma completed_add_eq {b : Builder} {n : Nat} {start : Nat → Except Failure Collection}
    (hn : 0 < n) (hstart : (List.range n).mapM start = .ok b.collections) (d : Datum) :
    completed (b.add d) = (fun collections => { b with collections }) <$>
      (List.range (n * choiceCount d)).mapM fun x =>
        start (x % n) >>= grow b.separator d (x / n) := by
  have hne : b.collections ≠ [] := by
    have hlength := (Outcome.mapM_eq_ok_iff.mp hstart).length_eq
    rw [List.length_range] at hlength
    rw [← List.length_pos_iff]
    omega
  rw [Outcome.mapM_range_mul n (choiceCount d) fun place block =>
    start place >>= grow b.separator d block, completed_add_eq_mapM hne]
  congr 3
  funext block
  exact (Outcome.mapM_bind hstart _).symm

/-- Adding declarations adds the first one, and then the others if it has been added. -/
lemma completed_addAll_cons (b : Builder) (d : Datum) (ds : List Datum) :
    completed (b.addAll (d :: ds)) = completed (b.add d) >>= fun b => completed (b.addAll ds) := by
  conv_lhs => unfold addAll
  obtain ⟨b', failure?⟩ := b.add d
  cases failure? with
  | none => rfl
  | some failure => rfl

/-- Adding declarations and then another one. -/
lemma completed_addAll_concat (b : Builder) (ds : List Datum) (d : Datum) :
    completed (b.addAll (ds ++ [d])) = completed (b.addAll ds) >>= fun b => completed (b.add d) := by
  induction ds generalizing b with
  | nil =>
    rw [List.nil_append, completed_addAll_cons]
    exact bind_pure _
  | cons d' ds ih =>
    rw [List.cons_append, completed_addAll_cons, completed_addAll_cons, bind_assoc]
    exact congrArg _ (funext ih)

/-- The choices for the first declaration are the digits below those of the choices for the others. -/
lemma mapM_growAll_cons (separator : Text) (n : Nat) (start : Nat → Except Failure Collection)
    (d : Datum) (ds : List Datum) :
    ((List.range (n * choiceCount d * variantTotal ds)).mapM fun x =>
      (start (x % (n * choiceCount d) % n) >>= grow separator d (x % (n * choiceCount d) / n)) >>=
        growAll separator ds (x / (n * choiceCount d))) =
      (List.range (n * variantTotal (d :: ds))).mapM fun x =>
        start (x % n) >>= growAll separator (d :: ds) (x / n) := by
  rw [variantTotal_cons, Nat.mul_assoc]
  refine Outcome.mapM_congr fun x _ => ?_
  rw [Nat.mod_mul_right_mod, Nat.mod_mul_right_div_self, grow_mod, ← Nat.div_div_eq_div_mul,
    bind_assoc]
  rfl

/-- What fails for some number fails in all that goes on from it. -/
lemma mapM_range_mul_ne_ok {α β : Type} {k m : Nat} (hm : 0 < m) {first : Nat → Except Failure α}
    {failure : Failure} (hfirst : (List.range k).mapM first = .error failure)
    (next : Nat → α → Except Failure β) (results : List β) :
    ((List.range (k * m)).mapM fun x => first (x % k) >>= next x) ≠ .ok results := by
  intro hresults
  obtain ⟨x, hx, hfails⟩ := Outcome.exists_of_mapM_eq_error hfirst
  have hlt : x < k := List.mem_range.mp hx
  have hle : k ≤ k * m := Nat.le_mul_of_pos_right _ hm
  obtain ⟨result, hresult⟩ := Outcome.exists_mapM_eq_ok_iff.mp ⟨results, hresults⟩ x
    (List.mem_range.mpr (Nat.lt_of_lt_of_le hlt hle))
  rw [Nat.mod_eq_of_lt hlt, hfails] at hresult
  cases hresult

/-- Adding declarations makes one collection of every choice and every collection so far. -/
lemma addAll_eq_iff {b b' : Builder} {n : Nat} {start : Nat → Except Failure Collection}
    (hn : 0 < n) (hstart : (List.range n).mapM start = .ok b.collections) (ds : List Datum) :
    b.addAll ds = (b', none) ↔ ∃ collections,
      ((List.range (n * variantTotal ds)).mapM fun x =>
        start (x % n) >>= growAll b.separator ds (x / n)) = .ok collections ∧
      b' = { b with collections } := by
  induction ds generalizing b n start with
  | nil =>
    have hnil : ((List.range (n * variantTotal [])).mapM fun x =>
        start (x % n) >>= growAll b.separator [] (x / n)) = .ok b.collections := by
      rw [← hstart]
      change (List.range (n * 1)).mapM _ = _
      rw [Nat.mul_one]
      refine Outcome.mapM_congr fun x hx => ?_
      rw [Nat.mod_eq_of_lt (List.mem_range.mp hx)]
      exact bind_pure _
    rw [hnil]
    constructor
    · intro h
      cases h
      exact ⟨_, rfl, rfl⟩
    · rintro ⟨collections, hcollections, rfl⟩
      cases hcollections
      rfl
  | cons d ds ih =>
    have hadd := completed_add_eq hn hstart d
    rw [← completed_eq_ok_iff, completed_addAll_cons, hadd, ← mapM_growAll_cons]
    cases hfirst : (List.range (n * choiceCount d)).mapM fun x =>
        start (x % n) >>= grow b.separator d (x / n) with
    | error failure =>
      refine iff_of_false (fun h => by cases h) ?_
      rintro ⟨collections, hcollections, -⟩
      exact mapM_range_mul_ne_ok (variantTotal_pos ds) hfirst _ _ hcollections
    | ok middle =>
      refine Iff.trans completed_eq_ok_iff ?_
      exact ih (b := { b with collections := middle })
        (Nat.mul_pos hn (choiceCount_pos d)) hfirst

/-- Under a choice, declarations are added as those with the chosen values are, but for the
suffix. -/
lemma growAll_eq (separator : Text) (ds : List Datum) (number : Nat) (c : Collection) :
    growAll separator ds number c =
      (Collection.withSuffix · (c.suffix ++ variantSuffix separator ds number)) <$>
        (variant ds number).foldlM Collection.add c := by
  induction ds generalizing number c with
  | nil =>
    change Except.ok c = Except.ok (c.withSuffix (c.suffix ++ []))
    rw [List.append_nil]
    rfl
  | cons d ds ih =>
    unfold growAll variant variantSuffix grow
    rw [List.foldlM_cons, bind_assoc]
    cases c.add (chosen d number) with
    | error failure => rfl
    | ok added =>
      change growAll separator ds (number / choiceCount d)
        (added.withSuffix (c.suffix ++ chosenSuffix separator d number)) = _ <$> _
      rw [ih, Collection.foldlM_add_withSuffix, ← List.append_assoc, ← comp_map]
      rfl

/-! ## Choices are made once -/

/-- What trimming leaves was there. -/
lemma mem_of_mem_trim {t : Text} {c : CodePoint} (h : c ∈ t.trim) : c ∈ t := by
  unfold Text.trim trimBy at h
  rw [List.mem_reverse] at h
  have hmem := (List.dropWhile_sublist _).subset h
  rw [List.mem_reverse] at hmem
  exact (List.dropWhile_sublist _).subset hmem

/-- An alternative is a text without bars. -/
lemma bar_notMem_of_alternatives? {fields : Entries} {parts : List Text}
    (h : alternatives? fields = some parts) {part : Text} (hpart : part ∈ parts) :
    bar ∉ part := by
  unfold alternatives? at h
  split at h
  · split at h
    · cases h
      obtain ⟨piece, hpiece, rfl⟩ := List.mem_map.mp hpart
      exact fun hbar => bar_notMem_of_mem_splitBars hpiece (mem_of_mem_trim hbar)
    · cases h
  · cases h

/-- A text has alternatives if there is a bar between its blanks. -/
lemma classifyText_eq_alternatives_iff {s : Text} :
    classifyText s = .alternatives ↔ bar ∈ s.trim := by
  unfold classifyText
  dsimp only
  rw [List.contains_eq_mem]
  by_cases hbar : bar ∈ s.trim
  · simp [hbar]
  · simp only [hbar, decide_false, Bool.false_eq_true, if_false, iff_false]
    split_ifs <;> exact not_false

/-- A declaration whose value is a text without bars has no alternatives. -/
lemma alternatives?_eq_none {fields : Entries} {part : Text}
    (hvalue : Entries.get fields "value" = .text part) (hpart : bar ∉ part) :
    alternatives? fields = none := by
  unfold alternatives?
  rw [hvalue]
  dsimp only
  rw [if_neg]
  rw [classifyText_eq_alternatives_iff]
  exact fun hmem => hpart (mem_of_mem_trim hmem)

/-- A declaration with alternatives has a value. -/
lemma isSome_find?_value {d : Datum} {parts : List Text} (h : alternativesOf d = some parts) :
    (Entries.find? (d.fields?.getD []) (.text "value")).isSome := by
  refine Entries.isSome_find?_of_get_ne_null fun hnull => ?_
  unfold alternativesOf alternatives? at h
  rw [hnull] at h
  cases h

/-- A declaration with alternatives is a mapping. -/
lemma isSome_fields? {d : Datum} {parts : List Text} (h : alternativesOf d = some parts) :
    d.fields?.isSome := by
  have hvalue := isSome_find?_value h
  cases hfields : d.fields? with
  | none =>
    rw [hfields] at hvalue
    cases hvalue
  | some fields => rfl

/-- A declaration with a chosen value has no alternatives. -/
lemma alternativesOf_chosen (d : Datum) (number : Nat) : alternativesOf (chosen d number) = none := by
  cases h : alternativesOf d with
  | none =>
    unfold chosen
    rw [h]
    exact h
  | some parts =>
    have hlt : number % parts.length < parts.length :=
      Nat.mod_lt _ (List.length_pos_iff.mpr (alternatives?_ne_nil h))
    have hpart : parts.getD (number % parts.length) "" ∈ parts := by
      rw [List.getD_eq_getElem parts "" hlt]
      exact List.getElem_mem hlt
    obtain ⟨fields, hfields, hget⟩ :=
      get_value_withValue (isSome_fields? h) (parts.getD (number % parts.length) "")
    unfold chosen
    rw [h]
    dsimp only
    unfold alternativesOf
    rw [hfields, Option.getD_some]
    exact alternatives?_eq_none hget (bar_notMem_of_alternatives? h hpart)

/-- Declarations with chosen values have one variant. -/
lemma variantTotal_variant (ds : List Datum) (number : Nat) :
    variantTotal (variant ds number) = 1 := by
  induction ds generalizing number with
  | nil => rfl
  | cons d ds ih =>
    unfold variant
    rw [variantTotal_cons, ih, Nat.mul_one]
    unfold choiceCount
    rw [alternativesOf_chosen]

/-- Declarations without alternatives are their own variant. -/
lemma variant_eq_self {ds : List Datum} (h : ∀ d ∈ ds, alternativesOf d = none) (number : Nat) :
    variant ds number = ds := by
  induction ds generalizing number with
  | nil => rfl
  | cons d ds ih =>
    rw [List.forall_mem_cons] at h
    unfold variant chosen
    rw [h.1, ih h.2]

/-- Declarations with chosen values have no alternatives. -/
lemma alternativesOf_of_mem_variant {ds : List Datum} {number : Nat} {d : Datum}
    (h : d ∈ variant ds number) : alternativesOf d = none := by
  induction ds generalizing number with
  | nil => exact absurd h List.not_mem_nil
  | cons d' ds ih =>
    rcases List.mem_cons.mp h with rfl | h
    · exact alternativesOf_chosen d' number
    · exact ih h

/-- Choosing again changes nothing. -/
lemma variant_variant (ds : List Datum) (number number' : Nat) :
    variant (variant ds number) number' = variant ds number :=
  variant_eq_self (fun _ => alternativesOf_of_mem_variant) number'

/-- Choosing again adds nothing to a suffix. -/
lemma variantSuffix_variant (separator : Text) (ds : List Datum) (number number' : Nat) :
    variantSuffix separator (variant ds number) number' = [] := by
  induction ds generalizing number number' with
  | nil => rfl
  | cons d ds ih =>
    unfold variant variantSuffix
    rw [ih, chosenSuffix, alternativesOf_chosen]
    rfl

end Builder

end StockFlow
