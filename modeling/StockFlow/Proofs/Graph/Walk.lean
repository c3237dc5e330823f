import Mathlib.Data.List.Chain
import Mathlib.Data.List.Nodup
import Mathlib.Data.List.Perm.Subperm
import StockFlow.Graph.Order
/-!
# Walks and cycles

The walk that orders nodes succeeds if and only if no cycle leads through them (`walkOrder_isOk_iff`).

A walk keeps two records, of the names seen and of those finished, but the names seen that are not
finished are those of its path. So one record is enough (`visitOrder_eq_walkOrder`), and the proofs are
about the walk that passes over every name seen before.

When a walk passes over a name that it has seen before, everything behind that name has been walked,
and the names of the current path are the only ones for which this is not so yet. So the invariant of
a walk is that from every name seen off the current path only finitely long ways lead on, which the
accessibility of the name says. Conversely a walk only fails at a name of its own path, and the path
leads from there back to it; the bound on the depth is never met, since a path repeats no name.
-/

namespace StockFlow

/-- The names that one can follow a link to. -/
def Leads (next : Text → List Text) (a b : Text) : Prop := b ∈ next a

/-- Whether some way leads from a name back to it. -/
def HasCycle (leads : Text → Text → Prop) : Prop := ∃ a, Relation.TransGen leads a a

/-- From a name on a cycle there is an infinite way. -/
lemma not_transGen_of_acc {leads : Text → Text → Prop} {a : Text}
    (h : Acc (fun b a => leads a b) a) : ¬ Relation.TransGen leads a a := by
  intro hcycle
  have hacc := h.transGen
  rw [← Relation.transGen_swap] at hcycle
  induction hacc with
  | intro a _ ih => exact ih a hcycle (h.inv_of_transGen hcycle) hcycle

/-- Names without repetition stay so with a new one behind them. -/
lemma nodup_concat {names : List Text} {name : Text} (h : names.Nodup) (hnew : name ∉ names) :
    (names ++ [name]).Nodup :=
  h.append (List.nodup_singleton name) (List.disjoint_singleton.mpr hnew)

/-- Of the names that are left when some are passed, fewer are left when another one is passed too. -/
lemma length_filter_not_contains_lt {names passed passed' : List Text} {name : Text}
    (hmem : name ∈ names) (hnew : name ∉ passed)
    (h : ∀ other, other ∈ passed' ↔ other = name ∨ other ∈ passed) :
    (names.filter fun other => !passed'.contains other).length <
      (names.filter fun other => !passed.contains other).length := by
  have hfilter : (names.filter fun other => !passed'.contains other) =
      (names.filter fun other => !passed.contains other).filter fun other => other != name := by
    rw [List.filter_filter]
    refine List.filter_congr fun other _ => ?_
    rw [Bool.eq_iff_iff]
    simp [h]
  rw [hfilter, List.length_filter_lt_length_iff_exists]
  exact ⟨name, List.mem_filter.mpr ⟨hmem, by simpa using hnew⟩, by simp⟩

variable {next : Text → List Text}

/-! ## The record of a walk -/

/-- Walks from a node and adds the nodes seen for the first time. A node seen before is passed over,
since everything behind it has been walked. -/
def walkFrom (next : Text → List Text) :
    (depth : Nat) → (path : List Text) → (seen : List Text) → (name : Text) →
    Except Failure (List Text)
  | 0, path, _, name => .error (.cycle (path ++ [name]))
  | depth + 1, path, seen, name =>
    if path.contains name then .error (.cycle (path ++ [name]))
    else if seen.contains name then .ok seen
    else
      (next name).foldlM (fun seen target => walkFrom next depth (path ++ [name]) seen target)
        (seen ++ [name])

/-- The nodes in the order of the walk from all of them that passes over every node seen before. -/
def walkOrder (names : List Text) (next : Text → List Text) :
    Except Failure (List Text) :=
  names.foldlM (fun seen name => walkFrom next (names.length + 1) [] seen name) []

/-- What a walk has seen is what it has finished and what is on its path. -/
def Sights.IsOn (path : List Text) (sights : Sights) : Prop :=
  ∀ name, name ∈ sights.ordered ↔ name ∈ sights.finished ∨ name ∈ path

/-- A walk with one record does what the walk with both does, which still tells them apart by its
path. -/
structure RecordsAlike (path : List Text) (visited : Except Failure Sights)
    (walked : Except Failure (List Text)) : Prop where
  eq_ordered : walked = Sights.ordered <$> visited
  isOn : ∀ sights, visited = .ok sights → sights.IsOn path

/-- Walks in turn have alike records if each of them has. -/
lemma RecordsAlike.foldlM {path : List Text} {visit : Sights → Text → Except Failure Sights}
    {walk : List Text → Text → Except Failure (List Text)}
    (hvisit : ∀ {sights} name, sights.IsOn path →
      RecordsAlike path (visit sights name) (walk sights.ordered name))
    (starts : List Text) {sights : Sights} (h : sights.IsOn path) :
    RecordsAlike path (starts.foldlM visit sights) (starts.foldlM walk sights.ordered) := by
  induction starts generalizing sights with
  | nil =>
    refine ⟨rfl, fun sights' hsights' => ?_⟩
    cases hsights'
    exact h
  | cons name starts ih =>
    have hfirst := hvisit name h
    rw [List.foldlM_cons, List.foldlM_cons, hfirst.eq_ordered]
    cases hvisited : visit sights name with
    | error failure => exact ⟨rfl, fun _ hsights' => by cases hsights'⟩
    | ok sights' => exact ih (hfirst.isOn sights' hvisited)

/-- A visit has the record of a walk. -/
lemma recordsAlike_visitFrom (next : Text → List Text) (depth : Nat) {path : List Text}
    {sights : Sights} (name : Text) (h : sights.IsOn path) :
    RecordsAlike path (visitFrom next depth path sights name)
      (walkFrom next depth path sights.ordered name) := by
  induction depth generalizing path sights name with
  | zero => exact ⟨rfl, fun _ hsights' => by cases hsights'⟩
  | succ depth ih =>
    simp only [visitFrom, walkFrom, List.contains_iff_mem]
    by_cases hpath : name ∈ path
    · rw [if_pos hpath, if_pos hpath]
      exact ⟨rfl, fun _ hsights' => by cases hsights'⟩
    rw [if_neg hpath, if_neg hpath]
    by_cases hfinished : name ∈ sights.finished
    · have hseen : name ∈ sights.ordered := (h name).mpr (Or.inl hfinished)
      rw [if_pos hfinished, if_pos hseen]
      refine ⟨rfl, fun sights' hsights' => ?_⟩
      cases hsights'
      exact h
    · have hseen : name ∉ sights.ordered := by simp [h name, hfinished, hpath]
      have hsee : sights.see name = { sights with ordered := sights.ordered ++ [name] } :=
        if_neg (by simpa using hseen)
      have hon : (sights.see name).IsOn (path ++ [name]) := by
        intro other
        rw [hsee]
        simp [h other, or_assoc]
      have hbehind := RecordsAlike.foldlM (fun target h => ih target h) (next name) hon
      have hordered : (sights.see name).ordered = sights.ordered ++ [name] := by rw [hsee]
      rw [if_neg hfinished, if_neg hseen, ← hordered, hbehind.eq_ordered]
      cases hvisited : (next name).foldlM
          (fun sights target => visitFrom next depth (path ++ [name]) sights target)
          (sights.see name) with
      | error failure => exact ⟨rfl, fun _ hsights' => by cases hsights'⟩
      | ok sights' =>
        refine ⟨rfl, fun sights'' hsights'' => ?_⟩
        cases hsights''
        -- the name leaves the path and becomes finished
        intro other
        have hother := hbehind.isOn sights' hvisited other
        simp only [Sights.finish, List.mem_append, List.mem_cons, List.not_mem_nil, or_false]
          at hother ⊢
        tauto

/-- The order of a walk that tells what is seen from what is finished is that of a walk that does
not. -/
theorem visitOrder_eq_walkOrder (names : List Text) (next : Text → List Text) :
    visitOrder names next = walkOrder names next := by
  have hempty : ({} : Sights).IsOn [] := fun name => by simp
  have halike := RecordsAlike.foldlM
    (fun name h => recordsAlike_visitFrom next (names.length + 1) name h) names hempty
  exact halike.eq_ordered.symm

/-! ## Walks that succeed -/

/-- What a walk makes of the names seen: none is lost, the start is among them and off the path, and
from every one off the path only finitely long ways lead on. -/
structure Walked (next : Text → List Text) (path seen : List Text) (starts : List Text)
    (result : List Text) : Prop where
  seen_subset : seen ⊆ result
  starts_subset : starts ⊆ result
  not_mem_path : ∀ name ∈ starts, name ∉ path
  acc : ∀ x ∈ result, x ∉ path → Acc (fun b a => Leads next a b) x

/-- Walks from several names in turn. -/
lemma Walked.foldlM {path : List Text} {walk : List Text → Text → Except Failure (List Text)}
    (hwalk : ∀ {seen name result}, walk seen name = .ok result →
      (∀ x ∈ seen, x ∉ path → Acc (fun b a => Leads next a b) x) →
        Walked next path seen [name] result)
    {seen starts result : List Text} (h : starts.foldlM walk seen = .ok result)
    (hseen : ∀ x ∈ seen, x ∉ path → Acc (fun b a => Leads next a b) x) :
    Walked next path seen starts result := by
  induction starts generalizing seen with
  | nil =>
    cases h
    exact ⟨List.Subset.refl _, List.nil_subset _, fun _ h => absurd h List.not_mem_nil, hseen⟩
  | cons name starts ih =>
    rw [List.foldlM_cons] at h
    cases hfirst : walk seen name with
    | error failure =>
      rw [hfirst] at h
      cases h
    | ok middle =>
      rw [hfirst] at h
      have hhead := hwalk hfirst hseen
      have htail := ih h hhead.acc
      refine ⟨List.Subset.trans hhead.seen_subset htail.seen_subset, ?_, ?_, htail.acc⟩
      · exact List.cons_subset.mpr
          ⟨htail.seen_subset (hhead.starts_subset List.mem_cons_self), htail.starts_subset⟩
      · exact List.forall_mem_cons.mpr
          ⟨hhead.not_mem_path name List.mem_cons_self, htail.not_mem_path⟩

/-- A walk from one name. -/
lemma walked_of_walkFrom {depth : Nat} {path seen : List Text} {name : Text} {result : List Text}
    (h : walkFrom next depth path seen name = .ok result)
    (hseen : ∀ x ∈ seen, x ∉ path → Acc (fun b a => Leads next a b) x) :
    Walked next path seen [name] result := by
  induction depth generalizing path seen name result with
  | zero => cases h
  | succ depth ih =>
    unfold walkFrom at h
    split at h
    · cases h
    next hpath =>
      have hpath' : name ∉ path := by simpa using hpath
      split at h
      · next hmem =>
        cases h
        have hmem' : name ∈ seen := by simpa using hmem
        exact ⟨List.Subset.refl _, List.cons_subset.mpr ⟨hmem', List.nil_subset _⟩,
          by simpa using hpath', hseen⟩
      · -- behind the name the path is longer by it, and it is the only name seen that is new
        have hseen' : ∀ x ∈ seen ++ [name], x ∉ path ++ [name] →
            Acc (fun b a => Leads next a b) x := by
          intro x hx hxpath
          rw [List.mem_append, not_or] at hxpath
          rcases List.mem_append.mp hx with hx | hx
          · exact hseen x hx hxpath.1
          · exact absurd hx hxpath.2
        have hbehind : Walked next (path ++ [name]) (seen ++ [name]) (next name) result :=
          Walked.foldlM (fun hwalk hold => ih hwalk hold) h hseen'
        have hname : Acc (fun b a => Leads next a b) name :=
          .intro name fun target htarget =>
            hbehind.acc target (hbehind.starts_subset htarget)
              (hbehind.not_mem_path target htarget)
        refine ⟨List.Subset.trans (List.subset_append_left _ _) hbehind.seen_subset, ?_, ?_, ?_⟩
        · exact List.Subset.trans (List.subset_append_right _ _) hbehind.seen_subset
        · simpa using hpath'
        · intro x hx hxpath
          by_cases hxname : x = name
          · rw [hxname]
            exact hname
          · exact hbehind.acc x hx (by simp [hxpath, hxname])

/-- A walk from all names sees all of them, and from each only finitely long ways lead on. -/
lemma walked_of_walkOrder {names order : List Text} (h : walkOrder names next = .ok order) :
    Walked next [] [] names order :=
  Walked.foldlM (fun hwalk hold => walked_of_walkFrom hwalk hold) h
    fun _ hx => absurd hx List.not_mem_nil

/-- A walk in turn from several names sees no name twice if the walks from each do not. -/
lemma nodup_foldlM {walk : List Text → Text → Except Failure (List Text)}
    (hwalk : ∀ {seen name result}, walk seen name = .ok result → seen.Nodup → result.Nodup)
    {seen starts result : List Text} (h : starts.foldlM walk seen = .ok result)
    (hseen : seen.Nodup) : result.Nodup := by
  induction starts generalizing seen with
  | nil =>
    cases h
    exact hseen
  | cons name starts ih =>
    rw [List.foldlM_cons] at h
    cases hfirst : walk seen name with
    | error failure =>
      rw [hfirst] at h
      cases h
    | ok middle =>
      rw [hfirst] at h
      exact ih h (hwalk hfirst hseen)

/-- A walk sees no name twice. -/
lemma nodup_walkFrom {depth : Nat} {path seen : List Text} {name : Text} {result : List Text}
    (h : walkFrom next depth path seen name = .ok result) (hseen : seen.Nodup) :
    result.Nodup := by
  induction depth generalizing path seen name result with
  | zero => cases h
  | succ depth ih =>
    unfold walkFrom at h
    split at h
    · cases h
    · split at h
      · cases h
        exact hseen
      · next hmem =>
        have hnew : (seen ++ [name]).Nodup := nodup_concat hseen (by simpa using hmem)
        exact nodup_foldlM (fun hwalk hold => ih hwalk hold) h hnew

/-- An order lists no name twice. -/
lemma nodup_walkOrder {names order : List Text} (h : walkOrder names next = .ok order) :
    order.Nodup :=
  nodup_foldlM (fun hwalk hold => nodup_walkFrom hwalk hold) h List.nodup_nil

/-! ## Walks that fail -/

/-- Walks in turn fail as one of them does. -/
lemma exists_of_foldlM_eq_error {walk : List Text → Text → Except Failure (List Text)}
    {seen starts : List Text} {failure : Failure} (h : starts.foldlM walk seen = .error failure) :
    ∃ name ∈ starts, ∃ seen', walk seen' name = .error failure := by
  induction starts generalizing seen with
  | nil => cases h
  | cons name starts ih =>
    rw [List.foldlM_cons] at h
    cases hfirst : walk seen name with
    | error failure' =>
      rw [hfirst] at h
      cases h
      exact ⟨name, List.mem_cons_self, seen, hfirst⟩
    | ok middle =>
      rw [hfirst] at h
      obtain ⟨name', hname', seen', hwalk⟩ := ih h
      exact ⟨name', List.mem_cons_of_mem name hname', seen', hwalk⟩

/-- A walk along a path through finitely many names fails only because the path closes to a cycle. -/
lemma hasCycle_of_walkFrom_eq_error {names : List Text}
    (hclosed : ∀ a b, Leads next a b → b ∈ names) {depth : Nat} {path seen : List Text}
    {name : Text} {failure : Failure} (hname : name ∈ names)
    (hchain : (path ++ [name]).IsChain (Leads next)) (hnodup : path.Nodup) (hpath : path ⊆ names)
    (hdepth : names.length + 1 ≤ depth + path.length)
    (h : walkFrom next depth path seen name = .error failure) :
    (∃ p, failure = .cycle p) ∧ HasCycle (Leads next) := by
  induction depth generalizing path seen name with
  | zero =>
    have hle : path.length ≤ names.length := (hnodup.subperm hpath).length_le
    omega
  | succ depth ih =>
    unfold walkFrom at h
    split at h
    · next hmem =>
      cases h
      refine ⟨⟨_, rfl⟩, name, ?_⟩
      have hpairs : (path ++ [name]).Pairwise (Relation.TransGen (Leads next)) :=
        (hchain.imp fun _ _ h => .single h).pairwise
      exact (List.pairwise_append.mp hpairs).2.2 name (by simpa using hmem) name
        List.mem_cons_self
    next hmem =>
      have hmem' : name ∉ path := by simpa using hmem
      split at h
      · cases h
      · obtain ⟨target, htarget, seen', hwalk⟩ := exists_of_foldlM_eq_error h
        refine ih (hclosed name target htarget) ?_ ?_ ?_ ?_ hwalk
        · rw [List.append_assoc, List.singleton_append, List.isChain_append_cons_cons]
          exact ⟨hchain, htarget, .singleton _⟩
        · exact nodup_concat hnodup hmem'
        · exact List.append_subset.mpr ⟨hpath, List.cons_subset.mpr ⟨hname, List.nil_subset _⟩⟩
        · rw [List.length_append, List.length_singleton]
          omega

/-! ## Orders and cycles -/

/-- An order that fails reports a cycle, and there is one. -/
theorem hasCycle_of_walkOrder_eq_error {names : List Text}
    (hclosed : ∀ a b, Leads next a b → b ∈ names) {failure : Failure}
    (h : walkOrder names next = .error failure) :
    (∃ p, failure = .cycle p) ∧ HasCycle (Leads next) := by
  obtain ⟨name, hname, seen, hwalk⟩ := exists_of_foldlM_eq_error h
  exact hasCycle_of_walkFrom_eq_error hclosed hname (.singleton name) .nil (List.nil_subset _)
    (by simp) hwalk

/-- If all links lead between the names, then these have an order if and only if there is no
cycle. -/
theorem walkOrder_isOk_iff {names : List Text}
    (hclosed : ∀ a b, Leads next a b → a ∈ names ∧ b ∈ names) :
    (∃ order, walkOrder names next = .ok order) ↔ ¬ HasCycle (Leads next) := by
  constructor
  · rintro ⟨order, horder⟩ ⟨a, hcycle⟩
    have hwalked := walked_of_walkOrder horder
    obtain ⟨b, hab⟩ : ∃ b, Leads next a b := by
      rcases Relation.TransGen.head'_iff.mp hcycle with ⟨b, hab, -⟩
      exact ⟨b, hab⟩
    have hmem : a ∈ order := hwalked.starts_subset (hclosed a b hab).1
    exact not_transGen_of_acc (hwalked.acc a hmem List.not_mem_nil) hcycle
  · intro hacyclic
    cases horder : walkOrder names next with
    | ok order => exact ⟨order, rfl⟩
    | error failure =>
      exact absurd (hasCycle_of_walkOrder_eq_error (fun a b h => (hclosed a b h).2) horder).2
        hacyclic

end StockFlow
