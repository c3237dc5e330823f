import StockFlow.Proofs.Graph.Parts
import StockFlow.Proofs.Sheet.Linked
/-!
# The plain walk

A plain walk keeps no record. It follows all links from every name that it comes to, however often it
has been there, and it fails only at a name of its own path (`Visits`). The order of nodes is what a
plain walk sees when it sees it first, and it fails as the plain walk does (`orderNodes_iff_visits`).

That names seen before may be passed over rests on one invariant (`IsSettled`): from a name that has
been seen and is not on the path, the plain walk comes back without having seen anything new. The path
enters into a plain walk that comes back only by the names that it does not meet (`Visits.of_disjoint`),
so what is settled stays so when the path grows by a new name or loses its last one.
-/

namespace StockFlow

/-- The plain walk along a path from some names in turn: all that it visits, in order, or how it
fails. -/
inductive Visits (next : Text → List Text) :
    (path starts : List Text) → Except Failure (List Text) → Prop
  | done {path : List Text} : Visits next path [] (.ok [])
  | closes {path starts : List Text} {name : Text} (hpath : name ∈ path) :
      Visits next path (name :: starts) (.error (.cycle (path ++ [name])))
  | failsBehind {path starts : List Text} {name : Text} {failure : Failure} (hpath : name ∉ path)
      (hbehind : Visits next (path ++ [name]) (next name) (.error failure)) :
      Visits next path (name :: starts) (.error failure)
  | failsAfter {path starts behind : List Text} {name : Text} {failure : Failure}
      (hpath : name ∉ path) (hbehind : Visits next (path ++ [name]) (next name) (.ok behind))
      (hafter : Visits next path starts (.error failure)) :
      Visits next path (name :: starts) (.error failure)
  | returns {path starts behind after : List Text} {name : Text} (hpath : name ∉ path)
      (hbehind : Visits next (path ++ [name]) (next name) (.ok behind))
      (hafter : Visits next path starts (.ok after)) :
      Visits next path (name :: starts) (.ok (name :: behind ++ after))

namespace Visits

variable {next : Text → List Text} {path path' starts visits after : List Text} {name : Text}
variable {outcome outcome' : Except Failure (List Text)} {failure : Failure}

/-- A plain walk has one outcome. -/
theorem unique (h : Visits next path starts outcome) (h' : Visits next path starts outcome') :
    outcome = outcome' := by
  induction h generalizing outcome' with
  | done =>
    cases h'
    rfl
  | closes hpath =>
    cases h' with
    | closes => rfl
    | failsBehind hpath' => exact absurd hpath hpath'
    | failsAfter hpath' => exact absurd hpath hpath'
    | returns hpath' => exact absurd hpath hpath'
  | failsBehind hpath _ ihbehind =>
    cases h' with
    | closes hpath' => exact absurd hpath' hpath
    | failsBehind _ hbehind' => exact ihbehind hbehind'
    | failsAfter _ hbehind' => cases ihbehind hbehind'
    | returns _ hbehind' => cases ihbehind hbehind'
  | failsAfter hpath _ _ ihbehind ihafter =>
    cases h' with
    | closes hpath' => exact absurd hpath' hpath
    | failsBehind _ hbehind' => cases ihbehind hbehind'
    | failsAfter _ _ hafter' => exact ihafter hafter'
    | returns _ _ hafter' => cases ihafter hafter'
  | returns hpath _ _ ihbehind ihafter =>
    cases h' with
    | closes hpath' => exact absurd hpath' hpath
    | failsBehind _ hbehind' => cases ihbehind hbehind'
    | failsAfter _ _ hafter' => cases ihafter hafter'
    | returns _ hbehind' hafter' =>
      cases ihbehind hbehind'
      cases ihafter hafter'
      rfl

/-- A plain walk only fails with a cycle. -/
lemma exists_cycle (h : Visits next path starts (.error failure)) :
    ∃ cycle, failure = .cycle cycle := by
  generalize houtcome : Except.error failure = outcome at h
  induction h with
  | done => cases houtcome
  | closes =>
    cases houtcome
    exact ⟨_, rfl⟩
  | failsBehind _ _ ihbehind => exact ihbehind houtcome
  | failsAfter _ _ _ _ ihafter => exact ihafter houtcome
  | returns => cases houtcome

/-- A plain walk that comes back has met no name of its path. -/
lemma disjoint (h : Visits next path starts (.ok visits)) : path.Disjoint visits := by
  generalize houtcome : Except.ok visits = outcome at h
  induction h generalizing visits with
  | done =>
    cases houtcome
    exact List.disjoint_nil_right _
  | closes => cases houtcome
  | failsBehind => cases houtcome
  | failsAfter => cases houtcome
  | returns hpath _ _ ihbehind ihafter =>
    cases houtcome
    have hbehind := (List.disjoint_append_left.mp (ihbehind rfl)).1
    exact List.disjoint_append_right.mpr
      ⟨List.disjoint_cons_right.mpr ⟨hpath, hbehind⟩, ihafter rfl⟩

/-- A plain walk that comes back does so along every path that it does not meet. -/
lemma of_disjoint (h : Visits next path starts (.ok visits)) (hpath' : path'.Disjoint visits) :
    Visits next path' starts (.ok visits) := by
  generalize houtcome : Except.ok visits = outcome at h
  induction h generalizing path' visits with
  | done =>
    cases houtcome
    exact .done
  | closes => cases houtcome
  | failsBehind => cases houtcome
  | failsAfter => cases houtcome
  | @returns path starts behind after name hpath hbehind _ ihbehind ihafter =>
    cases houtcome
    obtain ⟨hpathBehind, hpathAfter⟩ := List.disjoint_append_right.mp hpath'
    obtain ⟨hname, hpathBehind⟩ := List.disjoint_cons_right.mp hpathBehind
    -- the name itself is not met behind it, since it has been on the path there
    have hnameBehind : [name].Disjoint behind := (List.disjoint_append_left.mp hbehind.disjoint).2
    exact .returns hname
      (ihbehind (List.disjoint_append_left.mpr ⟨hpathBehind, hnameBehind⟩) rfl)
      (ihafter hpathAfter rfl)

/-- A plain walk that comes back from one name goes on with the others. -/
lemma append (h : Visits next path [name] (.ok visits)) (h' : Visits next path starts (.ok after)) :
    Visits next path (name :: starts) (.ok (visits ++ after)) := by
  cases h with
  | returns hpath hbehind hdone =>
    cases hdone
    simpa using Visits.returns hpath hbehind h'

/-- A plain walk that comes back from one name fails as it does with the others. -/
lemma error_of_ok (h : Visits next path [name] (.ok visits))
    (h' : Visits next path starts (.error failure)) :
    Visits next path (name :: starts) (.error failure) := by
  cases h with
  | returns hpath hbehind _ => exact .failsAfter hpath hbehind h'

/-- A plain walk that fails from one name does not come to the others. -/
lemma error_of_error (h : Visits next path [name] (.error failure)) :
    Visits next path (name :: starts) (.error failure) := by
  cases h with
  | closes hpath => exact .closes hpath
  | failsBehind hpath hbehind => exact .failsBehind hpath hbehind
  | failsAfter _ _ hafter => cases hafter

end Visits

/-! ## Names seen for the first time -/

/-- A list without repetitions is what is seen for the first time in it. -/
lemma eraseDups_of_nodup {names : List Text} (h : names.Nodup) : names.eraseDups = names := by
  induction names with
  | nil => rfl
  | cons name names ih =>
    obtain ⟨hname, h⟩ := List.nodup_cons.mp h
    have hfilter : (names.filter fun other => !other == name) = names := by
      refine List.filter_eq_self.mpr fun other hother => ?_
      have hne : other ≠ name := fun heq => hname (heq ▸ hother)
      simpa using hne
    rw [List.eraseDups_cons, hfilter, ih h]

/-- What is seen again later counts for nothing. -/
lemma eraseDups_eraseDups_append (names names' : List Text) :
    (names.eraseDups ++ names').eraseDups = (names ++ names').eraseDups := by
  have hremove : names'.removeAll names.eraseDups = names'.removeAll names := by
    unfold List.removeAll
    refine List.filter_congr fun name _ => ?_
    rw [Bool.eq_iff_iff]
    simp
  rw [List.eraseDups_append, List.eraseDups_append, hremove,
    eraseDups_of_nodup (nodup_eraseDups names)]

/-- Names that have all been seen bring nothing new. -/
lemma eraseDups_append_of_subset {seen visits : List Text} (hseen : seen.Nodup)
    (h : visits ⊆ seen) : (seen ++ visits).eraseDups = seen := by
  have hremove : visits.removeAll seen = [] := by
    unfold List.removeAll
    rw [List.filter_eq_nil_iff]
    intro name hname
    simpa using h hname
  rw [List.eraseDups_append, hremove, eraseDups_of_nodup hseen, List.eraseDups_nil,
    List.append_nil]

/-! ## The walk that passes over names seen before -/

section Pruned

variable {next : Text → List Text} {names path seen starts result : List Text} {name : Text}

/-- From every name seen that is not on the path, the plain walk comes back with names seen only. -/
def IsSettled (next : Text → List Text) (path seen : List Text) : Prop :=
  ∀ other ∈ seen, other ∉ path → ∃ visits, Visits next path [other] (.ok visits) ∧ visits ⊆ seen

/-- An outcome that is that of the plain walk, except that only names are added which have not been
seen before. -/
def Prunes (next : Text → List Text) (path seen starts : List Text) :
    Except Failure (List Text) → Prop
  | .ok result => ∃ visits, Visits next path starts (.ok visits) ∧
      result = (seen ++ visits).eraseDups ∧ IsSettled next path result
  | .error failure => Visits next path starts (.error failure)

/-- What is settled stays so behind a name that is new, which itself has only just been seen. -/
lemma IsSettled.enter (h : IsSettled next path seen) (hname : name ∉ seen) :
    IsSettled next (path ++ [name]) (seen ++ [name]) := by
  intro other hother hpath
  rw [List.mem_append, not_or] at hpath
  obtain ⟨visits, hvisits, hsubset⟩ := h other ((List.mem_append.mp hother).resolve_right hpath.2)
    hpath.1
  refine ⟨visits, hvisits.of_disjoint ?_, List.subset_append_of_subset_left _ hsubset⟩
  refine List.disjoint_append_left.mpr ⟨hvisits.disjoint, ?_⟩
  exact List.singleton_disjoint.mpr fun hmem => hname (hsubset hmem)

/-- What is settled behind a name stays so when the walk comes back from there, and the name is settled
then too. -/
lemma IsSettled.leave {behind : List Text} (h : IsSettled next (path ++ [name]) result)
    (hpath : name ∉ path) (hbehind : Visits next (path ++ [name]) (next name) (.ok behind))
    (hsubset : name :: behind ⊆ result) : IsSettled next path result := by
  intro other hother hotherPath
  by_cases hname : other = name
  · rw [hname]
    exact ⟨name :: behind, by simpa using Visits.returns hpath hbehind .done, hsubset⟩
  · obtain ⟨visits, hvisits, hsubset⟩ := h other hother (by simp [hotherPath, hname])
    exact ⟨visits, hvisits.of_disjoint (List.disjoint_append_left.mp hvisits.disjoint).1, hsubset⟩

/-- Walks from several names in turn prune the plain walk if each of them does. -/
lemma prunes_foldlM {walk : List Text → Text → Except Failure (List Text)}
    (hwalk : ∀ name ∈ starts, ∀ seen, IsSettled next path seen → seen.Nodup →
      Prunes next path seen [name] (walk seen name))
    (hsettled : IsSettled next path seen) (hseen : seen.Nodup) :
    Prunes next path seen starts (starts.foldlM walk seen) := by
  induction starts generalizing seen with
  | nil => exact ⟨[], .done, by rw [List.append_nil, eraseDups_of_nodup hseen], hsettled⟩
  | cons name starts ih =>
    have hfirst := hwalk name List.mem_cons_self seen hsettled hseen
    rw [List.foldlM_cons]
    cases hmiddle : walk seen name with
    | error failure =>
      rw [hmiddle] at hfirst
      exact Visits.error_of_error hfirst
    | ok middle =>
      rw [hmiddle] at hfirst
      obtain ⟨visits, hvisits, rfl, hsettled'⟩ := hfirst
      have hrest := ih (fun other hother => hwalk other (List.mem_cons_of_mem name hother))
        hsettled' (nodup_eraseDups _)
      change Prunes next path seen (name :: starts) (starts.foldlM walk (seen ++ visits).eraseDups)
      cases hresult : starts.foldlM walk (seen ++ visits).eraseDups with
      | error failure =>
        rw [hresult] at hrest
        exact hvisits.error_of_ok hrest
      | ok result =>
        rw [hresult] at hrest
        obtain ⟨after, hafter, rfl, hsettled''⟩ := hrest
        refine ⟨visits ++ after, hvisits.append hafter, ?_, hsettled''⟩
        rw [eraseDups_eraseDups_append, List.append_assoc]

/-- A walk along a path through finitely many names prunes the plain walk. -/
lemma prunes_walkFrom (hclosed : ∀ a b, Leads next a b → b ∈ names) {depth : Nat}
    (hname : name ∈ names) (hnodup : path.Nodup) (hpath : path ⊆ names)
    (hdepth : names.length + 1 ≤ depth + path.length) (hsettled : IsSettled next path seen)
    (hseen : seen.Nodup) : Prunes next path seen [name] (walkFrom next depth path seen name) := by
  induction depth generalizing path seen name with
  | zero =>
    have hle : path.length ≤ names.length := (hnodup.subperm hpath).length_le
    omega
  | succ depth ih =>
    simp only [walkFrom, List.contains_iff_mem]
    by_cases hmem : name ∈ path
    · rw [if_pos hmem]
      exact Visits.closes hmem
    rw [if_neg hmem]
    by_cases hold : name ∈ seen
    · rw [if_pos hold]
      obtain ⟨visits, hvisits, hsubset⟩ := hsettled name hold hmem
      exact ⟨visits, hvisits, (eraseDups_append_of_subset hseen hsubset).symm, hsettled⟩
    · rw [if_neg hold]
      have hnodup' : (path ++ [name]).Nodup := nodup_concat hnodup hmem
      have hpath' : path ++ [name] ⊆ names :=
        List.append_subset.mpr ⟨hpath, List.cons_subset.mpr ⟨hname, List.nil_subset _⟩⟩
      have hdepth' : names.length + 1 ≤ depth + (path ++ [name]).length := by
        rw [List.length_append, List.length_singleton]
        omega
      have hseen' : (seen ++ [name]).Nodup := nodup_concat hseen hold
      have hbehind : Prunes next (path ++ [name]) (seen ++ [name]) (next name)
          ((next name).foldlM
            (fun seen target => walkFrom next depth (path ++ [name]) seen target)
            (seen ++ [name])) :=
        prunes_foldlM
          (fun target htarget _ hsettled hseen =>
            ih (hclosed name target htarget) hnodup' hpath' hdepth' hsettled hseen)
          (hsettled.enter hold) hseen'
      cases hresult : (next name).foldlM
          (fun seen target => walkFrom next depth (path ++ [name]) seen target)
          (seen ++ [name]) with
      | error failure =>
        rw [hresult] at hbehind
        exact .failsBehind hmem hbehind
      | ok result =>
        rw [hresult] at hbehind
        obtain ⟨behind, hbehind, rfl, hsettled'⟩ := hbehind
        have hsubset : name :: behind ⊆ (seen ++ [name] ++ behind).eraseDups := by
          intro other hother
          rw [List.mem_eraseDups]
          simp only [List.mem_cons, List.mem_append, List.not_mem_nil, or_false] at hother ⊢
          tauto
        refine ⟨name :: behind, by simpa using Visits.returns hmem hbehind .done, by simp, ?_⟩
        exact hsettled'.leave hmem hbehind hsubset

/-- The walk from all names prunes the plain walk. -/
lemma prunes_walkOrder (hclosed : ∀ a b, Leads next a b → b ∈ names) :
    Prunes next [] [] names (walkOrder names next) :=
  prunes_foldlM
    (fun _ hname _ hsettled hseen =>
      prunes_walkFrom hclosed hname .nil (List.nil_subset _) (by simp) hsettled hseen)
    (fun _ hother => absurd hother List.not_mem_nil) .nil

end Pruned

/-! ## The order of nodes -/

section Nodes

variable {nodes ordered : List Node} {order : List Text}

/-- The nodes of some names have these names. -/
lemma map_name_filterMap_find? (h : order ⊆ nodes.map Node.name) :
    (order.filterMap fun name => nodes.find? fun n => n.name == name).map Node.name = order := by
  induction order with
  | nil => rfl
  | cons name order ih =>
    obtain ⟨hname, h⟩ := List.cons_subset.mp h
    cases hfind : nodes.find? fun n => n.name == name with
    | none =>
      obtain ⟨n, hn, hn'⟩ := List.mem_map.mp hname
      exact absurd hn' (by simpa using List.find?_eq_none.mp hfind n hn)
    | some n =>
      have hn : n.name = name := by simpa using List.find?_some hfind
      simp only [List.filterMap_cons, hfind, List.map_cons, hn, ih h]

/-- Nodes with different names are found by them. -/
lemma filterMap_find?_map_name (hnames : (nodes.map Node.name).Nodup) (h : ordered ⊆ nodes) :
    ((ordered.map Node.name).filterMap fun name => nodes.find? fun n => n.name == name) =
      ordered := by
  induction ordered with
  | nil => rfl
  | cons n ordered ih =>
    obtain ⟨hn, h⟩ := List.cons_subset.mp h
    have hfind : (nodes.find? fun m => m.name == n.name) = some n :=
      (Graph.node?_eq_some_iff (g := ⟨nodes, "", none⟩) hnames).mpr ⟨hn, rfl⟩
    simp only [List.map_cons, List.filterMap_cons, hfind, ih h]

/-- The order of linked nodes is the order in which the plain walk from all of them first sees them,
and it has all of them once. It fails if the plain walk fails, and reports the same cycle. -/
theorem orderNodes_iff_visits (hnames : (nodes.map Node.name).Nodup)
    (hlinked : ∀ n ∈ nodes, ∀ link ∈ n.outgoing, link.target ∈ nodes.map Node.name) :
    (∀ ordered, orderNodes nodes = .ok ordered ↔ ordered.Perm nodes ∧
      ∃ visits, Visits (targetsOf nodes) [] (nodes.map Node.name) (.ok visits) ∧
        ordered.map Node.name = visits.eraseDups) ∧
    (∀ failure, orderNodes nodes = .error failure ↔ ∃ cycle, failure = .cycle cycle ∧
      Visits (targetsOf nodes) [] (nodes.map Node.name) (.error (.cycle cycle))) := by
  have hclosed := mem_of_leads_targetsOf hlinked
  have hprunes := prunes_walkOrder hclosed
  cases horder : walkOrder (nodes.map Node.name) (targetsOf nodes) with
  | ok order =>
    rw [horder] at hprunes
    obtain ⟨visits, hvisits, rfl, -⟩ := hprunes
    rw [List.nil_append] at horder
    have hsubset : visits.eraseDups ⊆ nodes.map Node.name :=
      subset_of_walkOrder (fun a _ b hb => hclosed a b hb) horder
    have hperm := perm_orderedGraph hnames (nodup_walkOrder horder)
      (walked_of_walkOrder horder).starts_subset "" none
    refine ⟨fun ordered => ⟨fun h => ?_, ?_⟩, fun failure => ⟨fun h => ?_, ?_⟩⟩
    · obtain ⟨order, horder', rfl⟩ := orderNodes_eq_ok_iff.mp h
      cases horder.symm.trans horder'
      exact ⟨hperm.symm, visits, hvisits, map_name_filterMap_find? hsubset⟩
    · rintro ⟨hordered, visits', hvisits', hname⟩
      cases hvisits.unique hvisits'
      refine orderNodes_eq_ok_iff.mpr ⟨_, horder, ?_⟩
      rw [← hname, filterMap_find?_map_name hnames hordered.subset]
    · cases horder.symm.trans (orderNodes_eq_error_iff.mp h)
    · rintro ⟨cycle, -, hvisits'⟩
      cases hvisits.unique hvisits'
  | error failure =>
    rw [horder] at hprunes
    have hvisits : Visits (targetsOf nodes) [] (nodes.map Node.name) (.error failure) := hprunes
    refine ⟨fun ordered => ⟨fun h => ?_, ?_⟩, fun failure' => ⟨fun h => ?_, ?_⟩⟩
    · obtain ⟨order, horder', -⟩ := orderNodes_eq_ok_iff.mp h
      cases horder.symm.trans horder'
    · rintro ⟨-, visits', hvisits', -⟩
      cases hvisits.unique hvisits'
    · cases horder.symm.trans (orderNodes_eq_error_iff.mp h)
      obtain ⟨cycle, rfl⟩ := hvisits.exists_cycle
      exact ⟨cycle, rfl, hvisits⟩
    · rintro ⟨cycle, rfl, hvisits'⟩
      cases hvisits.unique hvisits'
      exact orderNodes_eq_error_iff.mpr horder

/-- A node between nodes of given names. -/
def nodeBetween (name : Text) (targets : List Text) : Node :=
  { bareNode name with outgoing := targets.map fun target => ⟨target, .null, .null, .null⟩ }

/-- Two ways from one node to another, and what the latter leads to. -/
def diamondNodes (targets : List Text) : List Node :=
  [nodeBetween "A" ["B", "C"], nodeBetween "B" ["D"], nodeBetween "C" ["D"],
    nodeBetween "D" targets]

/-- The end of both ways is visited again on the second one, and is in the order once. If it leads back
to the first way, the plain walk reports the cycle that it has come to there. -/
theorem orderNodes_iff_visits_diamondNodes :
    (∃ visits, Visits (targetsOf (diamondNodes [])) [] ["A", "B", "C", "D"] (.ok visits) ∧
      (["A", "B", "D", "C"] : List Text) = visits.eraseDups) ∧
    Visits (targetsOf (diamondNodes ["B"])) [] ["A", "B", "C", "D"]
      (.error (.cycle ["A", "B", "D", "B"])) := by
  have hordered : orderNodes (diamondNodes []) = .ok
      [nodeBetween "A" ["B", "C"], nodeBetween "B" ["D"], nodeBetween "D" [],
        nodeBetween "C" ["D"]] := rfl
  have hcycle : orderNodes (diamondNodes ["B"]) = .error (.cycle ["A", "B", "D", "B"]) := rfl
  refine ⟨?_, ?_⟩
  · exact (((orderNodes_iff_visits (by decide) (by decide)).1 _).mp hordered).2
  · obtain ⟨cycle, heq, hvisits⟩ :=
      ((orderNodes_iff_visits (by decide) (by decide)).2 _).mp hcycle
    cases heq
    exact hvisits

end Nodes

end StockFlow
