import StockFlow.Proofs.Graph.Visits
import StockFlow.Proofs.Sheet.Variants
/-!
# Reported cycles

A sheet that has no graphs because its links form a cycle reports a path. Its names follow the links of
one variant of the sheet, none of them stands there twice before the last one, and the last one closes
a cycle. It starts at the first declared name from which one comes to a cycle at all
(`exists_reportsCycle_of_buildGraphs`).

What is reported is read off the plain walk. The path of a plain walk that fails is the way to where it
fails, and a plain walk that comes back has only seen names from which finitely long ways lead on
(`Visits.acc`), so none of the starts before the last one leads to a cycle.
-/

namespace StockFlow

/-! ## Paths that end in a cycle -/

section Paths

variable {leads : Text → Text → Prop} {path : List Text} {name : Text}

/-- Whether one comes to a cycle from a name. -/
def ReachesCycle (leads : Text → Text → Prop) (name : Text) : Prop :=
  ∃ other, Relation.ReflTransGen leads name other ∧ Relation.TransGen leads other other

/-- A path along links that repeats no name until its last one, which closes a cycle. -/
structure IsCyclePath (leads : Text → Text → Prop) (path : List Text) : Prop where
  two_le_length : 2 ≤ path.length
  isChain : path.IsChain leads
  nodup : path.dropLast.Nodup
  closes : ∃ before last inner, path = before ++ last :: (inner ++ [last])

/-- A path that comes back to one of its names ends in a cycle. -/
lemma isCyclePath_of_mem (hpath : name ∈ path) (hnodup : path.Nodup)
    (hchain : (path ++ [name]).IsChain leads) : IsCyclePath leads (path ++ [name]) := by
  obtain ⟨before, inner, rfl⟩ := List.append_of_mem hpath
  refine ⟨?_, hchain, ?_, before, name, inner, by simp⟩
  · simp only [List.length_append, List.length_cons, List.length_nil]
    omega
  · rw [List.dropLast_concat]
    exact hnodup

/-- From the first name of such a path one comes to a cycle. -/
lemma IsCyclePath.reachesCycle (h : IsCyclePath leads path) (hname : path.head? = some name) :
    ReachesCycle leads name := by
  obtain ⟨before, last, inner, rfl⟩ := h.closes
  have hpairs := (h.isChain.imp fun _ _ => Relation.TransGen.single).pairwise
  refine ⟨last, ?_, ?_⟩
  · cases before with
    | nil =>
      cases hname
      exact .refl
    | cons first before =>
      cases hname
      exact (List.rel_of_pairwise_cons hpairs (by simp)).to_reflTransGen
  · exact List.rel_of_pairwise_cons (List.pairwise_append.mp hpairs).2.1 (by simp)

end Paths

/-! ## Plain walks -/

namespace Visits

variable {next : Text → List Text} {path starts visits cycle : List Text}

/-- A plain walk that comes back has been where it started, and only finitely long ways lead on from
every name that it has visited. -/
lemma acc (h : Visits next path starts (.ok visits)) :
    starts ⊆ visits ∧ ∀ name ∈ visits, Acc (fun b a => Leads next a b) name := by
  generalize houtcome : Except.ok visits = outcome at h
  induction h generalizing visits with
  | done =>
    cases houtcome
    exact ⟨List.Subset.refl _, fun _ h => absurd h List.not_mem_nil⟩
  | closes => cases houtcome
  | failsBehind => cases houtcome
  | failsAfter => cases houtcome
  | returns _ _ _ ihbehind ihafter =>
    cases houtcome
    obtain ⟨htargets, hbehind⟩ := ihbehind rfl
    obtain ⟨hstarts, hafter⟩ := ihafter rfl
    refine ⟨?_, ?_⟩
    · exact List.cons_subset.mpr
        ⟨List.mem_cons_self, List.subset_append_of_subset_right _ hstarts⟩
    · rw [List.cons_append, List.forall_mem_cons, List.forall_mem_append]
      exact ⟨.intro _ fun target htarget => hbehind target (htargets htarget), hbehind, hafter⟩

/-- A plain walk that comes back has not started where one comes to a cycle. -/
lemma not_reachesCycle (h : Visits next path starts (.ok visits)) {name : Text}
    (hname : name ∈ starts) : ¬ ReachesCycle (Leads next) name := by
  rintro ⟨other, hreach, hcycle⟩
  have hacc := h.acc.2 name (h.acc.1 hname)
  refine not_transGen_of_acc ?_ hcycle
  clear hcycle
  induction hreach with
  | refl => exact hacc
  | tail _ hlast ih => exact ih.inv hlast

/-- The path of a plain walk that fails goes on to where it fails, from the first of its starts from
which it does not come back. -/
lemma isCyclePath (h : Visits next path starts (.error (.cycle cycle))) (hnodup : path.Nodup)
    (hchain : ∀ name ∈ starts, (path ++ [name]).IsChain (Leads next)) :
    IsCyclePath (Leads next) cycle ∧ ∃ before first after visits,
      starts = before ++ first :: after ∧ Visits next path before (.ok visits) ∧
      path ++ [first] <+: cycle := by
  generalize houtcome : Except.error (Failure.cycle cycle) = outcome at h
  induction h with
  | done => cases houtcome
  | closes hpath =>
    cases houtcome
    exact ⟨isCyclePath_of_mem hpath hnodup (hchain _ List.mem_cons_self),
      [], _, _, [], rfl, .done, List.prefix_rfl⟩
  | @failsBehind path starts name _ hpath _ ihbehind =>
    have hnodup' : (path ++ [name]).Nodup := nodup_concat hnodup hpath
    have hchain' : ∀ target ∈ next name, (path ++ [name] ++ [target]).IsChain (Leads next) := by
      intro target htarget
      rw [List.append_assoc, List.singleton_append, List.isChain_append_cons_cons]
      exact ⟨hchain name List.mem_cons_self, htarget, .singleton _⟩
    obtain ⟨hcycle, before, first, after, -, -, -, hprefix⟩ := ihbehind hnodup' hchain' houtcome
    exact ⟨hcycle, [], name, starts, [], rfl, .done, (List.prefix_append _ _).trans hprefix⟩
  | @failsAfter path starts behind name _ hpath hbehind _ _ ihafter =>
    obtain ⟨hcycle, before, first, after, visits, rfl, hbefore, hprefix⟩ := ihafter hnodup
      (fun other hother => hchain other (List.mem_cons_of_mem _ hother)) houtcome
    exact ⟨hcycle, name :: before, first, after, _, rfl, .returns hpath hbehind hbefore, hprefix⟩
  | returns => cases houtcome

end Visits

/-- A path ends in a cycle, and starts at the first of some names from which one comes to a cycle. -/
structure ReportsCycle (leads : Text → Text → Prop) (names path : List Text) : Prop
    extends IsCyclePath leads path where
  starts : ∃ before first after, names = before ++ first :: after ∧ path.head? = some first ∧
    ReachesCycle leads first ∧ ∀ name ∈ before, ¬ ReachesCycle leads name

/-- A walk that fails reports a cycle. -/
lemma reportsCycle_of_walkOrder {next : Text → List Text} {names path : List Text}
    (hclosed : ∀ a b, Leads next a b → b ∈ names)
    (h : walkOrder names next = .error (.cycle path)) : ReportsCycle (Leads next) names path := by
  have hvisits : Prunes next [] [] names (.error (.cycle path)) := h ▸ prunes_walkOrder hclosed
  obtain ⟨hcycle, before, first, after, visits, hnames, hbefore, hprefix⟩ :=
    Visits.isCyclePath hvisits .nil fun name _ => .singleton name
  have hfirst : path.head? = some first := by
    obtain ⟨rest, rfl⟩ := hprefix
    rfl
  exact ⟨hcycle, before, first, after, hnames, hfirst, hcycle.reachesCycle hfirst,
    fun name hname => hbefore.not_reachesCycle hname⟩

/-! ## Failures that report no cycle -/

section Failures

open Outcome

/-- Failures of other kinds than that of reported cycles. -/
def Failure.IsNotStructural (failure : Failure) : Prop := failure.kind ≠ .structural

/-- A name is displayed or cannot be. -/
lemma failsIn_isNotStructural_displayed (d : Datum) :
    FailsIn Failure.IsNotStructural d.displayed := by
  unfold Datum.displayed
  split <;> simp [Failure.IsNotStructural, Failure.kind]

/-- What is given for a list is one or is not. -/
lemma failsIn_isNotStructural_givenElements (d : Datum) :
    FailsIn Failure.IsNotStructural d.givenElements := by
  unfold Datum.givenElements
  split
  · split <;> simp [Failure.IsNotStructural, Failure.kind]
  · simp

/-- What is given for a declaration is one or is not. -/
lemma failsIn_isNotStructural_declaredFields (d : Datum) :
    FailsIn Failure.IsNotStructural (declaredFields d) := by
  unfold declaredFields
  split <;> simp [Failure.IsNotStructural, Failure.kind]

/-- A declaration without a usable name reports no cycle. -/
lemma failsIn_isNotStructural_declaredName (d : Datum) :
    FailsIn Failure.IsNotStructural (declaredName d) := by
  unfold declaredName
  refine failsIn_bind_iff.mpr ⟨failsIn_isNotStructural_declaredFields d, fun fields _ => ?_⟩
  split
  · unfold Datum.literalText
    split <;> simp [Failure.IsNotStructural, Failure.kind]
  · exact failsIn_isNotStructural_displayed _

/-- A declaration that cannot be added to a collection reports no cycle. -/
lemma Collection.failsIn_isNotStructural_add (c : Collection) (d : Datum) :
    FailsIn Failure.IsNotStructural (c.add d) := by
  unfold add
  refine failsIn_bind_iff.mpr ⟨failsIn_isNotStructural_declaredName d, fun name _ => ?_⟩
  split
  · exact failsIn_pure _
  · refine failsIn_bind_iff.mpr ⟨failsIn_isNotStructural_declaredFields d, fun fields _ => ?_⟩
    refine failsIn_bind_iff.mpr ⟨failsIn_isNotStructural_givenElements _, fun further _ => ?_⟩
    refine failsIn_bind_iff.mpr ⟨?_, fun _ _ => failsIn_pure _⟩
    unfold mergeLinks
    exact failsIn_bind_iff.mpr
      ⟨failsIn_isNotStructural_givenElements _, fun _ _ => failsIn_pure _⟩

/-- A declaration that cannot be added to the variants of a sheet reports no cycle. -/
lemma Builder.failsIn_isNotStructural_add (b : Builder) (d : Datum) :
    FailsIn Failure.IsNotStructural (completed (b.add d)) := by
  unfold add
  split
  · next failure hfailure =>
    exact failsIn_error_iff.mpr (failsIn_isNotStructural_declaredFields d failure hfailure)
  split
  · have heach := completed_addEach d b.collections
    generalize addEach d b.collections = result at heach ⊢
    obtain ⟨changed, failure?⟩ := result
    cases failure? with
    | none => exact failsIn_ok _
    | some failure =>
      have hfails : b.collections.mapM (fun c => c.add d) = .error failure := heach.symm
      refine failsIn_error_iff.mpr (failsIn_mapM (fun c _ => ?_) failure hfails)
      exact c.failsIn_isNotStructural_add d
  · next parts _ =>
    cases hparts : parts.mapM (b.continueWith d) with
    | error failure =>
      refine failsIn_error_iff.mpr (failsIn_mapM (fun part _ => ?_) failure hparts)
      refine failsIn_mapM fun c _ => failsIn_bind_iff.mpr ⟨?_, fun _ _ => failsIn_pure _⟩
      exact c.failsIn_isNotStructural_add _
    | ok expanded => exact failsIn_ok _

/-- Declarations that cannot be added to the variants of a sheet report no cycle. -/
lemma Builder.failsIn_isNotStructural_addAll (b : Builder) (ds : List Datum) :
    FailsIn Failure.IsNotStructural (completed (b.addAll ds)) := by
  induction ds generalizing b with
  | nil => exact failsIn_ok b
  | cons d ds ih =>
    rw [completed_addAll_cons]
    exact failsIn_bind_iff.mpr ⟨b.failsIn_isNotStructural_add d, fun b' _ => ih b'⟩

/-- Declarations that do not become nodes report no cycle. -/
lemma Collection.failsIn_isNotStructural_declaredNodes (c : Collection) :
    FailsIn Failure.IsNotStructural c.declaredNodes := by
  unfold declaredNodes
  refine failsIn_bind_iff.mpr ⟨failsIn_mapM fun d _ => ?_, fun sketches _ => ?_⟩
  · unfold sketchNode
    dsimp only
    split
    · exact failsIn_bind_iff.mpr
        ⟨failsIn_throw_iff.mpr (by simp [Failure.IsNotStructural, Failure.kind]),
          fun _ h => by cases h⟩
    · exact failsIn_bind_iff.mpr
        ⟨failsIn_isNotStructural_givenElements _, fun _ _ => failsIn_pure _⟩
  · refine failsIn_mapM fun sketch _ => failsIn_bind_iff.mpr
      ⟨failsIn_mapM fun link _ => ?_, fun _ _ => failsIn_pure _⟩
    unfold declaredLink
    refine failsIn_bind_iff.mpr ⟨failsIn_isNotStructural_declaredFields link, fun fields _ => ?_⟩
    refine failsIn_bind_iff.mpr ⟨?_, fun _ _ => failsIn_pure _⟩
    unfold linkTarget
    split
    · simp [Failure.IsNotStructural, Failure.kind]
    · exact failsIn_isNotStructural_displayed _

/-- A node that cannot be coloured has no colour in the palette. -/
lemma Coloring.exists_paletteColor_of_colorNode {palette : List Text} {depth : Nat} {name : Text}
    {s : Coloring} {failure : Failure} (h : (colorNode palette depth name s).2 = some failure) :
    ∃ other, paletteColor other palette = .error failure := by
  have hfinish : ∀ {name s}, (finish palette name s).2 = some failure →
      ∃ other, paletteColor other palette = .error failure := by
    intro name s h
    unfold finish at h
    split at h
    · cases h
    split at h
    · cases h
    · next failure' hcolor =>
      cases h
      exact ⟨name, hcolor⟩
  induction depth generalizing name s with
  | zero => cases h
  | succ depth ih =>
    unfold colorNode at h
    split at h
    · cases h
    split at h
    · cases h
    dsimp only at h
    split at h
    · cases h
    split at h
    · exact hfinish h
    split at h
    · exact hfinish h
    split at h
    · exact hfinish h
    split at h
    · next s' failure' hparent =>
      cases h
      exact ih (congrArg Prod.snd hparent)
    · exact hfinish h

/-- A graph that cannot be coloured reports no cycle. -/
lemma Graph.isNotStructural_of_colorNodes {g : Graph} {palette : List Text} {failure : Failure}
    (h : (g.colorNodes palette).2 = some failure) : failure.IsNotStructural := by
  obtain ⟨name, hcolor⟩ : ∃ name, paletteColor name palette = .error failure := by
    unfold colorNodes at h
    dsimp only at h
    generalize (Coloring.mk g []) = s at h
    generalize g.nodes.map Node.name = names at h
    induction names generalizing s with
    | nil => cases h
    | cons name names ih =>
      unfold Coloring.colorAll at h
      split at h
      · exact ih _ h
      · next s' failure' hfirst =>
        cases h
        exact Coloring.exists_paletteColor_of_colorNode (congrArg Prod.snd hfirst)
  unfold paletteColor at hcolor
  split at hcolor
  · cases hcolor
    simp [Failure.IsNotStructural, Failure.kind]
  split at hcolor
  · cases hcolor
  · cases hcolor
    simp [Failure.IsNotStructural, Failure.kind]

end Failures

/-! ## Names in the order of declaration -/

/-- The names of declarations that can be added come into the order of their first mention. -/
lemma Collection.exists_names_foldlM {ds : List Datum} {c c' : Collection}
    (h : ds.foldlM Collection.add c = .ok c') (hc : (c.declarations.map Declared.name).Nodup) :
    ∃ names, ds.mapM declaredName = .ok names ∧
      c'.declarations.map Declared.name = (c.declarations.map Declared.name ++ names).eraseDups := by
  induction ds generalizing c with
  | nil =>
    cases h
    exact ⟨[], rfl, by rw [List.append_nil, eraseDups_of_nodup hc]⟩
  | cons d ds ih =>
    rw [List.foldlM_cons] at h
    obtain ⟨middle, hmiddle, h⟩ := Outcome.bind_eq_ok_iff.mp h
    obtain ⟨name, hname, -⟩ := Outcome.bind_eq_ok_iff.mp hmiddle
    obtain ⟨names, hnames, heq⟩ := ih h (nodup_names_add hmiddle hc)
    have hfirst : middle.declarations.map Declared.name =
        (c.declarations.map Declared.name ++ [name]).eraseDups := by
      rw [names_add hname hmiddle]
      split
      · next hknown => exact (eraseDups_append_of_subset hc (by simpa using hknown)).symm
      · next hnew => exact (eraseDups_of_nodup (nodup_concat hc (by simpa using hnew))).symm
    refine ⟨name :: names, ?_, ?_⟩
    · rw [List.mapM_cons, hname, hnames]
      rfl
    · rw [heq, hfirst, eraseDups_eraseDups_append, List.append_assoc, List.singleton_append]

/-- A target that is not declared leads nowhere. -/
lemma not_leads_of_mem_undeclaredTargets {declared : List Node} {name other : Text}
    (hname : name ∈ undeclaredTargets declared) :
    ¬ Leads (targetsOf (linkedNodes declared)) name other := by
  intro h
  unfold Leads targetsOf at h
  cases hfind : (linkedNodes declared).find? fun n => n.name == name with
  | none =>
    rw [hfind] at h
    exact absurd h List.not_mem_nil
  | some n =>
    rw [hfind] at h
    have hn : n.name = name := by simpa using List.find?_some hfind
    obtain ⟨m, hm, hmname, -, houtgoing⟩ := mem_linkedNodes (List.mem_of_find?_eq_some hfind)
    rcases hm with hm | ⟨name', rfl⟩
    · unfold undeclaredTargets at hname
      rw [List.mem_eraseDups, List.mem_filter] at hname
      have hdeclared : name ∈ declared.map Node.name :=
        List.mem_map.mpr ⟨m, hm, hmname.symm.trans hn⟩
      simp [hdeclared] at hname
    · dsimp only at h
      rw [houtgoing] at h
      exact absurd h List.not_mem_nil

/-- Names that lead nowhere and repeated names can be left out of account. -/
lemma ReportsCycle.of_append {leads : Text → Text → Prop} {names bare path : List Text}
    (h : ReportsCycle leads (names.eraseDups ++ bare) path)
    (hbare : ∀ name ∈ bare, ∀ other, ¬ leads name other) : ReportsCycle leads names path := by
  obtain ⟨before, first, after, hnames, hfirst, hreach, hbefore⟩ := h.starts
  have hmem : first ∈ names := by
    have hmem : first ∈ names.eraseDups ++ bare := by simp [hnames]
    rcases List.mem_append.mp hmem with hmem | hmem
    · exact List.mem_eraseDups.mp hmem
    · obtain ⟨other, hother, hcycle⟩ := hreach
      have hleads : Relation.TransGen leads first other := Relation.TransGen.trans_right hother hcycle
      obtain ⟨target, htarget, -⟩ := Relation.TransGen.head'_iff.mp hleads
      exact absurd htarget (hbare first hmem target)
  obtain ⟨before', after', rfl, hnew⟩ := List.eq_append_cons_of_mem hmem
  refine ⟨h.toIsCyclePath, before', first, after', rfl, hfirst, hreach, fun name hname => ?_⟩
  refine hbefore name ?_
  have hremove : (first :: after').removeAll before' = first :: after'.removeAll before' := by
    unfold List.removeAll
    rw [List.filter_cons_of_pos (by simpa using hnew)]
  rw [List.eraseDups_append, hremove, List.eraseDups_cons, List.append_assoc,
    List.cons_append] at hnames
  have hname' : name ∈ before'.eraseDups := List.mem_eraseDups.mpr hname
  rcases List.append_eq_append_iff.mp hnames with ⟨more, rfl, -⟩ | ⟨more, hmore, hrest⟩
  · exact List.mem_append_left _ hname'
  · cases more with
    | nil =>
      rw [hmore, List.append_nil] at hname'
      exact hname'
    | cons other more =>
      cases hrest
      exact absurd (List.mem_eraseDups.mp (hmore ▸ by simp)) hnew

/-! ## Sheets -/

/-- The nodes of declarations without alternatives, with their links attached. -/
def assembledNodes (ds : List Datum) : Except Failure (List Node) := do
  let c ← ds.foldlM Collection.add {}
  return linkedNodes (← c.declaredNodes)

/-- Declarations without alternatives that have no graph because of a cycle have nodes that cannot be
brought into an order. -/
lemma exists_orderNodes_of_singleGraph {s : Settings} {ds : List Datum} {path : List Text}
    (h : singleGraph s ds = .error (.cycle path)) :
    ∃ c declared, ds.foldlM Collection.add {} = .ok c ∧ c.declaredNodes = .ok declared ∧
      orderNodes (linkedNodes declared) = .error (.cycle path) := by
  have hstructural : ¬ (Failure.cycle path).IsNotStructural := fun hnot => hnot rfl
  rcases Outcome.bind_eq_error_iff.mp h with hadd | ⟨c, hc, h⟩
  · exact absurd (Outcome.failsIn_foldlM (fun c d _ => c.failsIn_isNotStructural_add d) _ _ hadd)
      hstructural
  rcases Outcome.bind_eq_error_iff.mp h with hgraph | ⟨g, -, hcolor⟩
  swap
  · generalize hcolored : g.colorNodes category10 = colored at hcolor
    obtain ⟨colored, failure?⟩ := colored
    cases failure? with
    | none => cases hcolor
    | some failure =>
      cases hcolor
      exact absurd (Graph.isNotStructural_of_colorNodes (congrArg Prod.snd hcolored)) hstructural
  rcases Outcome.bind_eq_error_iff.mp hgraph with hfails | ⟨declared, hdeclared, hgraph⟩
  · exact absurd (c.failsIn_isNotStructural_declaredNodes _ hfails) hstructural
  rcases Outcome.bind_eq_error_iff.mp hgraph with horder | ⟨ordered, -, hdone⟩
  · exact ⟨c, declared, hc, hdeclared, horder⟩
  · cases hdone

/-- Declarations without alternatives that have no graph because of a cycle report it. -/
lemma exists_reportsCycle_of_singleGraph {s : Settings} {ds : List Datum} {path : List Text}
    (h : singleGraph s ds = .error (.cycle path)) :
    ∃ names nodes, ds.mapM declaredName = .ok names ∧ assembledNodes ds = .ok nodes ∧
      ReportsCycle (Leads (targetsOf nodes)) names path := by
  obtain ⟨c, declared, hc, hdeclared, horder⟩ := exists_orderNodes_of_singleGraph h
  obtain ⟨names, hnames, heq⟩ := Collection.exists_names_foldlM hc .nil
  have hnodup : (declared.map Node.name).Nodup := by
    rw [Collection.map_name_declaredNodes hdeclared]
    exact Collection.nodup_names_foldlM hc .nil
  have hlinked := isLinked_linkedNodes hnodup "" none
  have hreports := reportsCycle_of_walkOrder (mem_of_leads_targetsOf hlinked.target_mem)
    (orderNodes_eq_error_iff.mp horder)
  rw [names_linkedNodes, Collection.map_name_declaredNodes hdeclared, heq] at hreports
  refine ⟨names, linkedNodes declared, hnames, ?_, ?_⟩
  · unfold assembledNodes
    rw [hc]
    change (c.declaredNodes >>= fun declared => _) = _
    rw [hdeclared]
    rfl
  · exact hreports.of_append fun name hname other => not_leads_of_mem_undeclaredTargets hname

/-- **Reported cycles.**  A sheet that fails with a cycle has a variant whose declarations lead along
the reported path. The path has at least two names, each links to the next one, all but the last are
different, and the last one closes a cycle. It starts at the first declared name from which one comes
to a cycle. -/
theorem exists_reportsCycle_of_buildGraphs {s : Settings} {ds : List Datum} {path : List Text}
    (h : buildGraphs s ds = .error (.cycle path)) :
    ∃ number < Builder.variantTotal ds, ∃ names nodes,
      (Builder.variant ds number).mapM declaredName = .ok names ∧
      assembledNodes (Builder.variant ds number) = .ok nodes ∧
      ReportsCycle (Leads (targetsOf nodes)) names path := by
  have hadded := (Builder.ofSettings s).failsIn_isNotStructural_addAll ds
  unfold buildGraphs at h
  split at h
  · next b hb =>
    obtain ⟨collections, hcollections, rfl⟩ := Builder.addAll_ofSettings_eq_iff.mp hb
    rw [Builder.build_eq_mapM hcollections] at h
    obtain ⟨number, hnumber, hfails⟩ := Outcome.exists_of_mapM_eq_error h
    refine ⟨number, List.mem_range.mp hnumber, exists_reportsCycle_of_singleGraph (s := s) ?_⟩
    unfold variantGraph at hfails
    cases hgraph : singleGraph s (Builder.variant ds number) with
    | error failure =>
      rw [hgraph] at hfails
      cases hfails
      rfl
    | ok g =>
      rw [hgraph] at hfails
      cases hfails
  · next b failure hb =>
    cases h
    rw [hb] at hadded
    exact absurd rfl (hadded _ rfl)

/-- A declaration of a node by its name, its value and the targets of its links. -/
def declarationTo (name value : Text) (targets : List Text) : Datum :=
  .map [(.text "name", .text name), (.text "value", .text value),
    (.text "links", .list (targets.map fun target => .map [(.text "to", .text target)]))]

/-- A cycle behind two ways that part and meet again, and behind a node without a cycle. -/
def loopingSheet : List Datum :=
  [declarationTo "X" "1|2" ["Y", "Z"], declarationTo "Y" "" ["Z"],
    declarationTo "A" "" ["Y", "Z", "B"], declarationTo "B" "" ["C"],
    declarationTo "C" "" ["Z", "B"]]

/-- The path of the looping sheet starts neither at its first node nor on the cycle. -/
theorem reportsCycle_loopingSheet :
    buildGraphs {} loopingSheet = .error (.cycle ["A", "B", "C", "B"]) ∧
    ∃ number < Builder.variantTotal loopingSheet, ∃ names nodes,
      (Builder.variant loopingSheet number).mapM declaredName = .ok names ∧
      assembledNodes (Builder.variant loopingSheet number) = .ok nodes ∧
      ReportsCycle (Leads (targetsOf nodes)) names ["A", "B", "C", "B"] :=
  have hfails : buildGraphs {} loopingSheet = .error (.cycle ["A", "B", "C", "B"]) := rfl
  ⟨hfails, exists_reportsCycle_of_buildGraphs hfails⟩

end StockFlow
