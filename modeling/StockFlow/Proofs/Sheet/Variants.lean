import StockFlow.Proofs.Sheet.Choices
import StockFlow.Proofs.Sheet.Construction
import StockFlow.Proofs.Value.Passes
/-!
# Variants

A sheet with alternatives has one variant for every choice of one alternative in each declaration that
has some. A variant is the graph that is built of the declarations with the chosen values, under a
suffix that tells the choice (`buildGraphs_eq_variants`).

If no name and no target contains the declaration that it belongs to, all choices leave the outlines
of the declarations as they are, so one of them can be built only if all can
(`exists_singleGraph_variant_iff`).
-/

namespace StockFlow

/-! ## Graphs of variants -/

/-- A graph under another suffix. -/
def Graph.withSuffix (g : Graph) (suffix : Text) : Graph := { g with suffix }

/-- The suffix of a graph plays no part in colouring. -/
lemma Graph.colorNodes_withSuffix (g : Graph) (suffix : Text) (palette : List Text) :
    (g.withSuffix suffix).colorNodes palette =
      ((g.colorNodes palette).1.withSuffix suffix, (g.colorNodes palette).2) := by
  have hrecoloring : Recoloring Eq Eq :=
    { truthy := fun h => h ▸ rfl
      random := fun h => h ▸ rfl
      null := rfl
      text := fun _ => rfl
      name := fun h => h ▸ rfl
      incoming := fun h => h ▸ rfl
      color := fun h => h ▸ rfl
      links := fun h => by
        subst h
        exact List.forall₂_same.mpr fun _ _ => rfl
      setColor := fun h hc => by rw [h, hc] }
  have hnodes : List.Forall₂ Eq (g.withSuffix suffix).nodes g.nodes :=
    List.forall₂_same.mpr fun _ _ => rfl
  obtain ⟨hcolored, hfailure⟩ := Graph.colorNodes_forall₂ hrecoloring palette hnodes
  obtain ⟨hsuffix, hresolver⟩ := (g.withSuffix suffix).colorNodes_suffix_resolver palette
  obtain ⟨-, hresolver'⟩ := g.colorNodes_suffix_resolver palette
  rw [List.forall₂_eq_eq_eq] at hcolored
  refine Prod.ext ?_ hfailure
  generalize (g.withSuffix suffix).colorNodes palette = colored at hcolored hsuffix hresolver
  obtain ⟨⟨nodes, suffix', resolver⟩, failure?⟩ := colored
  cases hcolored
  cases hsuffix
  cases hresolver
  unfold Graph.withSuffix
  rw [hresolver']

/-- The suffix of a collection becomes that of its graph, and plays no other part. -/
lemma Collection.colored_withSuffix (zeroIsUnset : Bool) (c : Collection) (suffix : Text) :
    (c.withSuffix suffix).colored zeroIsUnset =
      (Graph.withSuffix · suffix) <$> c.colored zeroIsUnset := by
  unfold colored
  have hgraph : (c.withSuffix suffix).toGraph (some ⟨zeroIsUnset⟩) =
      (Graph.withSuffix · suffix) <$> c.toGraph (some ⟨zeroIsUnset⟩) := by
    unfold toGraph
    change (c.declaredNodes >>= fun declared => _) = _ <$> (c.declaredNodes >>= fun declared => _)
    cases c.declaredNodes with
    | error failure => rfl
    | ok declared =>
      simp only [bind, Except.bind]
      cases orderNodes _ with
      | error failure => rfl
      | ok nodes => rfl
  rw [hgraph]
  cases c.toGraph (some ⟨zeroIsUnset⟩) with
  | error failure => rfl
  | ok graph =>
    simp only [bind, Except.bind, Functor.map, Except.map]
    rw [Graph.colorNodes_withSuffix]
    obtain ⟨colored, failure?⟩ := graph.colorNodes category10
    cases failure? with
    | none => rfl
    | some failure => rfl

/-- The graph of declarations without alternatives. -/
def singleGraph (s : Settings) (ds : List Datum) : Except Failure Graph := do
  (← ds.foldlM Collection.add {}).colored s.zeroIsUnset

/-- The graph of the variant of a number, under the suffix that tells the choice. -/
def variantGraph (s : Settings) (ds : List Datum) (number : Nat) : Except Failure Graph :=
  (Graph.withSuffix · (Builder.variantSuffix s.variantSeparator ds number)) <$>
    singleGraph s (Builder.variant ds number)

namespace Builder

variable {s : Settings} {ds : List Datum}

/-- What declarations grow to under a choice has the graph of the variant. -/
lemma growAll_bind_colored (s : Settings) (ds : List Datum) (number : Nat) :
    growAll s.variantSeparator ds number {} >>= Collection.colored s.zeroIsUnset =
      variantGraph s ds number := by
  rw [growAll_eq]
  unfold variantGraph singleGraph
  cases (variant ds number).foldlM Collection.add {} with
  | error failure => rfl
  | ok c => exact c.colored_withSuffix _ _

/-- Declarations can all be added if they can be added under every choice. -/
lemma addAll_ofSettings_eq_iff {b : Builder} :
    (ofSettings s).addAll ds = (b, none) ↔ ∃ collections,
      (List.range (variantTotal ds)).mapM (growAll s.variantSeparator ds · {}) =
        .ok collections ∧ b = { ofSettings s with collections } := by
  have hstart : (List.range 1).mapM (fun _ => .ok {}) =
      (.ok (ofSettings s).collections : Except Failure (List Collection)) := rfl
  have hrun : (List.range (1 * variantTotal ds)).mapM (fun x =>
      (.ok {} : Except Failure Collection) >>= growAll s.variantSeparator ds (x / 1)) =
      (List.range (variantTotal ds)).mapM (growAll s.variantSeparator ds · {}) := by
    rw [Nat.one_mul]
    refine Outcome.mapM_congr fun x _ => ?_
    rw [Nat.div_one]
    rfl
  rw [← hrun]
  exact addAll_eq_iff Nat.one_pos hstart ds

/-- Building what declarations have grown to makes the graphs of the variants. -/
lemma build_eq_mapM {collections : List Collection}
    (h : (List.range (variantTotal ds)).mapM (growAll s.variantSeparator ds · {}) =
      .ok collections) : build { ofSettings s with collections } =
        (List.range (variantTotal ds)).mapM (variantGraph s ds) := by
  have hgraphs : variantGraph s ds = fun number =>
      growAll s.variantSeparator ds number {} >>= Collection.colored s.zeroIsUnset :=
    funext fun number => (growAll_bind_colored s ds number).symm
  rw [hgraphs, Outcome.mapM_bind h]
  rfl

end Builder

/-- If declarations can be added under every choice, the graphs of the sheet are those of its variants,
in order, and what fails is a variant. -/
lemma buildGraphs_eq_mapM {s : Settings} {ds : List Datum}
    (h : ∀ number < Builder.variantTotal ds, ∃ c,
      (Builder.variant ds number).foldlM Collection.add {} = .ok c) :
    buildGraphs s ds = (List.range (Builder.variantTotal ds)).mapM (variantGraph s ds) := by
  obtain ⟨collections, hcollections⟩ : ∃ collections, (List.range (Builder.variantTotal ds)).mapM
      (Builder.growAll s.variantSeparator ds · {}) = .ok collections := by
    rw [Outcome.exists_mapM_eq_ok_iff]
    intro number hnumber
    obtain ⟨c, hc⟩ := h number (List.mem_range.mp hnumber)
    rw [Builder.growAll_eq, hc]
    exact ⟨_, rfl⟩
  unfold buildGraphs
  rw [Builder.addAll_ofSettings_eq_iff.mpr ⟨collections, hcollections, rfl⟩]
  exact Builder.build_eq_mapM hcollections

/-- A sheet has the graphs of its variants, in order and under their suffixes. -/
lemma buildGraphs_eq_ok_iff_mapM {s : Settings} {ds : List Datum} {gs : List Graph} :
    buildGraphs s ds = .ok gs ↔
      (List.range (Builder.variantTotal ds)).mapM (variantGraph s ds) = .ok gs := by
  constructor
  · intro h
    unfold buildGraphs at h
    split at h
    · next b hb =>
      obtain ⟨collections, hcollections, rfl⟩ := Builder.addAll_ofSettings_eq_iff.mp hb
      rw [← Builder.build_eq_mapM hcollections]
      exact h
    · cases h
  · intro h
    rw [buildGraphs_eq_mapM, h]
    intro number hnumber
    obtain ⟨g, hg⟩ := Outcome.exists_mapM_eq_ok_iff.mp ⟨gs, h⟩ number (List.mem_range.mpr hnumber)
    obtain ⟨g', hg', -⟩ := Outcome.map_eq_ok_iff.mp hg
    obtain ⟨c, hc, -⟩ := Outcome.bind_eq_ok_iff.mp hg'
    exact ⟨c, hc⟩

/-- The graph of declarations without alternatives has no suffix. -/
lemma withSuffix_singleGraph (s : Settings) (ds : List Datum) :
    (Graph.withSuffix · []) <$> singleGraph s ds = singleGraph s ds := by
  have hkept := Collection.foldlM_add_withSuffix ds {} []
  unfold singleGraph
  cases hc : ds.foldlM Collection.add {} with
  | error failure => rfl
  | ok c =>
    have hc' : ds.foldlM Collection.add (Collection.withSuffix {} []) = .ok c := hc
    rw [hc', hc] at hkept
    have heq : c = c.withSuffix [] := Except.ok.inj hkept
    change _ <$> c.colored s.zeroIsUnset = c.colored s.zeroIsUnset
    rw [← Collection.colored_withSuffix, ← heq]

/-- Declarations with chosen values have the graph that they have one after the other. -/
lemma buildGraphs_variant_eq_ok_iff {s : Settings} {ds : List Datum} {number : Nat}
    {gs : List Graph} : buildGraphs s (Builder.variant ds number) = .ok gs ↔
      ∃ g, singleGraph s (Builder.variant ds number) = .ok g ∧ gs = [g] := by
  have hsame : variantGraph s (Builder.variant ds number) =
      fun _ => singleGraph s (Builder.variant ds number) := by
    funext number'
    unfold variantGraph
    rw [Builder.variant_variant, Builder.variantSuffix_variant, withSuffix_singleGraph]
  rw [buildGraphs_eq_ok_iff_mapM, Builder.variantTotal_variant, List.range_one, hsame,
    Outcome.mapM_eq_ok_iff, List.forall₂_cons_left_iff]
  constructor
  · rintro ⟨g, gs', hg, hnil, rfl⟩
    cases hnil
    exact ⟨g, hg, rfl⟩
  · rintro ⟨g, hg, rfl⟩
    exact ⟨g, [], hg, .nil, rfl⟩

namespace Builder

/-- Choosing its value leaves a declaration alike. -/
lemma declaredAlike_chosen {d : Datum} (hd : d.HasSteadyNames) (number : Nat) :
    DeclaredAlike (chosen d number) d := by
  unfold chosen
  cases h : alternativesOf d with
  | none => exact ⟨hd, hd, fun _ => Iff.rfl, rfl⟩
  | some parts => exact declaredAlike_withValue hd (isSome_find?_value h) _

/-- Choosing their values leaves declarations alike. -/
lemma forall₂_declaredAlike_variant {ds : List Datum} (hds : ∀ d ∈ ds, d.HasSteadyNames)
    (number : Nat) : List.Forall₂ DeclaredAlike (variant ds number) ds := by
  induction ds generalizing number with
  | nil => exact .nil
  | cons d ds ih =>
    rw [List.forall_mem_cons] at hds
    exact .cons (declaredAlike_chosen hds.1 number) (ih hds.2 _)

end Builder

/-- Of declarations that are alike, all or none have a graph. -/
lemma exists_singleGraph_of_forall₂ {s : Settings} {ds ds' : List Datum}
    (h : List.Forall₂ DeclaredAlike ds ds') (hg : ∃ g, singleGraph s ds = .ok g) :
    ∃ g, singleGraph s ds' = .ok g := by
  obtain ⟨g, hg⟩ := hg
  obtain ⟨c, hc, hcolored⟩ := Outcome.bind_eq_ok_iff.mp hg
  have hempty : ({} : Collection).IsProper := fun d hd => absurd hd List.not_mem_nil
  obtain ⟨c', hc', houtline⟩ := Collection.exists_foldlM_add hempty hempty rfl h hc
  obtain ⟨g', hg'⟩ := Collection.exists_colored houtline ⟨g, hcolored⟩
  exact ⟨g', Outcome.bind_eq_ok_iff.mpr ⟨c', hc', hg'⟩⟩

/-- Declarations with steady names have a graph under some choice if they have one as they are, and
then under every choice. -/
lemma exists_singleGraph_variant_iff {s : Settings} {ds : List Datum}
    (hds : ∀ d ∈ ds, d.HasSteadyNames) (number : Nat) :
    (∃ g, singleGraph s (Builder.variant ds number) = .ok g) ↔ ∃ g, singleGraph s ds = .ok g := by
  have halike := Builder.forall₂_declaredAlike_variant hds number
  constructor
  · exact exists_singleGraph_of_forall₂ halike
  · exact exists_singleGraph_of_forall₂ (halike.flip.imp fun _ _ => DeclaredAlike.symm)

/-- A sheet can be built if every variant can. -/
lemma exists_buildGraphs_iff_forall {s : Settings} {ds : List Datum} :
    (∃ gs, buildGraphs s ds = .ok gs) ↔ ∀ number < Builder.variantTotal ds, ∃ g,
      singleGraph s (Builder.variant ds number) = .ok g := by
  simp only [buildGraphs_eq_ok_iff_mapM]
  rw [Outcome.exists_mapM_eq_ok_iff]
  constructor
  · intro h number hnumber
    obtain ⟨g', hg'⟩ := h number (List.mem_range.mpr hnumber)
    obtain ⟨g, hg, -⟩ := Outcome.map_eq_ok_iff.mp hg'
    exact ⟨g, hg⟩
  · intro h number hnumber
    obtain ⟨g, hg⟩ := h number (List.mem_range.mp hnumber)
    exact ⟨_, Outcome.map_eq_ok_iff.mpr ⟨g, hg, rfl⟩⟩

/-- A sheet with steady names can be built if its declarations have a graph as they are. -/
lemma exists_buildGraphs_iff {s : Settings} {ds : List Datum} (hds : ∀ d ∈ ds, d.HasSteadyNames) :
    (∃ gs, buildGraphs s ds = .ok gs) ↔ ∃ g, singleGraph s ds = .ok g := by
  rw [exists_buildGraphs_iff_forall]
  constructor
  · intro h
    exact (exists_singleGraph_variant_iff hds 0).mp (h 0 (Builder.variantTotal_pos ds))
  · intro h number _
    exact (exists_singleGraph_variant_iff hds number).mpr h

/-- A sheet has as many graphs as there are choices of one alternative in each declaration that has
some, and never none. The graph of a number is the one that is built of the declarations with the
values that its digits choose, under the suffix that tells the choice, and shows the same values. All
of these lists of declarations can be built if the sheet can, and if the names are steady, it is
enough that one of them can. -/
theorem buildGraphs_eq_variants (s : Settings) (ds : List Datum) :
    (∀ gs, buildGraphs s ds = .ok gs →
      gs.length = Builder.variantTotal ds ∧ gs ≠ [] ∧
      ∀ number < Builder.variantTotal ds, ∃ g g',
        buildGraphs s (Builder.variant ds number) = .ok [g] ∧ gs[number]? = some g' ∧
        g' = g.withSuffix (Builder.variantSuffix s.variantSeparator ds number) ∧
        ∀ q : Query, q.read g'.network = q.read g.network) ∧
    ((∃ gs, buildGraphs s ds = .ok gs) ↔
      ∀ number < Builder.variantTotal ds, ∃ gs,
        buildGraphs s (Builder.variant ds number) = .ok gs) ∧
    ((∀ d ∈ ds, d.HasSteadyNames) →
      ((∃ gs, buildGraphs s ds = .ok gs) ↔
        ∃ number < Builder.variantTotal ds, ∃ gs,
          buildGraphs s (Builder.variant ds number) = .ok gs)) := by
  have hvariant : ∀ number, (∃ gs, buildGraphs s (Builder.variant ds number) = .ok gs) ↔
      ∃ g, singleGraph s (Builder.variant ds number) = .ok g := by
    intro number
    simp only [buildGraphs_variant_eq_ok_iff]
    exact ⟨fun ⟨_, g, hg, _⟩ => ⟨g, hg⟩, fun ⟨g, hg⟩ => ⟨[g], g, hg, rfl⟩⟩
  simp only [hvariant]
  refine ⟨?_, exists_buildGraphs_iff_forall, ?_⟩
  · intro gs hgs
    have hgraphs := Outcome.mapM_eq_ok_iff.mp (buildGraphs_eq_ok_iff_mapM.mp hgs)
    have hlength := hgraphs.length_eq
    rw [List.length_range] at hlength
    refine ⟨hlength.symm, ?_, ?_⟩
    · have hpos := Builder.variantTotal_pos ds
      rw [← List.length_pos_iff]
      omega
    · intro number hnumber
      have hget := hgraphs.get (i := number) (by simpa using hnumber) (by omega)
      rw [List.get_eq_getElem, List.getElem_range, variantGraph, Outcome.map_eq_ok_iff] at hget
      obtain ⟨g, hg, hg'⟩ := hget
      refine ⟨g, _, buildGraphs_variant_eq_ok_iff.mpr ⟨g, hg, rfl⟩, ?_, rfl, fun q => rfl⟩
      rw [List.getElem?_eq_getElem (by omega)]
      exact congrArg some hg'.symm
  · intro hds
    rw [exists_buildGraphs_iff hds]
    constructor
    · intro h
      exact ⟨0, Builder.variantTotal_pos ds, (exists_singleGraph_variant_iff hds 0).mpr h⟩
    · rintro ⟨number, -, hg⟩
      exact (exists_singleGraph_variant_iff hds number).mp hg

/-- Two declarations with two alternatives each. -/
def crossedSheet : List Datum :=
  [.map [(.text "name", .text "A"), (.text "color", .text "red"), (.text "value", .text "1|2")],
   .map [(.text "name", .text "B"), (.text "color", .text "red"), (.text "value", .text "3| 4")]]

/-- The declarations of the crossed sheet have steady names. -/
lemma hasSteadyNames_of_mem_crossedSheet : ∀ d ∈ crossedSheet, d.HasSteadyNames := by
  intro d hd
  rcases List.mem_pair.mp hd with rfl | rfl
  · exact Datum.hasSteadyNames_of_isFree rfl fun _ _ h => by cases h
  · exact Datum.hasSteadyNames_of_isFree rfl fun _ _ h => by cases h

/-- The crossed sheet can be built because its first variant can, and it has four graphs. -/
theorem buildGraphs_crossedSheet :
    ∃ gs, buildGraphs {} crossedSheet = .ok gs ∧ gs.length = 4 ∧
      ∃ g : Graph, gs[2]? = some (g.withSuffix "-1-4") := by
  obtain ⟨hgraphs, -, hsome⟩ := buildGraphs_eq_variants {} crossedSheet
  have hfirst : (buildGraphs {} (Builder.variant crossedSheet 0)).isOk := by decide +kernel
  obtain ⟨gs₀, hgs₀⟩ : ∃ gs, buildGraphs {} (Builder.variant crossedSheet 0) = .ok gs := by
    cases h : buildGraphs {} (Builder.variant crossedSheet 0) with
    | ok gs => exact ⟨gs, rfl⟩
    | error failure =>
      rw [h] at hfirst
      cases hfirst
  obtain ⟨gs, hgs⟩ := (hsome hasSteadyNames_of_mem_crossedSheet).mpr ⟨0, by decide, gs₀, hgs₀⟩
  obtain ⟨hlength, -, hnumber⟩ := hgraphs gs hgs
  obtain ⟨g, g', -, hg', hsuffix, -⟩ := hnumber 2 (by decide)
  have htext : Builder.variantSuffix "-" crossedSheet 2 = "-1-4" := by decide +kernel
  rw [hsuffix, htext] at hg'
  exact ⟨gs, hgs, hlength, g, hg'⟩

/-- A declaration that is its own name and has two alternatives, and a declaration with a link to the
name that the first one has with its first alternative. -/
def knottedSheet : List Datum :=
  [.knot
    [.map
      [(.text "name", .strand 0), (.text "color", .text "red"), (.text "value", .text "1|2"),
       (.text "links", .list [.map [(.text "to", .text "X")]])]] 0,
   .map
    [(.text "name", .text "X"),
     (.text "links", .list [.map [(.text "to", .text ("\x7b'name': \x7b...\x7d, 'color': 'red', " ++
       "'value': '1', 'links': [\x7b'to': 'X'\x7d]\x7d" : String))]])]]

/-- A name that contains its own value can close a cycle under one choice and not under another, so
that one variant can be built and the sheet cannot. -/
theorem not_buildGraphs_knottedSheet :
    ¬ ((∃ gs, buildGraphs {} knottedSheet = .ok gs) ↔
      ∃ number < Builder.variantTotal knottedSheet, ∃ gs,
        buildGraphs {} (Builder.variant knottedSheet number) = .ok gs) := by
  have hsecond : (buildGraphs {} (Builder.variant knottedSheet 1)).isOk := by decide +kernel
  have hall : (buildGraphs {} knottedSheet).isOk = false := by decide +kernel
  intro hiff
  cases h : buildGraphs {} (Builder.variant knottedSheet 1) with
  | error failure =>
    rw [h] at hsecond
    cases hsecond
  | ok gs₁ =>
    obtain ⟨gs, hgs⟩ := hiff.mpr ⟨1, by decide, gs₁, h⟩
    rw [hgs] at hall
    cases hall

end StockFlow
