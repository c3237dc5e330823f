import StockFlow.Proofs.Sheet.Hidden
import StockFlow.Proofs.Value.Hidden
/-!
# Values and presentation

Values do not show in how a graph looks, and its looks do not show in its values
(`values_apart_from_looks`). Sheets that agree but for values have graphs with the same nodes and links in
the same colours; sheets that agree but for colours and descriptions have graphs in which every question
about values has the same answer. If one of two such sheets cannot be built, then neither can the other
one, and for a reason of the same kind.

The builders of the two sheets take their declarations side by side: they hold collections that agree, in
the same order, and go on alike with every declaration (`Builder.AgreesBut.alike_addAll`). That a
collection takes a declaration like another one needs that what it is merged into does not contain itself;
for this each collection is known to gather the declarations of a variant
(`Builder.takesPlainly_of_addAll`).

One exception lies in the rules of colours. A node that is given a colour does not ask the palette for one,
which can only be done for a name that has an encoding, so a colour may save a sheet from failing. The
others come from declarations that contain themselves and from numbers that are too long to be written.
-/

namespace StockFlow

variable {hidden : List Field} {excused : Failure → Prop}

/-! ## Ordinary declarations -/

/-- Declarations that are values by themselves and have a name or can be written, where no declaration
contains itself that has alternatives or is the first one of several of a name. -/
structure AreOrdinary (ds : List Datum) : Prop where
  closed : ∀ d ∈ ds, d.isClosed
  reported : ∀ d ∈ ds, d.IsReportable
  merges : MergesPlainly ds
  chosen : ∀ d ∈ ds, (Builder.alternativesOf d).isSome → ∀ strands place, d ≠ .knot strands place

/-- The first ones of ordinary declarations are ordinary. -/
lemma AreOrdinary.of_append {ds rest : List Datum} (h : AreOrdinary (ds ++ rest)) : AreOrdinary ds where
  closed d hd := h.closed d (List.mem_append_left _ hd)
  reported d hd := h.reported d (List.mem_append_left _ hd)
  merges := h.merges.of_append
  chosen d hd := h.chosen d (List.mem_append_left _ hd)

/-- Entries can be written if their keys and their values can. -/
lemma isSome_writeEntryLiterals_cons (entry : Atom × Datum) (entries : Entries) :
    (writeEntryLiterals (entry :: entries) fun _ => none).isSome ↔
      entry.1.literal?.isSome ∧ entry.2.literal?.isSome ∧
        (writeEntryLiterals entries fun _ => none).isSome := by
  obtain ⟨key, value⟩ := entry
  unfold Datum.literal?
  rw [writeEntryLiterals]
  cases key.literal? with
  | none => simp
  | some keyText =>
    cases value.writeLiteral fun _ => none with
    | none => simp
    | some valueText => cases writeEntryLiterals entries fun _ => none <;> simp

/-- A mapping that can be written still can be with a text under some key. -/
lemma isSome_literal?_insert {entries : Entries} (h : (Datum.map entries).literal?.isSome)
    (key part : Text) :
    (Datum.map (Entries.insert entries (.text key) (.text part))).literal?.isSome := by
  have hiff : ∀ entries : Entries, (Datum.map entries).literal?.isSome ↔
      (writeEntryLiterals entries fun _ => none).isSome := by
    intro entries
    unfold Datum.literal?
    rw [Datum.writeLiteral]
    cases writeEntryLiterals entries fun _ => none with
    | none => exact Iff.rfl
    | some parts => exact Iff.rfl
  rw [hiff] at h ⊢
  induction entries with
  | nil => rfl
  | cons entry entries ih =>
    obtain ⟨hkey, hvalue, hrest⟩ := (isSome_writeEntryLiterals_cons entry entries).mp h
    unfold Entries.insert
    split
    · exact (isSome_writeEntryLiterals_cons _ _).mpr ⟨hkey, rfl, hrest⟩
    · exact (isSome_writeEntryLiterals_cons _ _).mpr ⟨hkey, hvalue, ih hrest⟩

namespace Builder

/-- What stands for a declaration under some choice: it has the same name, and it contains itself only if
the declaration does. -/
structure StandsFor (v d : Datum) : Prop where
  closed : v.isClosed
  reported : v.IsReportable
  name : ∀ name, declaredName v = .ok name ↔ declaredName d = .ok name
  knot : ∀ strands place, v = .knot strands place → d = .knot strands place

/-- A declaration with a chosen value stands for the declaration. -/
lemma standsFor_chosen {d : Datum} (hclosed : d.isClosed) (hreported : d.IsReportable)
    (hknot : (alternativesOf d).isSome → ∀ strands place, d ≠ .knot strands place) (number : ℕ) :
    StandsFor (chosen d number) d := by
  unfold chosen
  cases hparts : alternativesOf d with
  | none => exact ⟨hclosed, hreported, fun _ => Iff.rfl, fun _ _ h => h⟩
  | some parts =>
    have hplain := hknot (Option.isSome_of_eq_some hparts)
    have halike := declaredAlike_withValue
      (Datum.hasSteadyNames_of_isFree (Datum.isFree_of_isClosed hclosed) hplain)
      (isSome_find?_value hparts) (parts.getD (number % parts.length) "")
    have hmapping := isSome_fields? hparts
    cases d with
    | map entries =>
      refine ⟨halike.steady.closed, ?_, halike.name, fun _ _ h => by cases h⟩
      rcases hreported with ⟨fields, hfields, hname⟩ | hliteral
      · cases hfields
        refine .inl ⟨_, rfl, ?_⟩
        rw [Entries.get_insert_of_ne _ (by decide)]
        exact hname
      · exact .inr (isSome_literal?_insert hliteral "value" _)
    | knot strands place => exact absurd rfl (hplain strands place)
    | _ => cases hmapping

/-- Every variant of ordinary declarations stands for them. -/
lemma forall₂_standsFor_variant {ds : List Datum} (h : AreOrdinary ds) (number : ℕ) :
    List.Forall₂ StandsFor (variant ds number) ds := by
  have hall : ∀ d ∈ ds, ∀ number, StandsFor (chosen d number) d := fun d hd =>
    standsFor_chosen (h.closed d hd) (h.reported d hd) (h.chosen d hd)
  clear h
  induction ds generalizing number with
  | nil => exact .nil
  | cons d ds ih =>
    rw [List.forall_mem_cons] at hall
    exact .cons (hall.1 number) (ih _ hall.2)

/-- What stands for declarations that merge plainly merges plainly. -/
lemma mergesPlainly_of_standsFor {vs ds : List Datum} (h : List.Forall₂ StandsFor vs ds)
    (hds : MergesPlainly ds) : MergesPlainly vs := by
  intro name first second rest hvs strands place hknot
  have hnames : List.Forall₂ StandsFor (declarationsOf vs name) (declarationsOf ds name) := by
    refine List.rel_filter (fun v d hv => ?_) h
    exact decide_eq_true_iff.trans ((hv.name name).trans decide_eq_true_iff.symm)
  rw [hvs] at hnames
  obtain ⟨first', rest', hfirst, hrest, hfirst'⟩ := List.forall₂_cons_left_iff.mp hnames
  obtain ⟨second', others, -, -, rfl⟩ := List.forall₂_cons_left_iff.mp hrest
  exact hds name first' second' others hfirst' strands place (hfirst.knot strands place hknot)

/-- A builder that has collections, all of which take a declaration plainly under every choice. -/
structure TakesPlainly (b : Builder) (d : Datum) : Prop where
  ne_nil : b.collections ≠ []
  takes : ∀ c ∈ b.collections, ∀ number, c.TakesPlainly (chosen d number)

/-- A builder that has taken ordinary declarations takes a further one plainly. -/
lemma takesPlainly_of_addAll {s : Settings} {b : Builder} {done : List Datum} {d : Datum}
    (h : AreOrdinary (done ++ [d])) (hb : (ofSettings s).addAll done = (b, none)) :
    b.TakesPlainly d := by
  obtain ⟨collections, hcollections, rfl⟩ := addAll_ofSettings_eq_iff.mp hb
  constructor
  · have hlength := (Outcome.mapM_eq_ok_iff.mp hcollections).length_eq
    rw [List.length_range] at hlength
    exact List.ne_nil_of_length_pos (hlength ▸ variantTotal_pos done)
  intro c hc number name existing hname hfind
  obtain ⟨number', -, hgrown⟩ := Outcome.exists_of_mem_of_mapM_eq_ok hcollections hc
  rw [growAll_eq] at hgrown
  obtain ⟨c₀, hc₀, rfl⟩ := Outcome.map_eq_ok_iff.mp hgrown
  have hvariant := forall₂_standsFor_variant h.of_append number'
  have hclosed : ∀ v ∈ variant done number', v.isClosed :=
    ((List.forall₂_and_left (p := (Datum.isClosed ·)) _ _).mp
      (hvariant.imp fun v d hv => ⟨hv.closed, hv⟩)).1
  have hd : d ∈ done ++ [d] := List.mem_append_right _ (List.mem_singleton_self d)
  have hstands := standsFor_chosen (h.closed d hd) (h.reported d hd) (h.chosen d hd) number
  have hplain : MergesPlainly (variant done number' ++ [chosen d number]) :=
    mergesPlainly_of_standsFor (List.rel_append hvariant (.cons hstands .nil)) h.merges
  have hgathers := Collection.gathers_foldlM hclosed hplain.of_append hc₀
  exact hgathers.exists_map hclosed hplain hname hfind

/-! ## Builders side by side -/

/-- Declarations with the same alternatives that agree but for hidden fields under every choice. -/
structure ChoosesAlike (hidden : List Field) (d d' : Datum) : Prop where
  alternatives : alternativesOf d = alternativesOf d'
  agrees : ∀ number, (chosen d number).AgreesBut hidden (chosen d' number)

/-- Declarations without alternatives that agree do so under every choice. -/
lemma choosesAlike_of_eq_none {d d' : Datum} (h : d.AgreesBut hidden d') (hd : alternativesOf d = none)
    (hd' : alternativesOf d' = none) : ChoosesAlike hidden d d' where
  alternatives := hd.trans hd'.symm
  agrees number := by
    unfold chosen
    rw [hd, hd']
    exact h

/-- Declarations that agree do so under every choice, if values are not hidden and neither contains
itself where it has alternatives. -/
lemma choosesAlike_of_notMem {d d' : Datum} (h : d.AgreesBut hidden d') (hvalue : .value ∉ hidden)
    (hd : (alternativesOf d).isSome → ∀ strands place, d ≠ .knot strands place)
    (hd' : (alternativesOf d').isSome → ∀ strands place, d' ≠ .knot strands place) :
    ChoosesAlike hidden d d' := by
  have halternatives : alternativesOf d = alternativesOf d' := by
    have hsame : Entries.get (d.fields?.getD []) "value" = Entries.get (d'.fields?.getD []) "value" :=
      h.entries.get_key hvalue
    unfold alternativesOf alternatives?
    rw [hsame]
  refine ⟨halternatives, fun number => ?_⟩
  rcases h with rfl | ⟨fields, fields', hfields, hfields', h⟩
  · exact Datum.AgreesBut.refl _
  unfold chosen
  rw [← halternatives]
  cases hparts : alternativesOf d with
  | none => exact .inr ⟨fields, fields', hfields, hfields', h⟩
  | some parts =>
    have hmap : ∀ {d : Datum} {fields : Entries}, d.fields? = some fields →
        (∀ strands place, d ≠ .knot strands place) → d = .map fields := by
      intro d fields hfields hknot
      cases d with
      | map entries =>
        cases hfields
        rfl
      | knot strands place => exact absurd rfl (hknot strands place)
      | _ => cases hfields
    rw [hmap hfields (hd (Option.isSome_of_eq_some hparts)),
      hmap hfields' (hd' (halternatives ▸ Option.isSome_of_eq_some hparts))]
    exact .inr ⟨_, _, rfl, rfl, h.insert_key .value _⟩

/-- Builders with collections that agree in pairs but for hidden fields. -/
structure AgreesBut (hidden : List Field) (b b' : Builder) : Prop where
  separator : b.separator = b'.separator
  zeroIsUnset : b.zeroIsUnset = b'.zeroIsUnset
  collections : List.Forall₂ (Collection.AgreesBut hidden) b.collections b'.collections

variable {b b' : Builder} {d d' : Datum}

/-- Builders that agree take declarations that agree under every choice, and still agree then. -/
lemma AgreesBut.alike_add (h : b.AgreesBut hidden b') (hchoice : ChoosesAlike hidden d d')
    (hreport : ∀ number, (chosen d number).IsReportable)
    (hreport' : ∀ number, (chosen d' number).IsReportable)
    (hplain : b.TakesPlainly d) (hplain' : b'.TakesPlainly d') :
    Outcome.Alike excused (AgreesBut hidden) (completed (b.add d)) (completed (b'.add d')) := by
  have hcount : choiceCount d = choiceCount d' := by
    unfold choiceCount
    rw [hchoice.alternatives]
  have hsuffix : ∀ separator number,
      chosenSuffix separator d number = chosenSuffix separator d' number := by
    intro separator number
    unfold chosenSuffix
    rw [hchoice.alternatives]
  rw [completed_add_eq_mapM hplain.ne_nil, completed_add_eq_mapM hplain'.ne_nil, hcount, h.separator]
  have hblocks : Outcome.Alike excused (List.Forall₂ (List.Forall₂ (Collection.AgreesBut hidden)))
      ((List.range (choiceCount d')).mapM fun block =>
        b.collections.mapM (grow b'.separator d block))
      ((List.range (choiceCount d')).mapM fun block =>
        b'.collections.mapM (grow b'.separator d' block)) := by
    refine Outcome.Alike.mapM (List.forall₂_same.mpr fun block _ => Outcome.Alike.mapM ?_)
    have hall := Outcome.forall₂_and h.collections hplain.takes hplain'.takes
    refine hall.imp fun c c' ⟨hc, htakes, htakes'⟩ => ?_
    unfold grow
    refine (hc.alike_add (hchoice.agrees block) (hreport block) (hreport' block) (htakes block)
      (htakes' block)).bind fun added added' hadded => .ok ⟨?_, hadded.pairs⟩
    unfold Collection.withSuffix
    rw [hc.suffix, hsuffix]
  refine Outcome.Alike.map (R := List.Forall₂ (Collection.AgreesBut hidden))
    (hblocks.map fun _ _ hblocks => List.rel_flatten hblocks) fun cs cs' hcs => ?_
  exact ⟨rfl, h.zeroIsUnset, hcs⟩

/-- Builders that have taken ordinary declarations and agree take further ones side by side, and still
agree when they have taken them all. -/
theorem AgreesBut.alike_addAll {s : Settings} {done done' rest rest' : List Datum}
    (hb : (ofSettings s).addAll done = (b, none)) (hb' : (ofSettings s).addAll done' = (b', none))
    (h : b.AgreesBut hidden b') (hds : AreOrdinary (done ++ rest)) (hds' : AreOrdinary (done' ++ rest'))
    (hrest : List.Forall₂ (ChoosesAlike hidden) rest rest') :
    Outcome.Alike excused (AgreesBut hidden) (completed (b.addAll rest)) (completed (b'.addAll rest')) := by
  induction hrest generalizing done done' b b' with
  | nil => exact .ok h
  | @cons d d' rest rest' hd _ ih =>
    rw [List.append_cons] at hds hds'
    have hreported : ∀ {done rest : List Datum} {d : Datum}, AreOrdinary (done ++ [d] ++ rest) →
        ∀ number, (chosen d number).IsReportable := by
      intro done rest d hds number
      have hd : d ∈ done ++ [d] ++ rest := by simp
      exact (standsFor_chosen (hds.closed d hd) (hds.reported d hd) (hds.chosen d hd) number).reported
    have hconcat : ∀ {done : List Datum} {d : Datum} {b b₁ : Builder},
        (ofSettings s).addAll done = (b, none) → completed (b.add d) = .ok b₁ →
        (ofSettings s).addAll (done ++ [d]) = (b₁, none) := by
      intro done d b b₁ hb hb₁
      rw [← completed_eq_ok_iff] at hb ⊢
      rw [completed_addAll_concat, hb]
      exact hb₁
    have hfirst : Outcome.Alike excused (AgreesBut hidden) (completed (b.add d)) (completed (b'.add d')) :=
      h.alike_add hd (hreported hds) (hreported hds') (takesPlainly_of_addAll hds.of_append hb)
        (takesPlainly_of_addAll hds'.of_append hb')
    rw [completed_addAll_cons, completed_addAll_cons]
    refine (hfirst.imp_of_eq_ok fun b₁ b₁' hb₁ hb₁' hagree =>
      And.intro hagree (And.intro (hconcat hb hb₁) (hconcat hb' hb₁'))).bind ?_
    exact fun b₁ b₁' ⟨hagree, hb₁, hb₁'⟩ => ih hb₁ hb₁' hagree hds hds'

end Builder

/-! ## Sheets side by side -/

namespace Collection

variable {c c' : Collection}

/-- Where colours are not hidden, collections that agree have graphs that agree when they are coloured. -/
lemma AgreesBut.alike_colored (h : c.AgreesBut hidden c') (hcolor : .color ∉ hidden)
    (zeroIsUnset : Bool) :
    Outcome.Alike excused (Graph.AgreesBut hidden) (c.colored zeroIsUnset) (c'.colored zeroIsUnset) := by
  refine (h.alike_toGraph _).bind fun g g' hg => ?_
  obtain ⟨hcolored, hfailure⟩ := hg.colorNodes hcolor category10
  dsimp only
  generalize g.colorNodes category10 = x at hcolored hfailure
  generalize g'.colorNodes category10 = x' at hcolored hfailure
  obtain ⟨colored, failure?⟩ := x
  obtain ⟨colored', failure?'⟩ := x'
  obtain rfl : failure? = failure?' := hfailure
  cases failure? with
  | none => exact .ok hcolored
  | some failure => exact .error rfl

/-- Where colours are hidden, collections that agree have graphs that agree when they are coloured, unless
a node of one of them has a name without an encoding. -/
lemma AgreesBut.alike_colored_of_mem (h : c.AgreesBut hidden c') (hcolor : .color ∈ hidden)
    (zeroIsUnset : Bool) :
    Outcome.Alike (· = .notEncodable) (Graph.AgreesBut hidden) (c.colored zeroIsUnset)
      (c'.colored zeroIsUnset) := by
  have hfails : ∀ (g : Graph) (failure : Failure), (g.colorNodes category10).2 = some failure →
      failure = .notEncodable := fun g failure hfailure =>
    Graph.colorNodes_fails (P := (· = .notEncodable))
      (fun n _ => failsIn_paletteColor (by decide) n.name) hfailure
  refine (h.alike_toGraph _).bind fun g g' hg => ?_
  have hcolored := hg.colorNodes_of_mem hcolor category10
  have hfails₁ := hfails g
  have hfails₂ := hfails g'
  dsimp only
  generalize g.colorNodes category10 = x at hcolored hfails₁
  generalize g'.colorNodes category10 = x' at hcolored hfails₂
  obtain ⟨colored, failure?⟩ := x
  obtain ⟨colored', failure?'⟩ := x'
  cases failure? with
  | some failure =>
    refine .left ?_ _
    exact hfails₁ failure rfl
  | none =>
    cases failure?' with
    | some failure =>
      refine .right ?_ _
      exact hfails₂ failure rfl
    | none => exact .ok hcolored

end Collection

/-- A sheet is built when all declarations have been added. -/
lemma buildGraphs_eq_bind (s : Settings) (ds : List Datum) :
    buildGraphs s ds = Builder.completed ((Builder.ofSettings s).addAll ds) >>= Builder.build := by
  unfold buildGraphs
  obtain ⟨b, failure?⟩ := (Builder.ofSettings s).addAll ds
  cases failure? with
  | none => rfl
  | some failure => rfl

/-- Sheets of ordinary declarations that agree under every choice are built alike, if collections that
agree are coloured alike. -/
lemma alike_buildGraphs {s : Settings} {ds ds' : List Datum} (hds : AreOrdinary ds)
    (hds' : AreOrdinary ds') (h : List.Forall₂ (Builder.ChoosesAlike hidden) ds ds')
    (hcolored : ∀ c c' : Collection, c.AgreesBut hidden c' → ∀ zeroIsUnset,
      Outcome.Alike excused (Graph.AgreesBut hidden) (c.colored zeroIsUnset) (c'.colored zeroIsUnset)) :
    Outcome.Alike excused (List.Forall₂ (Graph.AgreesBut hidden)) (buildGraphs s ds)
      (buildGraphs s ds') := by
  have hstart : (Builder.ofSettings s).AgreesBut hidden (Builder.ofSettings s) :=
    ⟨rfl, rfl, .cons ⟨rfl, .nil⟩ .nil⟩
  have hnone : (Builder.ofSettings s).addAll [] = (Builder.ofSettings s, none) := rfl
  have hadded : Outcome.Alike excused (Builder.AgreesBut hidden)
      (Builder.completed ((Builder.ofSettings s).addAll ds))
      (Builder.completed ((Builder.ofSettings s).addAll ds')) :=
    hstart.alike_addAll hnone hnone hds hds' h
  rw [buildGraphs_eq_bind, buildGraphs_eq_bind]
  refine hadded.bind fun b b' hb => ?_
  change Outcome.Alike excused _ (b.collections.mapM (Collection.colored b.zeroIsUnset))
    (b'.collections.mapM (Collection.colored b'.zeroIsUnset))
  rw [hb.zeroIsUnset]
  exact Outcome.Alike.mapM (hb.collections.imp fun c c' hc => hcolored c c' hc b'.zeroIsUnset)

/-- Of two sheets both have graphs with the same nodes and links in the same order, with the same parents,
colours and descriptions, or neither can be built, for reasons of one kind. -/
def LookAlike (s : Settings) (ds ds' : List Datum) : Prop :=
  Outcome.Alike (fun _ => False) (List.Forall₂ (Graph.AgreesBut [.value])) (buildGraphs s ds)
    (buildGraphs s ds')

/-- Of two sheets both have graphs that give the same answers to all questions about values, whatever has
been remembered and whatever room there is on the stack, or neither can be built, for reasons of one kind;
if neither fails in an excused way. -/
def AnswerAlike (excused : Failure → Prop) (s : Settings) (ds ds' : List Datum) : Prop :=
  Outcome.Alike excused
    (List.Forall₂ fun g g' => ∀ memo? room r queries,
      LiveGraph.answers ⟨g, memo?⟩ room r queries = LiveGraph.answers ⟨g', memo?⟩ room r queries)
    (buildGraphs s ds) (buildGraphs s ds')

/-- **Values and presentation do not show in each other.**  Sheets of ordinary declarations without
alternatives that agree but for values look alike. Sheets of ordinary declarations that agree but for
colours and descriptions give the same answers, unless one of them fails because a name has no
encoding. -/
theorem values_apart_from_looks (s : Settings) {ds ds' : List Datum} (hds : AreOrdinary ds)
    (hds' : AreOrdinary ds') :
    (List.Forall₂ (Datum.AgreesBut [.value]) ds ds' →
      (∀ d ∈ ds ++ ds', Builder.alternativesOf d = none) → LookAlike s ds ds') ∧
    (List.Forall₂ (Datum.AgreesBut [.color, .description]) ds ds' →
      AnswerAlike (· = .notEncodable) s ds ds') := by
  constructor
  · intro h hsingle
    refine alike_buildGraphs hds hds' ?_ fun c c' hc => hc.alike_colored (by decide)
    have hnone := fun d hd => hsingle d (List.mem_append_left _ hd)
    have hnone' := fun d hd => hsingle d (List.mem_append_right _ hd)
    exact (Outcome.forall₂_and h hnone hnone').imp fun d d' ⟨hd, hnone, hnone'⟩ =>
      Builder.choosesAlike_of_eq_none hd hnone hnone'
  · intro h
    have hchoices : List.Forall₂ (Builder.ChoosesAlike [.color, .description]) ds ds' :=
      (Outcome.forall₂_and h hds.chosen hds'.chosen).imp fun d d' ⟨hd, hknot, hknot'⟩ =>
        Builder.choosesAlike_of_notMem hd (by decide) hknot hknot'
    refine (alike_buildGraphs hds hds' hchoices fun c c' hc =>
      hc.alike_colored_of_mem (by decide)).imp_of_eq_ok fun gs gs' _ _ hgs => ?_
    exact hgs.imp fun g g' hg => hg.answers_eq (by decide)

/-- A sheet of two stocks and a link between them, where the first stock and the link have some more
entries. -/
def springSheet (stock link : Entries) : List Datum :=
  [.map ((.text "name", .text "Spring") ::
      (.text "links", .list [.map ((.text "to", .text "Pond") :: link)]) :: stock),
    .map [(.text "name", .text "Pond"), (.text "color", .text "blue")]]

/-- The declarations of a spring sheet are ordinary if what is added to them is free. -/
lemma areOrdinary_springSheet {stock link : Entries} (hstock : Datum.entriesAreFree stock)
    (hlink : Datum.entriesAreFree link) : AreOrdinary (springSheet stock link) := by
  have hplain : ∀ d ∈ springSheet stock link, ∀ strands place, d ≠ .knot strands place := by
    simp [springSheet]
  refine ⟨fun d hd => ?_, fun d hd => ?_, mergesPlainly_of_forall_ne_knot hplain,
    fun d hd _ => hplain d hd⟩
  · rcases List.mem_pair.mp hd with rfl | rfl
    · simp [Datum.isClosed, Datum.isFree, Datum.areFree, Datum.entriesAreFree, hstock, hlink]
    · rfl
  · rcases List.mem_pair.mp hd with rfl | rfl
    · exact .inl ⟨_, rfl, fun h => by cases h⟩
    · exact .inl ⟨_, rfl, fun h => by cases h⟩

/-- Spring sheets agree if what is added to their declarations is the same but for hidden fields. -/
lemma forall₂_springSheet {stock stock' link link' : Entries}
    (hstock : Entries.SameBut ("links" :: hidden.map Field.key) stock stock')
    (hlink : Entries.SameBut (hidden.map Field.key) link link') :
    List.Forall₂ (Datum.AgreesBut hidden) (springSheet stock link) (springSheet stock' link') := by
  refine .cons (.inr ⟨_, _, rfl, rfl, ⟨?_, ?_⟩⟩) (.cons (Datum.AgreesBut.refl _) .nil)
  · exact .cons (hstock.cons_cons List.mem_cons_self _ _) _
  · exact .inr ⟨_, _, rfl, rfl, .cons (.inr ⟨_, _, rfl, rfl, hlink.cons _⟩) .nil⟩

/-- The spring sheet with a value of the stock and a share of it on the link looks the same without the
value and with the rest on the link, and gives the same answers in other colours; and all of these can be
built. -/
theorem values_apart_from_looks_springSheet :
    let valued := springSheet [(.text "value", .int 100)] [(.text "value", .text "30%")]
    let revalued := springSheet [] [(.text "value", .text "rest")]
    let repainted := springSheet [(.text "color", .text "random"), (.text "value", .int 100)]
      [(.text "description", .text "steady"), (.text "value", .text "30%")]
    LookAlike {} valued revalued ∧ AnswerAlike (· = .notEncodable) {} valued repainted ∧
      ∀ ds ∈ [valued, revalued, repainted], (buildGraphs {} ds).isOk := by
  refine ⟨?_, ?_, by decide +kernel⟩
  · refine (values_apart_from_looks {} (areOrdinary_springSheet rfl rfl)
      (areOrdinary_springSheet rfl rfl)).1 (forall₂_springSheet ?_ ?_) (by decide +kernel)
    · exact .cons_left (.refl _ _) (by decide) _
    · exact .cons_cons (.refl _ _) (by decide) _ _
  · refine (values_apart_from_looks {} (areOrdinary_springSheet rfl rfl)
      (areOrdinary_springSheet rfl rfl)).2 (forall₂_springSheet ?_ ?_)
    · exact .symm (.cons_left (.refl _ _) (by decide) _)
    · exact .symm (.cons_left (.refl _ _) (by decide) _)

/-! ## Sheets that do not look or answer alike -/

/-- A declaration that is the target of its own link, and a further declaration of its name, whose link has
some more entries. -/
def ringSheet (link : Entries) : List Datum :=
  [.knot
    [.map [(.text "name", .text "A"), (.text "links", .list [.map [(.text "to", .strand 0)]])]] 0,
    .map [(.text "name", .text "A"),
      (.text "links", .list [.map ((.text "to", .text "B") :: link)])]]

/-- A declaration whose name contains itself. It has the same alternatives as its name and another
colour. -/
def namesake : Datum :=
  .map [(.text "name", Builder.selfNamed), (.text "color", .text "blue"), (.text "value", .text "1|2")]

/-- The least number that is too long to be written. -/
def longNumber : ℤ := Int.ofNat (10 ^ maxDigits)

/-- A declaration without a name. -/
def namelessSheet (value : ℤ) : List Datum := [.map [(.text "value", .int value)]]

/-- A declaration of a name without an encoding, with some more entries. -/
def nightSheet (node : Entries) : List Datum :=
  [.map ((.text "name", .text [.ofNumber CodePoint.firstSurrogate]) :: node)]

/-- Ring sheets with and without a value agree but for values. -/
lemma forall₂_ringSheet : List.Forall₂ (Datum.AgreesBut [.value]) (ringSheet [])
    (ringSheet [(.text "value", .int 1)]) := by
  refine .cons (Datum.AgreesBut.refl _) (.cons (.inr ⟨_, _, rfl, rfl, ⟨?_, ?_⟩⟩) .nil)
  · exact .cons (.cons_cons (.refl _ _) (by decide) _ _) _
  · refine .inr ⟨_, _, rfl, rfl, .cons (.inr ⟨_, _, rfl, rfl, .cons ?_ _⟩) .nil⟩
    exact .symm (.cons_left (.refl _ _) (by decide) _)

/-- Declarations without a name agree but for values. -/
lemma forall₂_namelessSheet (value value' : ℤ) : List.Forall₂ (Datum.AgreesBut [.value])
    (namelessSheet value) (namelessSheet value') := by
  have hlinks : ∀ value : ℤ, Entries.get [(.text "value", .int value)] "links" = .null := fun _ => rfl
  refine .cons (.inr ⟨_, _, rfl, rfl, ⟨?_, .inl ((hlinks value).trans (hlinks value').symm)⟩⟩) .nil
  exact .cons_cons (.refl _ _) (by decide) _ _

/-- A value that is merged into a declaration that contains itself becomes part of a name. -/
lemma not_lookAlike_ringSheet : ¬LookAlike {} (ringSheet []) (ringSheet [(.text "value", .int 1)]) := by
  intro h
  have hnames : (buildGraphs {} (ringSheet [])).toOption.map (·.map fun g => g.nodes.map Node.name) ≠
      (buildGraphs {} (ringSheet [(.text "value", .int 1)])).toOption.map
        (·.map fun g => g.nodes.map Node.name) := by
    decide +kernel
  obtain ⟨gs, gs', hgs, hgs', hagree⟩ := h.exists_ok (by decide +kernel) (by decide +kernel)
  rw [hgs, hgs'] at hnames
  refine hnames (congrArg some ?_)
  rw [← List.forall₂_eq_eq_eq, List.forall₂_map_left_iff, List.forall₂_map_right_iff]
  refine hagree.imp fun g g' hg => ?_
  rw [← List.forall₂_eq_eq_eq, List.forall₂_map_left_iff, List.forall₂_map_right_iff]
  exact hg.nodes.imp fun n n' hn => hn.name

/-- A number that is too long to be written changes the kind of a failure. -/
lemma not_lookAlike_namelessSheet : ¬LookAlike {} (namelessSheet 1) (namelessSheet longNumber) := by
  intro h
  have hkinds : ((buildGraphs {} (namelessSheet 1)).map fun _ => ()).mapError Failure.kind ≠
      ((buildGraphs {} (namelessSheet longNumber)).map fun _ => ()).mapError Failure.kind := by
    decide +kernel
  exact hkinds h.mapError_kind_eq

/-- The choice of an alternative shows in a name that contains itself only if the name is that of the
declaration itself. -/
lemma not_answerAlike_namesake :
    ¬AnswerAlike (fun _ => False) {} [Builder.selfNamed] [namesake] := by
  intro h
  have hanswers : (buildGraphs {} [Builder.selfNamed]).toOption.map (·.map fun g =>
        (LiveGraph.answers ⟨g, none⟩ 9 {} [.node
          ("\x7b'name': \x7b...\x7d, 'color': 'red', 'value': '1'\x7d" : String)]).map Except.isOk) ≠
      (buildGraphs {} [namesake]).toOption.map (·.map fun g =>
        (LiveGraph.answers ⟨g, none⟩ 9 {} [.node
          ("\x7b'name': \x7b...\x7d, 'color': 'red', 'value': '1'\x7d" : String)]).map Except.isOk) := by
    decide +kernel
  obtain ⟨gs, gs', hgs, hgs', halike⟩ := h.exists_ok (by decide +kernel) (by decide +kernel)
  rw [hgs, hgs'] at hanswers
  refine hanswers (congrArg some ?_)
  rw [← List.forall₂_eq_eq_eq, List.forall₂_map_left_iff, List.forall₂_map_right_iff]
  exact halike.imp fun g g' hg => congrArg (List.map Except.isOk) (hg none 9 {} _)

/-- A colour saves a node whose name has no encoding. -/
lemma not_answerAlike_nightSheet :
    ¬AnswerAlike (fun _ => False) {} (nightSheet []) (nightSheet [(.text "color", .text "red")]) := by
  intro h
  have hkinds : ((buildGraphs {} (nightSheet [])).map fun _ => ()).mapError Failure.kind ≠
      ((buildGraphs {} (nightSheet [(.text "color", .text "red")])).map fun _ => ()).mapError
        Failure.kind := by
    decide +kernel
  exact hkinds h.mapError_kind_eq

/-- Sheets that agree but for values need not look alike, and sheets that agree but for colours and
descriptions need not give the same answers, where a declaration contains itself, cannot be written or has
a name without an encoding. -/
theorem not_values_apart_from_looks :
    (List.Forall₂ (Datum.AgreesBut [.value]) (ringSheet []) (ringSheet [(.text "value", .int 1)]) ∧
      (∀ d ∈ ringSheet [] ++ ringSheet [(.text "value", .int 1)], Builder.alternativesOf d = none) ∧
      ¬LookAlike {} (ringSheet []) (ringSheet [(.text "value", .int 1)])) ∧
    (List.Forall₂ (Datum.AgreesBut [.value]) (namelessSheet 1) (namelessSheet longNumber) ∧
      (∀ d ∈ namelessSheet 1 ++ namelessSheet longNumber, Builder.alternativesOf d = none) ∧
      ¬LookAlike {} (namelessSheet 1) (namelessSheet longNumber)) ∧
    (List.Forall₂ (Datum.AgreesBut [.color, .description]) [Builder.selfNamed] [namesake] ∧
      ¬AnswerAlike (fun _ => False) {} [Builder.selfNamed] [namesake]) ∧
    (List.Forall₂ (Datum.AgreesBut [.color, .description]) (nightSheet [])
        (nightSheet [(.text "color", .text "red")]) ∧
      ¬AnswerAlike (fun _ => False) {} (nightSheet []) (nightSheet [(.text "color", .text "red")])) := by
  refine ⟨⟨forall₂_ringSheet, by decide +kernel, not_lookAlike_ringSheet⟩,
    ⟨forall₂_namelessSheet 1 longNumber, fun d hd => ?_, not_lookAlike_namelessSheet⟩,
    ⟨?_, not_answerAlike_namesake⟩, ⟨?_, not_answerAlike_nightSheet⟩⟩
  · rcases List.mem_pair.mp hd with rfl | rfl
    · rfl
    · rfl
  · refine .cons (.inr ⟨_, _, rfl, rfl, ⟨.cons ?_ _, .inl rfl⟩⟩) .nil
    exact .cons_cons (.refl _ _) (by decide) _ _
  · refine .cons (.inr ⟨_, _, rfl, rfl, ⟨.cons ?_ _, .inl rfl⟩⟩) .nil
    exact .symm (.cons_left (.refl _ _) (by decide) _)

end StockFlow
