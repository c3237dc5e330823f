import Mathlib
import StockFlow.Proofs.Binary64.Hundredths
import StockFlow.Proofs.Numeral
import StockFlow.Proofs.Value.Flow
/-!
# Percentages of whole numbers

A link may ask for a whole percentage of its source (`percentText`). If the source has a whole value,
then the value of the link is a rounded hundredth of the product (`Graph.yields_percentage`): it is the
exact answer, with halves up, for products up to `100 * 2 ^ 47`, and for products that are multiples of
fifty below `100 * 2 ^ 52`. Beyond these bounds the roundings to binary64 show: all of the value
`2 ^ 52 + 1` is one too much (`Graph.not_yields_percentage_lakeSheet`).
-/

namespace StockFlow

/-! ## Texts of percentages -/

/-- The text of a whole percentage: the decimal text of the number and the percent sign. -/
def percentText (n : ℤ) : Text := Text.ofString (toString n) ++ [percentSign]

section Texts

variable (n : ℤ)

lemma getLast?_percentText : (percentText n).getLast? = some percentSign :=
  List.getLast?_concat ..

/-- The text of a percentage holds the percent sign and the characters of numbers. -/
lemma exists_of_mem_percentText :
    ∀ point ∈ percentText n, ∃ c ∈ '%' :: Yaml.numberChars, point = .char c := by
  intro point hpoint
  unfold percentText at hpoint
  rw [ofString_toString_int] at hpoint
  rcases List.mem_append.mp hpoint with hpoint | hpoint
  · obtain ⟨c, hc, rfl⟩ := List.mem_map.mp hpoint
    exact ⟨c, List.mem_cons_of_mem _ (mem_numberChars_of_mem_decimalChars n c hc), rfl⟩
  · exact ⟨'%', List.mem_cons_self, List.mem_singleton.mp hpoint⟩

lemma trim_percentText : (percentText n).trim = percentText n := by
  have hall : ('%' :: Yaml.numberChars).all (fun c => !isBlank c) = true := by decide
  refine trimBy_eq_self fun point hpoint => ?_
  obtain ⟨c, hc, rfl⟩ := exists_of_mem_percentText n point hpoint
  exact (Bool.not_eq_true' _).mp (List.all_eq_true.mp hall c hc)

/-- The text of a percentage is one. -/
lemma classify_percentText : classify (.text (percentText n)) = .percentage := by
  have hbar : (percentText n).contains bar = false := by
    rw [← Bool.not_eq_true, List.contains_iff_mem]
    intro hmem
    obtain ⟨c, hc, hchar⟩ := exists_of_mem_percentText n bar hmem
    rw [← CodePoint.char.inj hchar] at hc
    exact absurd hc (by decide)
  have hword : ∀ word : Text, word.getLast? ≠ some percentSign → percentText n ≠ word := by
    rintro word hword rfl
    exact hword (getLast?_percentText n)
  change classifyText (percentText n) = .percentage
  unfold classifyText
  simp only [trim_percentText, hbar, hword restWord (by decide), hword autoWord (by decide),
    getLast?_percentText, Bool.false_eq_true, if_false, if_true]

/-- The number before the percent sign is read unless it has too many digits. -/
lemma parsePercentage_percentText : parsePercentage (percentText n) =
    if n.natAbs < Nat.pow 10 maxDigits then some (.int n) else none := by
  unfold parsePercentage
  dsimp only
  rw [trim_percentText, if_pos (getLast?_percentText n), ← parseNumber_ofString_toString]
  unfold percentText
  rw [List.dropLast_concat]

end Texts

/-! ## Links that ask for percentages -/

namespace Graph

variable {g : Graph} {r : Registry} {id : LinkId} {link : Link} {V N : ℤ}

/-- A link that asks for a percentage of a whole value has it, or zero if the percentage has too many
digits. -/
lemma settled_of_percentText (hlinked : g.IsLinked) (hresolver : g.resolver.isSome)
    (hr : r.IsPureFor g.network) (hlink : (id, link) ∈ g.links)
    (hvalue : link.value = .text (percentText N))
    (hsource : g.network.settled r (.node id.source) = .ok (.int V)) :
    g.network.settled r (.link id) =
      if N.natAbs < Nat.pow 10 maxDigits then percentOf (.int V) (.int N) else .ok (.int 0) := by
  obtain ⟨source, -, hname, target, -, -, hstep⟩ := exists_linkStep_eq hlinked hlink
  have hdemand : link.demand =
      if N.natAbs < Nat.pow 10 maxDigits then .share (.int N) else .constant (.int 0) := by
    simp only [Link.demand, hvalue, classify_percentText, parsePercentage_percentText]
    by_cases h : N.natAbs < Nat.pow 10 maxDigits
    · simp only [if_pos h]
    · simp only [if_neg h]
  rw [settled_eq_step hr hresolver]
  refine (hstep _ _).trans ?_
  rw [hdemand]
  by_cases h : N.natAbs < Nat.pow 10 maxDigits
  · simp only [if_pos h]
    rw [hname, hsource]
    rfl
  · simp only [if_neg h]

open Binary64 (IsRoundedHundredth rangeEnd)

/-- **Percentages of whole numbers are rounded hundredths.** In a graph that is built, where the plugins
that links ask for are pure, let a link ask for a whole percentage of its source, and let the source have
a whole value. If the percentage has too many digits, then the link has the value zero. Otherwise it has
no value if the hundredth of the product is out of the range of binary64, and else the rounded hundredth
of the product. This is the exact hundredth, with halves up, if the absolute value of the product is at
most `100 * 2 ^ 47`, or if it is a multiple of fifty below `100 * 2 ^ 52`. -/
theorem yields_percentage {s : Settings} {ds : List Datum} {gs : List Graph}
    (hgs : buildGraphs s ds = .ok gs) (hg : g ∈ gs) (hr : r.IsPureFor g.network)
    (hlink : (id, link) ∈ g.links) (hvalue : link.value = .text (percentText N))
    (hsource : g.Yields r (g.network.read (.node id.source)) (.ok (.int V))) :
    (Nat.pow 10 maxDigits ≤ N.natAbs → ∀ answer,
      g.Yields r (g.network.read (.link id)) answer ↔ answer = .ok (.int 0)) ∧
    (N.natAbs < Nat.pow 10 maxDigits →
      (rangeEnd ≤ |((V * N : ℤ) : ℚ) / 100| → ∀ answer,
        g.Yields r (g.network.read (.link id)) answer ↔ answer = .error .overflow) ∧
      (|((V * N : ℤ) : ℚ) / 100| < rangeEnd → ∀ answer,
        g.Yields r (g.network.read (.link id)) answer ↔
          ∃ whole, IsRoundedHundredth (V * N) whole ∧ answer = .ok (.int whole)) ∧
      (|V * N| ≤ 100 * 2 ^ 47 ∨ 50 ∣ V * N ∧ |V * N| < 100 * 2 ^ 52 → ∀ answer,
        g.Yields r (g.network.read (.link id)) answer ↔
          answer = .ok (.int ((V * N + 50) / 100)))) := by
  have hlinked := isLinked_of_buildGraphs hgs hg
  have hresolver := isSome_resolver_of_buildGraphs hgs hg
  have hsettled := settled_of_percentText hlinked hresolver hr hlink hvalue
    ((yields_item_iff hr _).mp hsource).symm
  have hyields : ∀ answer, g.Yields r (g.network.read (.link id)) answer ↔
      answer = g.network.settled r (.link id) := fun _ => yields_item_iff hr (.link id)
  rw [hsettled] at hyields
  refine ⟨fun hlong answer => ?_, fun hshort => ?_⟩
  · rw [hyields, if_neg (not_lt.mpr hlong)]
  simp only [if_pos hshort] at hyields
  -- only one whole number is the rounded hundredth, so to be it is to be the value
  have hrounded : |((V * N : ℤ) : ℚ) / 100| < rangeEnd → ∀ answer,
      g.Yields r (g.network.read (.link id)) answer ↔
        ∃ whole, IsRoundedHundredth (V * N) whole ∧ answer = .ok (.int whole) := by
    intro hrange answer
    obtain ⟨whole, hpercent, hwhole⟩ := exists_percentOf_int hrange
    rw [hyields, hpercent]
    constructor
    · rintro rfl
      exact ⟨whole, hwhole, rfl⟩
    · rintro ⟨whole', hwhole', rfl⟩
      rw [hwhole'.unique hwhole]
  refine ⟨fun hrange answer => ?_, hrounded, fun hexact answer => ?_⟩
  · rw [hyields, percentOf_int_eq_overflow hrange]
  · have hfew : |V * N| < 2 ^ 59 := by
      rcases hexact with hsmall | ⟨-, hsmall⟩
      · exact hsmall.trans_lt (by norm_num)
      · exact hsmall.trans (by norm_num)
    obtain ⟨whole, hpercent, hwhole⟩ := exists_percentOf_int (Binary64.abs_hundredth_lt_rangeEnd hfew)
    have hexactly : whole = (V * N + 50) / 100 := by
      rcases hexact with hsmall | ⟨hdvd, hsmall⟩
      · exact hwhole.eq_of_abs_le hsmall
      · exact hwhole.eq_of_dvd hdvd hsmall
    rw [hyields, hpercent, hexactly]

/-- A sheet with percentages of a small value, of a value of 53 bits, and of a value beyond the range of
binary64. -/
def lakeSheet : List Datum :=
  [.map [(.text "name", .text "Lake"), (.text "value", .int 4503599627370497),
      (.text "links", .list [.map [(.text "to", .text "Mill"), (.text "value", .text "100%")]])],
    .map [(.text "name", .text "Pond"), (.text "value", .int 1050),
      (.text "links", .list [.map [(.text "to", .text "Mill"), (.text "value", .text "-33%")]])],
    .map [(.text "name", .text "Sea"), (.text "value", .int ((10 ^ 170) ^ 2)),
      (.text "links", .list [.map [(.text "to", .text "Town"), (.text "value", .text "7%")]])]]

/-- The sources of the sheet with their values and the percentages of their links. -/
def lakeSources : List (Text × ℤ × ℤ) :=
  [("Lake", 4503599627370497, 100), ("Pond", 1050, -33), ("Sea", (10 ^ 170) ^ 2, 7)]

/-- Whether a declared value is the text of a percentage. -/
def asksForPercent (n : ℤ) : Datum → Bool
  | .text s => s = percentText n
  | _ => false

lemma eq_of_asksForPercent {d : Datum} {n : ℤ} (h : asksForPercent n d) :
    d = .text (percentText n) := by
  unfold asksForPercent at h
  split at h
  · exact congrArg Datum.text (of_decide_eq_true h)
  · cases h

/-- The sheet is built, and its sources have the values that are declared for them. -/
lemma exists_lakeGraph : ∃ gs g, buildGraphs {} lakeSheet = .ok gs ∧ g ∈ gs ∧
    ∀ entry ∈ lakeSources, ∃ link, (⟨entry.1, 0⟩, link) ∈ g.links ∧
      link.value = .text (percentText entry.2.2) ∧
      g.Yields {} (g.network.read (.node entry.1)) (.ok (.int entry.2.1)) := by
  have hran : ((buildGraphs {} lakeSheet).toOption.bind fun gs => gs.head?.map fun g =>
      lakeSources.all fun entry =>
        (g.link? ⟨entry.1, 0⟩).map (fun link => asksForPercent entry.2.2 link.value) = some true ∧
        wholeOutcome? (Read.runFresh (g.network.read (.node entry.1)) {}).1 = some entry.2.1) =
      some true := by
    decide +kernel
  obtain ⟨gs, g, hbuilt, hmem, hfacts⟩ := exists_graph_of_head? hran
  refine ⟨gs, g, hbuilt, hmem, fun entry hentry => ?_⟩
  obtain ⟨hvalue, hread⟩ := of_decide_eq_true (List.all_eq_true.mp hfacts entry hentry)
  obtain ⟨link, hlink, hvalue⟩ := Option.map_eq_some_iff.mp hvalue
  exact ⟨link, (link?_eq_some_iff (isLinked_of_buildGraphs hbuilt hmem).nodup_names).mp hlink,
    eq_of_asksForPercent hvalue, Or.inl (eq_ok_int_of_wholeOutcome? hread)⟩

/-- Numbers of three digits have few enough. -/
lemma lt_pow_maxDigits {n : ℕ} (h : n < 10 ^ 3) : n < Nat.pow 10 maxDigits := by
  have hpower : ∀ k, 3 ≤ k → 10 ^ 3 ≤ Nat.pow 10 k := fun _ hk =>
    Nat.pow_le_pow_right (by decide) hk
  exact h.trans_le (hpower maxDigits (by decide))

/-- No registered plugin is impure where none is registered. -/
lemma isPureFor_empty (g : Graph) : Registry.IsPureFor {} g.network :=
  Registry.IsPure.isPureFor (fun _ hp => absurd hp List.not_mem_nil) _

/-- The pond is below the bounds, so its link has the exact answer; the sea is out of range, so its link
has no value. -/
theorem yields_percentage_lakeSheet :
    ∃ gs g, buildGraphs {} lakeSheet = .ok gs ∧ g ∈ gs ∧ Registry.IsPureFor {} g.network ∧
      (∃ link, (⟨"Pond", 0⟩, link) ∈ g.links ∧ link.value = .text (percentText (-33)) ∧
        g.Yields {} (g.network.read (.node "Pond")) (.ok (.int 1050)) ∧
        g.Yields {} (g.network.read (.link ⟨"Pond", 0⟩)) (.ok (.int (-346)))) ∧
      (∃ link, (⟨"Lake", 0⟩, link) ∈ g.links ∧ link.value = .text (percentText 100) ∧
        g.Yields {} (g.network.read (.node "Lake")) (.ok (.int 4503599627370497)) ∧
        ∃ whole, IsRoundedHundredth (4503599627370497 * 100) whole ∧
          g.Yields {} (g.network.read (.link ⟨"Lake", 0⟩)) (.ok (.int whole))) ∧
      (∃ link, (⟨"Sea", 0⟩, link) ∈ g.links ∧ link.value = .text (percentText 7) ∧
        g.Yields {} (g.network.read (.node "Sea")) (.ok (.int ((10 ^ 170) ^ 2))) ∧
        g.Yields {} (g.network.read (.link ⟨"Sea", 0⟩)) (.error .overflow)) := by
  obtain ⟨gs, g, hbuilt, hmem, hsources⟩ := exists_lakeGraph
  have hr := isPureFor_empty g
  obtain ⟨pond, hpond, hpondValue, hpondSource⟩ := hsources ("Pond", 1050, -33) (by decide)
  obtain ⟨lake, hlake, hlakeValue, hlakeSource⟩ :=
    hsources ("Lake", 4503599627370497, 100) (by decide)
  obtain ⟨sea, hsea, hseaValue, hseaSource⟩ := hsources ("Sea", (10 ^ 170) ^ 2, 7) (by decide)
  -- in powers of small exponents, which can be compared by evaluating them
  have hbeyond : rangeEnd ≤ |((((10 ^ 170) ^ 2 * 7 : ℤ)) : ℚ) / 100| := by
    push_cast
    rw [abs_of_nonneg (by positivity)]
    calc rangeEnd ≤ 2 ^ 1024 := sub_le_self _ (by positivity)
      _ = ((2 ^ 16) ^ 32) ^ 2 := by rw [← pow_mul, ← pow_mul]
      _ ≤ ((10 ^ 5) ^ 32) ^ 2 := by gcongr; norm_num
      _ ≤ _ := by norm_num
  obtain ⟨-, hpondShort⟩ := yields_percentage hbuilt hmem hr hpond hpondValue hpondSource
  obtain ⟨-, -, hpondExact⟩ := hpondShort (lt_pow_maxDigits (by norm_num))
  obtain ⟨-, hlakeShort⟩ := yields_percentage hbuilt hmem hr hlake hlakeValue hlakeSource
  obtain ⟨-, hlakeRounded, -⟩ := hlakeShort (lt_pow_maxDigits (by norm_num))
  obtain ⟨-, hseaShort⟩ := yields_percentage hbuilt hmem hr hsea hseaValue hseaSource
  obtain ⟨hseaOverflow, -, -⟩ := hseaShort (lt_pow_maxDigits (by norm_num))
  have hlakeYields := (yields_item_iff hr (.link ⟨"Lake", 0⟩)).mpr rfl
  obtain ⟨whole, hwhole, heq⟩ := (hlakeRounded
    (Binary64.abs_hundredth_lt_rangeEnd (by norm_num)) _).mp hlakeYields
  rw [heq] at hlakeYields
  exact ⟨gs, g, hbuilt, hmem, hr,
    ⟨pond, hpond, hpondValue, hpondSource, (hpondExact (Or.inl (by norm_num)) _).mpr rfl⟩,
    ⟨lake, hlake, hlakeValue, hlakeSource, whole, hwhole, hlakeYields⟩,
    ⟨sea, hsea, hseaValue, hseaSource, (hseaOverflow hbeyond _).mpr rfl⟩⟩

/-- All of the lake is one more than the lake. -/
theorem not_yields_percentage_lakeSheet :
    ∃ gs g link, buildGraphs {} lakeSheet = .ok gs ∧ g ∈ gs ∧ (⟨"Lake", 0⟩, link) ∈ g.links ∧
      link.value = .text (percentText 100) ∧
      g.Yields {} (g.network.read (.node "Lake")) (.ok (.int 4503599627370497)) ∧
      g.Yields {} (g.network.read (.link ⟨"Lake", 0⟩)) (.ok (.int 4503599627370498)) ∧
      ¬g.Yields {} (g.network.read (.link ⟨"Lake", 0⟩))
        (.ok (.int ((4503599627370497 * 100 + 50) / 100))) := by
  obtain ⟨gs, g, hbuilt, hmem, hsources⟩ := exists_lakeGraph
  obtain ⟨link, hlink, hvalue, hsource⟩ := hsources ("Lake", 4503599627370497, 100) (by decide)
  have hr := isPureFor_empty g
  have hpercent : percentOf (.int 4503599627370497) (.int 100) = .ok (.int 4503599627370498) :=
    eq_ok_int_of_wholeOutcome? (by decide +kernel)
  have hsettled := settled_of_percentText (isLinked_of_buildGraphs hbuilt hmem)
    (isSome_resolver_of_buildGraphs hbuilt hmem) hr hlink hvalue
    ((yields_item_iff hr _).mp hsource).symm
  rw [if_pos (lt_pow_maxDigits (by norm_num)), hpercent] at hsettled
  refine ⟨gs, g, link, hbuilt, hmem, hlink, hvalue, hsource,
    (yields_item_iff hr _).mpr hsettled.symm, fun hyields => ?_⟩
  have hsame := ((yields_item_iff hr _).mp hyields).trans hsettled
  exact absurd (Atom.int.inj (Datum.atom.inj (Except.ok.inj hsame))) (by norm_num)

end Graph

end StockFlow
