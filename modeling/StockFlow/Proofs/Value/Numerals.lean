import StockFlow.Proofs.Expression
import StockFlow.Proofs.Sheet.Linked
import StockFlow.Proofs.Value.Sessions
/-!
# Declared numbers of nodes and links

The value of a node with a declared number, and that of a link with a declared number or numeral,
depends on nothing (`Network.IsDeclared`). Such a value is found at any time, whatever the plugins answer
for other links (`Graph.yields_iff_of_isDeclared`).

Nodes convert what is declared, and links sort it by its kind before they convert it. Both accept the
same texts and find the same numbers in them (`kinds_agree_with_numbers`).
-/

namespace StockFlow

/-! ## Values that depend on nothing -/

/-- Whether the value of an item is declared: a step has it without any reading. -/
def Network.IsDeclared (net : Network) (item : Item) (value : Datum) : Prop :=
  ∀ (m : Type → Type) [Monad m] [MonadExceptOf Failure m]
    (call : LinkId → (Probe → m Datum) → Entries → m Datum) (read : Item → m Datum),
    net.step call read item = pure value

namespace Network

variable {net : Network} {item : Item} {value : Datum}

/-- The value of a node with a declared number that counts is declared. -/
lemma isDeclared_node {name : Text} {n : Node} {resolver : Resolver} {number : Number}
    (hn : net.node? name = some n) (hresolver : net.resolver? name = some resolver)
    (hnumber : resolver.declaredNumber? n.value = some number) :
    net.IsDeclared (.node name) number.toDatum := by
  intro m _ _ call read
  change net.nodeStep read name = _
  unfold nodeStep
  rw [hn, hresolver]
  dsimp only
  rw [hnumber]

/-- The value of a link that asks for a constant is declared. -/
lemma isDeclared_link {id : LinkId} {link : Link} (hlink : net.link? id = some link)
    (hdemand : link.demand = .constant value) : net.IsDeclared (.link id) value := by
  intro m _ _ call read
  obtain ⟨source, hsource, -⟩ := Option.bind_eq_some_iff.mp hlink
  change net.linkStep call read id = _
  rw [linkStep_eq, hsource, hlink]
  dsimp only
  rw [hdemand]

/-- A value that depends on nothing is no answer of a plugin. -/
lemma IsDeclared.not_isDrawn (h : net.IsDeclared item value) (r : Registry) :
    ¬net.IsDrawn r item := by
  cases item with
  | node name => exact id
  | link id =>
    rintro ⟨link, params, p, answer, hlink, hdemand, -⟩
    -- a plugin that fails would give no value
    have hstep := h (Except Failure) (fun _ _ _ => .error .wrongType) fun _ => .error .wrongType
    rw [step_eq_call hlink hdemand] at hstep
    cases hstep

end Network

namespace Graph

variable {g : Graph} {r : Registry} {item : Item} {value : Datum}

/-- A declared value is found at any time, outside any pass and in one. -/
theorem yields_iff_of_isDeclared (hresolver : g.resolver.isSome)
    (hdeclared : g.network.IsDeclared item value) {answer : Except Failure Datum} :
    g.Yields r (g.network.read item) answer ↔ answer = .ok value := by
  obtain ⟨resolver, hsome⟩ := Option.isSome_iff_exists.mp hresolver
  have hitem : g.network.itemResolver? item = some resolver := by
    cases item <;> exact hsome
  -- the value is computed where none is remembered
  have hcomputed : ∀ s : Reading, (s.memo?.bind fun memo => memo.lookup item) = none →
      ((g.network.read item).run.run s).1 = .ok value := by
    intro s hnone
    change ((g.network.visit (g.valueCount + 1) item).run.run s).1 = _
    rw [Read.Between.run_visit hitem, hnone, hdeclared]
    rfl
  have hfresh := hcomputed ⟨none, r, []⟩ rfl
  constructor
  · intro h
    rcases h.exists_isSteady with h | ⟨s, memo, hs, h⟩
    · exact h.symm.trans hfresh
    · cases hfound : memo.lookup item with
      | none =>
        rw [← h]
        exact hcomputed s (by rw [hs.memo_eq]; exact hfound)
      | some found =>
        -- what is remembered is what a step gives, and a step gives the declared value
        have hstep := hs.steady item found (hdeclared.not_isDrawn r)
          (Memo.held_eq_ok_iff.mpr hfound) memo (.refl memo)
        rw [hdeclared] at hstep
        rw [← h]
        change ((g.network.visit (g.valueCount + 1) item).run.run s).1 = _
        rw [Read.Between.run_visit hitem, hs.memo_eq, Option.bind_some, hfound]
        exact hstep.symm
  · rintro rfl
    exact Or.inl hfresh

end Graph

/-! ## Kinds and numbers -/

/-- A link with a numeral asks for its number. -/
lemma Link.exists_demand_of_numericString {link : Link}
    (h : classify link.value = .numericString) :
    ∃ number : Number, toNumber link.value = some number ∧
      link.demand = .constant number.toDatum := by
  obtain ⟨number, hnumber⟩ := Option.isSome_iff_exists.mp
    ((isSome_toNumber_iff link.value).mpr (Or.inr h))
  refine ⟨number, hnumber, ?_⟩
  unfold demand
  unfold toNumber at hnumber
  split at hnumber
  · next hvalue =>
    rw [hvalue] at h
    cases h
  · next hvalue =>
    rw [hvalue] at h
    cases h
  · next s hvalue =>
    rw [hvalue] at h ⊢
    simp only [h, hnumber]
    rfl
  · cases hnumber

/-- Where zero counts, every declared number does. -/
lemma Resolver.declaredNumber?_eq_toNumber (value : Datum) :
    Resolver.declaredNumber? ⟨false⟩ value = toNumber value := by
  unfold declaredNumber?
  cases toNumber value with
  | none => rfl
  | some number => simp

/-- **Kinds and numbers agree.** A value is converted to a number exactly if its kind is that of numbers
or of numerals, so a text is the number of a node where zero counts exactly if it is the numeral of a
link. At any time and whatever the plugins answer, a link with a numeral has the same number as a node
with this text. What is read as a percentage is of the kind of percentages. White space around a text
changes neither its kind nor the numbers in it. -/
theorem kinds_agree_with_numbers :
    (∀ value : Datum, (toNumber value).isSome ↔
      classify value = .number ∨ classify value = .numericString) ∧
    (∀ s : Text, (Resolver.declaredNumber? ⟨false⟩ (.text s)).isSome ↔
      classify (.text s) = .numericString) ∧
    (∀ (g g' : Graph) (r r' : Registry) (id : LinkId) (link : Link) (name : Text) (n : Node),
      g.network.link? id = some link → classify link.value = .numericString → g.resolver.isSome →
      g'.network.node? name = some n → n.value = link.value → g'.resolver = some ⟨false⟩ →
      ∃ number : Number, toNumber link.value = some number ∧ ∀ answer,
        (g.Yields r (g.network.read (.link id)) answer ↔ answer = .ok number.toDatum) ∧
        (g'.Yields r' (g'.network.read (.node name)) answer ↔ answer = .ok number.toDatum)) ∧
    (∀ s : Text, (parsePercentage s).isSome → classify (.text s) = .percentage) ∧
    ∀ s before after : Text, (∀ c ∈ before, c.isBlank = true) → (∀ c ∈ after, c.isBlank = true) →
      let padded := before ++ s ++ after
      classify (.text padded) = classify (.text s) ∧ parseNumber padded = parseNumber s ∧
        parsePercentage padded = parsePercentage s ∧
        toNumber (.text padded) = toNumber (.text s) := by
  refine ⟨isSome_toNumber_iff, fun s => ?_, ?_, fun s => classify_of_isSome_parsePercentage, ?_⟩
  · rw [Resolver.declaredNumber?_eq_toNumber]
    exact classifyText_eq_numericString_iff.symm
  · intro g g' r r' id link name n hlink hkind hresolver hn hvalue hresolver'
    obtain ⟨number, hnumber, hdemand⟩ := Link.exists_demand_of_numericString hkind
    have hdeclared : Resolver.declaredNumber? ⟨false⟩ n.value = some number := by
      rw [Resolver.declaredNumber?_eq_toNumber, hvalue, hnumber]
    refine ⟨number, hnumber, fun answer => ⟨?_, ?_⟩⟩
    · exact Graph.yields_iff_of_isDeclared hresolver (Network.isDeclared_link hlink hdemand)
    · exact Graph.yields_iff_of_isDeclared (by rw [hresolver']; rfl)
        (Network.isDeclared_node hn hresolver' hdeclared)
  · intro s before after hbefore hafter
    have htrim := trim_append_append hbefore hafter s
    have hnumber : parseNumber (before ++ s ++ after) = parseNumber s := by
      unfold parseNumber
      rw [htrim]
    refine ⟨?_, hnumber, ?_, hnumber⟩
    · change classifyText _ = classifyText _
      unfold classifyText
      rw [htrim, hnumber]
    · unfold parsePercentage
      rw [htrim]

/-- A numeral in digits of another script, between blanks. -/
def numeralText : Text := "\u2003+٤_٢\t"

/-- A sheet with the numeral as the value of a node and as that of a link. -/
def numeralSheet : List Datum :=
  [.map [(.text "name", .text "Well"), (.text "value", .text numeralText),
      (.text "links", .list [.map [(.text "to", .text "Mill"), (.text "value", .text numeralText)]])]]

/-- Whether a declared value is the numeral. -/
def isNumeralText : Datum → Bool
  | .text s => s = numeralText
  | _ => false

lemma eq_of_isNumeralText {d : Datum} (h : isNumeralText d) : d = .text numeralText := by
  unfold isNumeralText at h
  split at h
  · exact congrArg Datum.text (of_decide_eq_true h)
  · cases h

/-- The numeral between its blanks is forty-two on the node and on the link. -/
theorem kinds_agree_with_numbers_numeralSheet :
    (toNumber (.text numeralText)).isSome ∧ classify (.text numeralText) = .numericString ∧
    (∃ gs g link n, buildGraphs {} numeralSheet = .ok gs ∧ g ∈ gs ∧
      g.network.link? ⟨"Well", 0⟩ = some link ∧ g.network.node? "Well" = some n ∧
      n.value = link.value ∧ classify link.value = .numericString ∧
      g.resolver = some ⟨false⟩ ∧
      g.Yields {} (g.network.read (.link ⟨"Well", 0⟩)) (.ok (.int 42)) ∧
      g.Yields {} (g.network.read (.node "Well")) (.ok (.int 42))) ∧
    (parsePercentage "-1_2.5e3 %").isSome ∧ classify (.text "-1_2.5e3 %") = .percentage ∧
    classify (.text ([.char '\u2003'] ++ Text.ofString "+٤_٢" ++ [.char '\t'])) =
      classify (.text "+٤_٢") := by
  obtain ⟨hkind, -, hsame, hpercentage, hblank⟩ := kinds_agree_with_numbers
  have hnumber : toNumber (.text numeralText) = some (.int 42) := by decide +kernel
  have hnumeral : classify (.text numeralText) = .numericString := by decide +kernel
  have hpercent : (parsePercentage "-1_2.5e3 %").isSome := by decide +kernel
  have hran : ((buildGraphs {} numeralSheet).toOption.bind fun gs => gs.head?.map fun g =>
      decide ((g.network.link? ⟨"Well", 0⟩).map (fun link => isNumeralText link.value) = some true ∧
        (g.network.node? "Well").map (fun n => isNumeralText n.value) = some true ∧
        g.resolver.map Resolver.zeroIsUnset = some false)) = some true := by
    decide +kernel
  obtain ⟨gs, g, hbuilt, hmem, hfacts⟩ := exists_graph_of_head? hran
  obtain ⟨hlinks, hnodes, hzero⟩ := of_decide_eq_true hfacts
  obtain ⟨link, hlink, hlinkValue⟩ := Option.map_eq_some_iff.mp hlinks
  obtain ⟨n, hn, hnodeValue⟩ := Option.map_eq_some_iff.mp hnodes
  obtain ⟨⟨zeroIsUnset⟩, hresolver, rfl⟩ := Option.map_eq_some_iff.mp hzero
  replace hlinkValue := eq_of_isNumeralText hlinkValue
  replace hnodeValue := eq_of_isNumeralText hnodeValue
  obtain ⟨number, hnumber', hyields⟩ := hsame g g {} {} ⟨"Well", 0⟩ link "Well" n hlink
    (hlinkValue ▸ hnumeral) (by rw [hresolver]; rfl) hn (hnodeValue.trans hlinkValue.symm) hresolver
  rw [hlinkValue, hnumber] at hnumber'
  obtain rfl := Option.some.inj hnumber'
  exact ⟨(hkind _).mpr (Or.inr hnumeral), hnumeral,
    ⟨gs, g, link, n, hbuilt, hmem, hlink, hn, hnodeValue.trans hlinkValue.symm,
      hlinkValue ▸ hnumeral, hresolver, (hyields _).1.mpr rfl, (hyields _).2.mpr rfl⟩,
    hpercent, hpercentage _ hpercent,
    (hblank "+٤_٢" [.char '\u2003'] [.char '\t'] (by decide) (by decide)).1⟩

end StockFlow
