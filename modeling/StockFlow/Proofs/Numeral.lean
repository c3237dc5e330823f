import StockFlow.Proofs.Json.Writing
import StockFlow.Proofs.WholeNumeral
import StockFlow.Proofs.Yaml.Numerals
/-!
# Texts of whole numbers

The decimal text of a whole number is read as this number, unless it is longer than whole numerals may be
(`parseNumber_ofString_toString`). A longer text is still a decimal numeral, but the binary64 number that
it stands for is infinite, so it is no number.

A whole number has other texts too: with blanks around it, with zeros in front of the digits, and with
underscores between them. The texts of whole numbers are exactly the whole numerals between blanks
(`whole_numerals_read_exactly`).
-/

namespace StockFlow

open Json (digitsValue_toDigits isDigit_of_mem_toDigits length_toDigits_le_iff)
open Yaml (decimalNumeral?_eq digitChars forall_digitChars mem_digitChars mem_numberChars_of_isDigit
  numberChars span_digits)

variable {cs : List Char}

/-! ## Digits -/

/-- The value of a decimal digit. -/
lemma digitValue?_of_isDigit {c : Char} (h : c.isDigit = true) :
    digitValue? c = some (c.toNat - 48) := by
  have hdigit : ∀ d ∈ digitChars, digitValue? d = some (d.toNat - 48) :=
    forall_digitChars.mpr ⟨rfl, rfl, rfl, rfl, rfl, rfl, rfl, rfl, rfl, rfl⟩
  exact hdigit c (mem_digitChars h)

/-- ASCII digits with underscores between them spell their values. -/
lemma spellsDigits_of_filter_eq {ds : List Char} (hgrouped : IsGrouped cs)
    (hcs : cs.filter (· != '_') = ds) (hne : ds ≠ []) (hds : ∀ c ∈ ds, c.isDigit = true) :
    SpellsDigits cs (ds.map fun c => c.toNat - 48) := by
  refine ⟨by simpa using hne, hgrouped, ?_⟩
  rw [hcs, List.map_map]
  exact List.map_congr_left fun c hc => digitValue?_of_isDigit (hds c hc)

/-- Digits without underscores are read as their values. -/
lemma underscoredDigits?_eq (hne : cs ≠ []) (hcs : ∀ c ∈ cs, c.isDigit = true) :
    underscoredDigits? cs = some (cs.map fun c => c.toNat - 48) := by
  have hfilter : cs.filter (· != '_') = cs :=
    Yaml.filter_underscore_eq fun c hc => Yaml.isSolid_of_isDigit (hcs c hc)
  have hbar : '_' ∉ cs := fun hmem => absurd (hcs '_' hmem) (by decide)
  exact underscoredDigits?_eq_some_iff.mpr
    (spellsDigits_of_filter_eq (.of_notMem hbar) hfilter hne hcs)

lemma exists_toDigits_eq_cons (m : ℕ) : ∃ d ds, d.isDigit = true ∧ Nat.toDigits 10 m = d :: ds := by
  obtain ⟨d, ds, hdigits⟩ := List.exists_cons_of_ne_nil (Nat.toDigits_ne_nil : Nat.toDigits 10 m ≠ [])
  exact ⟨d, ds, isDigit_of_mem_toDigits (n := m) d (by simp [hdigits]), hdigits⟩

/-! ## The text of a whole number -/

variable (n : ℤ)

/-- The characters of a whole number. -/
def decimalChars : List Char := (if n < 0 then ['-'] else []) ++ Nat.toDigits 10 n.natAbs

lemma mem_numberChars_of_mem_decimalChars : ∀ c ∈ decimalChars n, c ∈ numberChars := by
  intro c hc
  rcases List.mem_append.mp hc with hsign | hdigit
  · split at hsign
    · rw [List.mem_singleton.mp hsign]
      decide
    · cases hsign
  · exact mem_numberChars_of_isDigit (isDigit_of_mem_toDigits c hdigit)

/-- The sign is told from the digits. -/
lemma splitSign_decimalChars :
    splitSign (decimalChars n) = (decide (n < 0), Nat.toDigits 10 n.natAbs) := by
  obtain ⟨d, ds, hd, hdigits⟩ := exists_toDigits_eq_cons n.natAbs
  unfold decimalChars
  by_cases hneg : n < 0
  · simp [splitSign, hneg]
  · rw [if_neg hneg, List.nil_append, hdigits, Yaml.splitSign_of_isDigit hd, decide_eq_false hneg]

/-- The characters of a whole number are a whole numeral unless there are too many. -/
lemma wholeNumeral?_decimalChars : wholeNumeral? (decimalChars n) =
    if n.natAbs < Nat.pow 10 maxDigits then some n else none := by
  unfold wholeNumeral?
  rw [splitSign_decimalChars]
  dsimp only
  rw [underscoredDigits?_eq Nat.toDigits_ne_nil isDigit_of_mem_toDigits]
  dsimp only
  rw [List.length_map]
  by_cases h : n.natAbs < Nat.pow 10 maxDigits
  · rw [if_neg (not_lt.mpr (length_toDigits_le_iff.mpr h)), if_pos h]
    change some (if decide (n < 0) = true then -(digitsValue _ : ℤ) else digitsValue _) = _
    simp only [digitsValue_toDigits, decide_eq_true_eq]
    congr 1
    split <;> omega
  · rw [if_pos (not_le.mp (mt length_toDigits_le_iff.mp h)), if_neg h]

/-- Too many digits stand for an infinite number. -/
lemma unsignedDecimal?_toDigits (negative : Bool) {m : ℕ} (h : Nat.pow 10 maxDigits ≤ m) :
    unsignedDecimal? negative (Nat.toDigits 10 m) = some (.infinity negative) := by
  obtain ⟨htake, hdrop⟩ := span_digits (isDigit_of_mem_toDigits (n := m)) Yaml.Halts.nil
  rw [List.append_nil] at htake hdrop
  have hlength : maxDigits < (Nat.toDigits 10 m).length :=
    not_le.mp (mt length_toDigits_le_iff.mp (not_lt.mpr h))
  have hpositive : m ≠ 0 := by
    rintro rfl
    exact absurd hlength (by decide)
  have hplaces : (400 : ℤ) < (Nat.toDigits 10 m).length + (0 - ([] : List Char).length) := by
    have hmany : (maxDigits : ℤ) < (Nat.toDigits 10 m).length := by exact_mod_cast hlength
    have hmax : (400 : ℤ) < maxDigits := by decide
    rw [List.length_nil, Nat.cast_zero, sub_zero, add_zero]
    exact hmax.trans hmany
  unfold unsignedDecimal?
  rw [htake, hdrop]
  dsimp only
  rw [if_neg (by simp [Nat.toDigits_ne_nil]), List.append_nil, digitsValue_toDigits]
  unfold Binary64.ofDecimal
  dsimp only
  rw [if_neg hpositive, if_pos hplaces]

/-- As a decimal numeral the characters of a whole number with too many digits stand for an infinite
number. -/
lemma decimalNumeral?_decimalChars (h : Nat.pow 10 maxDigits ≤ n.natAbs) :
    decimalNumeral? (decimalChars n) = some (.infinity (decide (n < 0))) := by
  obtain ⟨d, ds, hd, hdigits⟩ := exists_toDigits_eq_cons n.natAbs
  have hsplit := splitSign_decimalChars n
  rw [hdigits] at hsplit
  rw [decimalNumeral?_eq (mem_numberChars_of_mem_decimalChars n) hsplit hd, ← hdigits,
    unsignedDecimal?_toDigits _ h]

/-- White space around a text is trimmed. -/
lemma trim_append_append {before after : Text} (hbefore : ∀ c ∈ before, c.isBlank = true)
    (hafter : ∀ c ∈ after, c.isBlank = true) (s : Text) :
    (before ++ s ++ after).trim = s.trim := by
  unfold Text.trim
  rw [trimBy_append_right hafter, trimBy_append_left hbefore]

/-- Characters that are no blanks have none around them. -/
lemma trim_ofChars (h : ∀ c ∈ cs, isBlank c = false) : (Text.ofChars cs).trim = Text.ofChars cs := by
  refine trimBy_eq_self fun point hpoint => ?_
  obtain ⟨c, hc, rfl⟩ := List.mem_map.mp hpoint
  exact h c hc

lemma isBlank_of_mem_decimalChars : ∀ c ∈ decimalChars n, isBlank c = false := by
  have hall : numberChars.all (fun c => !isBlank c) = true := by decide
  intro c hc
  simpa using List.all_eq_true.mp hall c (mem_numberChars_of_mem_decimalChars n c hc)

lemma ofString_toString_int : Text.ofString (toString n) = Text.ofChars (decimalChars n) := by
  unfold Text.ofString decimalChars
  rw [Json.toList_toString_int]

/-- **The decimal text of a whole number is read as this number.** It is no number if it has more digits
than whole numerals may have. -/
theorem parseNumber_ofString_toString : parseNumber (Text.ofString (toString n)) =
    if n.natAbs < Nat.pow 10 maxDigits then some (.int n) else none := by
  unfold parseNumber
  rw [ofString_toString_int, trim_ofChars (isBlank_of_mem_decimalChars n), Text.chars?_ofChars,
    Option.bind_some]
  unfold numeral?
  rw [wholeNumeral?_decimalChars]
  by_cases h : n.natAbs < Nat.pow 10 maxDigits
  · rw [if_pos h, if_pos h]
  · rw [if_neg h, if_neg h, decimalNumeral?_decimalChars n (not_lt.mp h)]
    rfl

/-! ## All texts of whole numbers -/

/-- The text between the blanks decides what whole number is read. -/
lemma parseNumber_eq_int_iff {s : Text} {n : ℤ} :
    parseNumber s = some (.int n) ↔ ∃ cs, s.trim = Text.ofChars cs ∧ IsWholeNumeral cs n := by
  have hnumeral : ∀ cs, numeral? cs = some (.int n) ↔ wholeNumeral? cs = some n := by
    intro cs
    unfold numeral?
    split
    · next m hm => simp [hm]
    · next hm =>
      -- what is read as a decimal numeral is a binary64 number
      rw [hm]
      split
      · split <;> simp
      · simp
  unfold parseNumber
  rw [Option.bind_eq_some_iff]
  refine exists_congr fun cs => ?_
  rw [hnumeral, wholeNumeral?_eq_some_iff]
  refine and_congr_left fun _ => ⟨Text.eq_ofChars_of_chars?, fun h => ?_⟩
  rw [h, Text.chars?_ofChars]

variable {n} {zeros : ℕ}

/-- A whole numeral between blanks is read as its number. -/
lemma parseNumber_of_isWholeNumeral {before after : Text} (hbefore : ∀ c ∈ before, c.isBlank = true)
    (hafter : ∀ c ∈ after, c.isBlank = true) (h : IsWholeNumeral cs n) :
    parseNumber (before ++ Text.ofChars cs ++ after) = some (.int n) := by
  refine parseNumber_eq_int_iff.mpr ⟨cs, ?_, h⟩
  rw [trim_append_append hbefore hafter, trim_ofChars h.isBlank_eq_false]

/-- Zeros in front of the digits of a whole number and underscores between digits leave it as it is. -/
lemma isWholeNumeral_of_filter_eq (hgrouped : IsGrouped cs)
    (hcs : cs.filter (· != '_') = List.replicate zeros '0' ++ Nat.toDigits 10 n.natAbs)
    (hlength : zeros + (Nat.toDigits 10 n.natAbs).length ≤ 4300) :
    IsWholeNumeral ((if n < 0 then ['-'] else []) ++ cs) n := by
  have hdigit : ∀ c ∈ List.replicate zeros '0' ++ Nat.toDigits 10 n.natAbs, c.isDigit = true := by
    refine List.forall_mem_append.mpr ⟨fun c hc => ?_, isDigit_of_mem_toDigits⟩
    rw [List.eq_of_mem_replicate hc]
    rfl
  have hspells := spellsDigits_of_filter_eq hgrouped hcs (by simp [Nat.toDigits_ne_nil]) hdigit
  have hvalue : Nat.ofDigits 10 ((List.replicate zeros '0' ++ Nat.toDigits 10 n.natAbs).map
      fun c => c.toNat - 48).reverse = n.natAbs := by
    rw [List.map_append, List.map_replicate, List.reverse_append, List.reverse_replicate]
    change Nat.ofDigits 10 (_ ++ List.replicate zeros 0) = _
    rw [Nat.ofDigits_append_replicate_zero, ← positional_eq_ofDigits]
    exact digitsValue_toDigits n.natAbs
  have hsign : IsSign (if n < 0 then ['-'] else []) (if n < 0 then -1 else 1) := by
    split
    · exact .minus
    · exact .absent
  refine ⟨_, _, cs, _, hsign, hspells, by simpa using hlength, rfl, ?_⟩
  rw [hvalue]
  split <;> omega

/-- **Whole numerals are read exactly.** A text is read as a whole number if and only if it is a whole
numeral between blanks, and the number is the one that the numeral stands for. So whatever blanks are put
around the decimal text of a whole number, zeros in front of its digits and underscores between them, it
is read as this number, as long as there are at most 4300 digits. -/
theorem whole_numerals_read_exactly :
    (∀ (s : Text) (n : ℤ), parseNumber s = some (.int n) ↔
      ∃ cs, s.trim = Text.ofChars cs ∧ IsWholeNumeral cs n) ∧
    ∀ (n : ℤ) (digits cs : List Char) (zeros : ℕ) (before after : Text),
      (toString n).toList = (if n < 0 then ['-'] else []) ++ digits →
      zeros + digits.length ≤ 4300 →
      IsGrouped cs → cs.filter (· != '_') = List.replicate zeros '0' ++ digits →
      (∀ c ∈ before, c.isBlank = true) → (∀ c ∈ after, c.isBlank = true) →
      parseNumber (before ++ Text.ofChars ((if n < 0 then ['-'] else []) ++ cs) ++ after) =
        some (.int n) := by
  refine ⟨fun s n => parseNumber_eq_int_iff, ?_⟩
  intro n digits cs zeros before after hdigits hlength hgrouped hcs hbefore hafter
  rw [Json.toList_toString_int] at hdigits
  obtain rfl := List.append_cancel_left hdigits
  exact parseNumber_of_isWholeNumeral hbefore hafter
    (isWholeNumeral_of_filter_eq hgrouped hcs hlength)

/-- Digits of minus forty-two with zeros and underscores. -/
def paddedDigits : List Char := "0_004_2".toList

/-- One hundred and twenty-three in digits of three scripts, between blanks. -/
def mixedNumeral : Text := "\u3000+1_٢३ "

/-- Minus forty-two is read between blanks, and the text of one hundred and twenty-three is a whole
numeral. -/
theorem whole_numerals_read_exactly_paddedDigits :
    (toString (-42 : ℤ)).toList = ['-'] ++ ['4', '2'] ∧ 3 + ['4', '2'].length ≤ 4300 ∧
    IsGrouped paddedDigits ∧ paddedDigits.filter (· != '_') = List.replicate 3 '0' ++ ['4', '2'] ∧
    parseNumber (Text.ofString "\u2003" ++ Text.ofChars (['-'] ++ paddedDigits) ++
      Text.ofString "\t\n") = some (.int (-42)) ∧
    parseNumber mixedNumeral = some (.int 123) ∧
    ∃ cs, mixedNumeral.trim = Text.ofChars cs ∧ IsWholeNumeral cs 123 := by
  obtain ⟨hexact, hpadded⟩ := whole_numerals_read_exactly
  have hdecimal : (toString (-42 : ℤ)).toList = ['-'] ++ ['4', '2'] := by decide
  have hgrouped : IsGrouped paddedDigits := ⟨by decide, by decide, by decide⟩
  have hdigits : paddedDigits.filter (· != '_') = List.replicate 3 '0' ++ ['4', '2'] := by decide
  have hmixed : parseNumber mixedNumeral = some (.int 123) := by decide +kernel
  have hread := hpadded (-42) ['4', '2'] paddedDigits 3 "\u2003" "\t\n" hdecimal (by decide) hgrouped
    hdigits (by decide) (by decide)
  exact ⟨hdecimal, by decide, hgrouped, hdigits, hread, hmixed, (hexact _ _).mp hmixed⟩

end StockFlow
