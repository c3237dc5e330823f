import StockFlow.Expression
import StockFlow.Proofs.Numeral
import StockFlow.Proofs.Sheet.Choices
/-!
# Kinds of texts and numbers in them

A declared text is sorted by its kind, and it is read as a number. The two agree: a text is a number
exactly if it is of the kind of numerals (`isSome_toNumber_iff`), and only percentages are read as
percentages (`classify_of_isSome_parsePercentage`). Neither is obvious from the definitions, because the
kind asks first for bars, for words and for a percent sign at the end. No numeral has any of these: it is
made of decimal digits of any script, of signs, points and underscores, and of the letters of an exponent
(`isNumeralChar_of_mem`).

White space around a text changes neither its kind nor any number in it (`trim_append_append`).
-/

namespace StockFlow

/-! ## The characters of numerals -/

/-- Whether a character may stand in a numeral. The letters are those of an exponent and of the names of
numbers that are not finite, in either case. -/
def IsNumeralChar (c : Char) : Prop :=
  (digitValue? c).isSome ∨ c ∈ ['+', '-', '.', '_', 'e', 'E'] ∨ c.toLower ∈ "infinity".toList ∨
    c.toLower ∈ "nan".toList

instance (c : Char) : Decidable (IsNumeralChar c) := by
  unfold IsNumeralChar
  infer_instance

variable {cs : List Char}

/-- What is behind the sign is all but a sign. -/
lemma mem_splitSign {c : Char} (h : c ∈ cs) : c = '+' ∨ c = '-' ∨ c ∈ (splitSign cs).2 := by
  unfold splitSign
  split
  · rcases List.mem_cons.mp h with rfl | h
    · exact Or.inr (Or.inl rfl)
    · exact Or.inr (Or.inr h)
  · rcases List.mem_cons.mp h with rfl | h
    · exact Or.inl rfl
    · exact Or.inr (Or.inr h)
  · exact Or.inr (Or.inr h)

/-- If what is behind the sign is made of characters of numerals, then so is the whole. -/
lemma isNumeralChar_of_splitSign (h : ∀ c ∈ (splitSign cs).2, IsNumeralChar c) :
    ∀ c ∈ cs, IsNumeralChar c := by
  intro c hc
  rcases mem_splitSign hc with rfl | rfl | hc
  · decide
  · decide
  · exact h c hc

/-- Digits with underscores are digits and underscores. -/
lemma isNumeralChar_of_underscoredDigits? {digits : List ℕ}
    (h : underscoredDigits? cs = some digits) : ∀ c ∈ cs, IsNumeralChar c := by
  intro c hc
  rcases (underscoredDigits?_eq_some_iff.mp h).isSome_digitValue? hc with rfl | hdigit
  · decide
  · exact Or.inl hdigit

lemma isNumeralChar_of_wholeNumeral? {n : ℤ} (h : wholeNumeral? cs = some n) :
    ∀ c ∈ cs, IsNumeralChar c := by
  unfold wholeNumeral? at h
  dsimp only at h
  split at h
  · cases h
  · next hdigits =>
    exact isNumeralChar_of_splitSign (isNumeralChar_of_underscoredDigits? hdigits)

/-- Dropping underscores drops nothing else. -/
lemma mem_of_dropUnderscores? {previous : Option Char} {plain : List Char}
    (h : dropUnderscores? previous cs = some plain) : ∀ c ∈ cs, c = '_' ∨ c ∈ plain := by
  induction cs generalizing previous plain with
  | nil => simp
  | cons c rest ih =>
    unfold dropUnderscores? at h
    split at h
    · next heq => cases heq
    · next heq =>
      obtain ⟨rfl, rfl⟩ := List.cons.inj heq
      split at h
      · exact List.forall_mem_cons.mpr ⟨Or.inl rfl, ih h⟩
      · cases h
    · next heq =>
      obtain ⟨rfl, rfl⟩ := List.cons.inj heq
      split at h
      · cases h
      · obtain ⟨more, hmore, rfl⟩ := Option.map_eq_some_iff.mp h
        refine List.forall_mem_cons.mpr ⟨Or.inr List.mem_cons_self, fun c' hc' => ?_⟩
        exact (ih hmore c' hc').imp_right (List.mem_cons_of_mem _)

/-- A character that is changed into an ASCII digit is a digit. -/
lemma isNumeralChar_of_plainDigit {c : Char} (h : IsNumeralChar (plainDigit c)) :
    IsNumeralChar c := by
  unfold plainDigit at h
  cases hdigit : digitValue? c with
  | some d => exact Or.inl (by rw [hdigit]; rfl)
  | none => rwa [hdigit] at h

lemma isNumeralChar_of_isDigit {c : Char} (h : c.isDigit = true) : IsNumeralChar c :=
  Or.inl (by rw [digitValue?_of_isDigit h]; rfl)

lemma isNumeralChar_of_exponent? {k : ℤ} (h : exponent? cs = some k) :
    ∀ c ∈ cs, IsNumeralChar c := by
  unfold exponent? at h
  dsimp only at h
  split at h
  · cases h
  · next hdigits =>
    refine isNumeralChar_of_splitSign fun c hc => isNumeralChar_of_isDigit ?_
    rw [not_or, not_not] at hdigits
    exact List.all_eq_true.mp hdigits.2 c hc

/-- What begins with digits is made of characters of numerals if what follows them is. -/
lemma isNumeralChar_of_dropWhile (h : ∀ c ∈ cs.dropWhile Char.isDigit, IsNumeralChar c) :
    ∀ c ∈ cs, IsNumeralChar c := by
  rw [← List.takeWhile_append_dropWhile (p := Char.isDigit) (l := cs)]
  exact List.forall_mem_append.mpr
    ⟨fun c hc => isNumeralChar_of_isDigit (List.all_eq_true.mp List.all_takeWhile c hc), h⟩

lemma isNumeralChar_of_unsignedDecimal? {negative : Bool} {x : Binary64}
    (h : unsignedDecimal? negative cs = some x) : ∀ c ∈ cs, IsNumeralChar c := by
  -- what stands behind the digits is the letter of an exponent, if there is anything
  have hletter : ∀ {c : Char} {more : List Char} {value : ℤ → Binary64},
      (if c = 'e' ∨ c = 'E' then (exponent? more).map value else none) = some x →
      ∀ c' ∈ c :: more, IsNumeralChar c' := by
    intro c more value hvalue
    split at hvalue
    · next hc =>
      obtain ⟨k, hk, -⟩ := Option.map_eq_some_iff.mp hvalue
      refine List.forall_mem_cons.mpr ⟨?_, isNumeralChar_of_exponent? hk⟩
      rcases hc with rfl | rfl <;> decide
    · cases hvalue
  unfold unsignedDecimal? at h
  dsimp only at h
  refine isNumeralChar_of_dropWhile ?_
  split at h
  · next more hdot =>
    rw [hdot]
    refine List.forall_mem_cons.mpr ⟨by decide, isNumeralChar_of_dropWhile ?_⟩
    dsimp only at h
    split at h
    · cases h
    split at h
    · next hnil => simp [hnil]
    · next c rest hcons =>
      rw [hcons]
      exact hletter h
  · dsimp only at h
    split at h
    · cases h
    split at h
    · next hnil => simp [hnil]
    · next c rest hcons =>
      rw [hcons]
      exact hletter h

lemma isNumeralChar_of_decimalNumeral? {x : Binary64} (h : decimalNumeral? cs = some x) :
    ∀ c ∈ cs, IsNumeralChar c := by
  unfold decimalNumeral? at h
  obtain ⟨plain, hplain, h⟩ := Option.bind_eq_some_iff.mp h
  have hall : ∀ c ∈ plain, IsNumeralChar c := by
    refine isNumeralChar_of_splitSign fun c hc => ?_
    have hlower : ∀ {word : String}, String.ofList ((splitSign plain).2.map Char.toLower) = word →
        c.toLower ∈ word.toList := by
      rintro word rfl
      rw [String.toList_ofList]
      exact List.mem_map_of_mem hc
    dsimp only at h
    split at h
    · next hword =>
      refine Or.inr (Or.inr (Or.inl ?_))
      rcases hword with hword | hword
      · exact (by decide : "inf".toList ⊆ "infinity".toList) (hlower hword)
      · exact hlower hword
    · split at h
      · next hword => exact Or.inr (Or.inr (Or.inr (hlower hword)))
      · exact isNumeralChar_of_unsignedDecimal? h c hc
  intro c hc
  rcases mem_of_dropUnderscores? hplain (plainDigit c) (List.mem_map_of_mem hc) with hbar | hmem
  · exact isNumeralChar_of_plainDigit (by rw [hbar]; decide)
  · exact isNumeralChar_of_plainDigit (hall _ hmem)

/-- A numeral is made of the characters of numerals. -/
lemma isNumeralChar_of_mem {n : Number} (h : numeral? cs = some n) :
    ∀ c ∈ cs, IsNumeralChar c := by
  unfold numeral? at h
  split at h
  · next hwhole => exact isNumeralChar_of_wholeNumeral? hwhole
  · split at h
    · next hdecimal => exact isNumeralChar_of_decimalNumeral? hdecimal
    · cases h

/-! ## Blanks around a text -/

/-- What is no blank is not trimmed. -/
lemma mem_trim_of_mem {t : Text} {c : CodePoint} (hc : c.isBlank = false) (h : c ∈ t) :
    c ∈ t.trim := by
  have hdrop : ∀ {xs : Text}, c ∈ xs → c ∈ xs.dropWhile CodePoint.isBlank := by
    intro xs hxs
    rw [← List.takeWhile_append_dropWhile (p := CodePoint.isBlank) (l := xs)] at hxs
    refine (List.mem_append.mp hxs).resolve_left fun hblank => ?_
    rw [List.all_eq_true.mp List.all_takeWhile c hblank] at hc
    cases hc
  unfold Text.trim trimBy
  exact List.mem_reverse.mpr (hdrop (List.mem_reverse.mpr (hdrop h)))

/-! ## Kinds and numbers -/

/-- A text that is a number is made of the characters of numerals, blanks around it aside. -/
lemma exists_of_mem_trim {s : Text} {n : Number} (h : parseNumber s = some n) :
    ∀ point ∈ s.trim, ∃ c, IsNumeralChar c ∧ point = .char c := by
  obtain ⟨cs, hcs, hn⟩ := Option.bind_eq_some_iff.mp h
  rw [Text.eq_ofChars_of_chars? hcs]
  rintro point hpoint
  obtain ⟨c, hc, rfl⟩ := List.mem_map.mp hpoint
  exact ⟨c, isNumeralChar_of_mem hn c hc, rfl⟩

/-- A text that is a number holds no bar and no percent sign between its blanks. -/
lemma notMem_trim_of_parseNumber {s : Text} {n : Number} (h : parseNumber s = some n) :
    bar ∉ s.trim ∧ percentSign ∉ s.trim := by
  constructor
  · intro hmem
    obtain ⟨c, hc, hbar⟩ := exists_of_mem_trim h bar hmem
    rw [← CodePoint.char.inj hbar] at hc
    exact absurd hc (by decide)
  · intro hmem
    obtain ⟨c, hc, hpercent⟩ := exists_of_mem_trim h percentSign hmem
    rw [← CodePoint.char.inj hpercent] at hc
    exact absurd hc (by decide)

/-- A text is of the kind of numerals if it is a number. -/
lemma classifyText_eq_numericString_iff {s : Text} :
    classifyText s = .numericString ↔ (parseNumber s).isSome := by
  constructor
  · intro h
    unfold classifyText at h
    dsimp only at h
    split_ifs at h
    assumption
  · intro h
    obtain ⟨n, hn⟩ := Option.isSome_iff_exists.mp h
    obtain ⟨hbar, hpercent⟩ := notMem_trim_of_parseNumber hn
    have hword : ∀ word : Text, word.chars?.bind numeral? = none → s.trim ≠ word := by
      rintro word hword rfl
      rw [parseNumber, hword] at hn
      cases hn
    have hlast : s.trim.getLast? ≠ some percentSign :=
      fun hlast => hpercent (List.mem_of_getLast? hlast)
    unfold classifyText
    simp only [List.contains_eq_mem, hbar, decide_false, Bool.false_eq_true, if_false,
      hword restWord (by decide), hword autoWord (by decide), hlast, h, if_true]

lemma classifyText_ne_number (s : Text) : classifyText s ≠ .number := by
  unfold classifyText
  dsimp only
  split_ifs <;> simp

/-- A value is a number exactly if its kind is that of numbers or of numerals. -/
theorem isSome_toNumber_iff (value : Datum) :
    (toNumber value).isSome ↔ classify value = .number ∨ classify value = .numericString := by
  unfold toNumber classify
  split
  · simp
  · simp
  · next s =>
    dsimp only
    rw [classifyText_eq_numericString_iff, or_iff_right (classifyText_ne_number s)]
  · next hint hfloat htext =>
    split
    · simp
    · next n => exact absurd rfl (hint n)
    · next x => exact absurd rfl (hfloat x)
    · next s => exact absurd rfl (htext s)
    · split <;> simp

/-- What is read as a percentage is a percentage. -/
theorem classify_of_isSome_parsePercentage {s : Text} (h : (parsePercentage s).isSome) :
    classifyText s = .percentage := by
  unfold parsePercentage at h
  dsimp only at h
  split at h
  · next hlast =>
    obtain ⟨n, hn⟩ := Option.isSome_iff_exists.mp h
    have hsplit := List.dropLast_append_getLast? percentSign hlast
    have hbar : bar ∉ s.trim := by
      rw [← hsplit]
      intro hmem
      rcases List.mem_append.mp hmem with hmem | hmem
      · exact (notMem_trim_of_parseNumber hn).1 (mem_trim_of_mem (by decide) hmem)
      · exact absurd (List.mem_singleton.mp hmem) (by decide)
    have hword : ∀ word : Text, word.getLast? ≠ some percentSign → s.trim ≠ word := by
      rintro word hword rfl
      exact hword hlast
    unfold classifyText
    simp only [List.contains_eq_mem, hbar, decide_false, hlast, hword restWord (by decide),
      hword autoWord (by decide), Bool.false_eq_true, if_false, if_true]
  · cases h

end StockFlow
