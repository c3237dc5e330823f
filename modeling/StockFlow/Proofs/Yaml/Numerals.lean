import StockFlow.Proofs.Yaml.Kinds
/-!
# Plain scalars of JSON texts

A number or a name that a portable JSON text holds stands for the same value as a plain scalar. The
YAML reader takes the sign off a number, writes it in lower case and drops blanks and underscores;
of these only the sign and the letter of an exponent are there.
-/

namespace StockFlow.Yaml

open Json (Numeral Exponent fractionChars exponentChars signChars)

variable {cs : List Char}

/-- A character of a plain scalar is a visible ASCII character. -/
lemma toNat_of_isSolid {c : Char} (h : isSolid c = true) : 0x2B ≤ c.toNat ∧ c.toNat ≤ 0x7A := by
  simp only [isSolid, Bool.or_eq_true, beq_iff_eq] at h
  rcases h with ((h | rfl) | rfl) | rfl
  · rcases Bool.or_eq_true_iff.mp h with h | h
    · rcases Bool.or_eq_true_iff.mp h with h | h
      · have hbounds : 65 ≤ c.toNat ∧ c.toNat ≤ 90 := of_decide_eq_true h
        omega
      · have hbounds := Bool.and_eq_true_iff.mp h
        have h1 : 97 ≤ c.toNat := of_decide_eq_true hbounds.1
        have h2 : c.toNat ≤ 122 := of_decide_eq_true hbounds.2
        omega
    · have hbounds := Bool.and_eq_true_iff.mp h
      have h1 : 48 ≤ c.toNat := of_decide_eq_true hbounds.1
      have h2 : c.toNat ≤ 57 := of_decide_eq_true hbounds.2
      omega
  all_goals decide

/-- Solid characters have no blanks around them. -/
lemma trimNumeral_eq (hcs : ∀ c ∈ cs, isSolid c = true) : trimNumeral cs = cs := by
  refine trimBy_eq_self fun c hc => ?_
  have := toNat_of_isSolid (hcs c hc)
  simp only [isNumeralBlank, isPlainBlank, isPlain, Bool.or_eq_false_iff, Bool.and_eq_false_iff,
    Bool.not_eq_false', decide_eq_true_eq, decide_eq_false_iff_not, beq_eq_false_iff_ne]
  omega

/-- There are no underscores among solid characters. -/
lemma filter_underscore_eq (hcs : ∀ c ∈ cs, isSolid c = true) : cs.filter (· != '_') = cs := by
  refine List.filter_eq_self.mpr fun c hc => ?_
  rw [bne_iff_ne]
  rintro rfl
  cases hcs '_' hc

/-- There are no colons among solid characters. -/
lemma contains_colon_eq (hcs : ∀ c ∈ cs, isSolid c = true) : cs.contains ':' = false := by
  rw [← Bool.not_eq_true, List.contains_iff_mem]
  intro hmem
  cases hcs ':' hmem

/-- No sign stands in front of a digit. -/
lemma splitSign_of_isDigit {d : Char} (h : d.isDigit = true) (cs : List Char) :
    splitSign (d :: cs) = (false, d :: cs) := by
  unfold splitSign
  split
  · next heq => cases heq; cases h
  · next heq => cases heq; cases h
  · rfl

/-! ## Whole numbers -/

/-- The value of a decimal digit of a whole number. -/
lemma baseDigit?_of_isDigit {c : Char} (h : c.isDigit = true) :
    baseDigit? 10 c = some (c.toNat - 48) := by
  have hdigit : ∀ d ∈ digitChars, baseDigit? 10 d = some (d.toNat - 48) :=
    forall_digitChars.mpr ⟨rfl, rfl, rfl, rfl, rfl, rfl, rfl, rfl, rfl, rfl⟩
  exact hdigit c (mem_digitChars h)

lemma mapM_baseDigit? (hcs : ∀ c ∈ cs, c.isDigit = true) :
    cs.mapM (baseDigit? 10) = some (cs.map fun c => c.toNat - 48) := by
  induction cs with
  | nil => rfl
  | cons c cs ih =>
    obtain ⟨hc, hcs⟩ := List.forall_mem_cons.mp hcs
    simp [List.mapM_cons, baseDigit?_of_isDigit hc, ih hcs]

/-- Digits are the whole number that they stand for. -/
lemma integerOf_digits (hne : cs ≠ []) (hcs : ∀ c ∈ cs, c.isDigit = true)
    (hshort : cs.length ≤ maxDigits) : integerOf 10 cs = .ok (digitsValue cs : Int) := by
  obtain ⟨d, ds, rfl⟩ := List.exists_cons_of_ne_nil hne
  have hmark : dropBaseMark 10 (d :: ds) = d :: ds := by
    simp only [dropBaseMark, Nat.reduceEqDiff, if_false]
  have hsolid : ∀ c ∈ d :: ds, isSolid c = true := fun c hc => isSolid_of_isDigit (hcs c hc)
  rw [integerOf, trimNumeral_eq hsolid, splitSign_of_isDigit (hcs d (by simp))]
  dsimp only
  rw [hmark, mapM_baseDigit? hcs]
  dsimp only
  rw [if_neg (by simpa using hshort)]
  rfl

variable (n : Numeral)

lemma splitSign_append (rest : List Char) :
    splitSign ((if n.negative then ['-'] else []) ++ (n.whole ++ rest)) =
      (n.negative, n.whole ++ rest) := by
  obtain ⟨d, ds, hwhole⟩ := List.exists_cons_of_ne_nil n.nonempty
  have hd := n.whole_decimal d (by simp [hwhole])
  rw [hwhole]
  cases n.negative with
  | false => exact splitSign_of_isDigit hd (ds ++ rest)
  | true => rfl

lemma value_eq_int (hfraction : n.fraction = []) (hexponent : n.exponent? = none) :
    n.value = .int (if n.negative then -(digitsValue n.whole : Int) else digitsValue n.whole) := by
  simp [Numeral.value, hfraction, hexponent]

/-- A whole number has the same value in both formats. -/
lemma intValue_chars (hfraction : n.fraction = []) (hexponent : n.exponent? = none) :
    intValue n.chars =
      .ok (if n.negative then -(digitsValue n.whole : Int) else digitsValue n.whole) := by
  have hchars : n.chars = (if n.negative then ['-'] else []) ++ (n.whole ++ []) := by
    rw [numeralChars_eq, hfraction, hexponent, wholeChars, List.append_assoc]
    rfl
  have hsolid := isSolid_of_mem_chars n
  have hne : n.chars.isEmpty = false := by
    rw [hchars]
    simp [n.nonempty]
  have hvalue := integerOf_digits n.nonempty n.whole_decimal (n.short hfraction hexponent)
  have hcolon : n.whole.contains ':' = false :=
    contains_colon_eq fun c hc => isSolid_of_isDigit (n.whole_decimal c hc)
  unfold intValue
  dsimp only
  rw [filter_underscore_eq hsolid, hne, hchars, splitSign_append, List.append_nil]
  dsimp only
  by_cases hzero : n.whole = ['0']
  · rw [hzero]
    cases n.negative <;> rfl
  · have hlead : n.whole.head? ≠ some '0' := fun h => hzero (n.leading h)
    rw [if_neg (by simp)]
    split
    · next heq => exact absurd heq n.nonempty
    · next heq => exact absurd heq hzero
    · next heq => exact absurd (by rw [heq]; rfl) hlead
    · next heq => exact absurd (by rw [heq]; rfl) hlead
    · next heq => exact absurd (by rw [heq]; rfl) hlead
    · rw [hcolon, hvalue]
      cases n.negative <;> rfl

/-! ## Numbers with a point -/

/-- The sign of a number goes with the digits. -/
lemma neg_ofDecimal (digits : Nat) (exponent : Int) :
    (Binary64.ofDecimal false digits exponent).neg = Binary64.ofDecimal true digits exponent := by
  have hrounded : ∀ mantissa exponent, (Binary64.ofRounded false mantissa exponent).neg =
      Binary64.ofRounded true mantissa exponent := by
    intro mantissa exponent
    unfold Binary64.ofRounded
    dsimp only
    split <;> split <;> rfl
  have hratio : ∀ num den,
      (Binary64.ofRatio false num den).neg = Binary64.ofRatio true num den := by
    intro num den
    unfold Binary64.ofRatio
    split
    · rfl
    · exact hrounded _ _
  unfold Binary64.ofDecimal
  dsimp only
  split
  · rfl
  split
  · rfl
  split
  · rfl
  · exact hratio _ _

/-- The characters of numbers are their own digits, and stay characters of numbers in lower
case. -/
lemma plainDigit_eq : ∀ c ∈ numberChars, plainDigit c = c ∧ c.toLower ∈ numberChars := by
  have hall : numberChars.all (fun c => plainDigit c = c ∧ c.toLower ∈ numberChars) = true := by
    decide +kernel
  exact fun c hc => of_decide_eq_true (List.all_eq_true.mp hall c hc)

lemma toLower_of_isDigit {c : Char} (h : c.isDigit = true) : c.toLower = c := by
  have hdigit : ∀ d ∈ digitChars, d.toLower = d :=
    forall_digitChars.mpr ⟨rfl, rfl, rfl, rfl, rfl, rfl, rfl, rfl, rfl, rfl⟩
  exact hdigit c (mem_digitChars h)

lemma map_toLower_digits (hcs : ∀ c ∈ cs, c.isDigit = true) : cs.map Char.toLower = cs := by
  induction cs with
  | nil => rfl
  | cons c cs ih =>
    obtain ⟨hc, hcs⟩ := List.forall_mem_cons.mp hcs
    rw [List.map_cons, toLower_of_isDigit hc, ih hcs]

/-- Characters without underscores are taken as they are. -/
lemma dropUnderscores?_eq {previous : Option Char} (hprevious : previous ≠ some '_')
    (hcs : '_' ∉ cs) : dropUnderscores? previous cs = some cs := by
  induction cs generalizing previous with
  | nil => rw [dropUnderscores?, if_neg hprevious]
  | cons c cs ih =>
    rw [List.mem_cons, not_or] at hcs
    rw [dropUnderscores?]
    · rw [if_neg (by simp [hprevious]), ih (by simpa using fun h => hcs.1 h.symm) hcs.2]
      rfl
    · exact fun h => hcs.1 h.symm

lemma map_toLower_signChars (sign? : Option Bool) :
    (signChars sign?).map Char.toLower = signChars sign? := by
  rcases sign? with _ | _ | _ <;> decide

/-- An exponent is read with its sign. -/
lemma exponent?_eq (e : Exponent) : exponent? (signChars e.sign? ++ e.digits) = some e.value := by
  have hsplit : splitSign (signChars e.sign? ++ e.digits) = (e.sign? == some true, e.digits) := by
    rcases e.sign? with _ | _ | _
    · obtain ⟨d, ds, hdigits⟩ := List.exists_cons_of_ne_nil e.nonempty
      rw [hdigits]
      exact splitSign_of_isDigit (e.decimal d (by simp [hdigits])) ds
    · rfl
    · rfl
  have hall : e.digits.all Char.isDigit = true := List.all_eq_true.mpr e.decimal
  rw [exponent?, hsplit]
  dsimp only
  rw [if_neg (by simp [e.nonempty, hall]), Exponent.value]
  simp [digitsValue]

/-- The characters behind the sign of a number, in lower case. -/
def lowerBody : List Char :=
  n.whole ++ (fractionChars n.fraction ++ (exponentChars n.exponent?).map Char.toLower)

lemma map_toLower_chars : n.chars.map Char.toLower =
    (if n.negative then ['-'] else []) ++ lowerBody n := by
  have hsign : (if n.negative then ['-'] else []).map Char.toLower =
      if n.negative then ['-'] else [] := by split <;> rfl
  have hfraction : (fractionChars n.fraction).map Char.toLower = fractionChars n.fraction := by
    rw [fractionChars]
    split
    · rfl
    · rw [List.map_cons, map_toLower_digits n.fraction_decimal]
      rfl
  rw [Numeral.chars, List.map_append, List.map_append, List.map_append, hsign, hfraction,
    map_toLower_digits n.whole_decimal, lowerBody]

/-- Digits in front of something else are taken. -/
lemma span_digits {rest : List Char} (hcs : ∀ c ∈ cs, c.isDigit = true)
    (hrest : Halts Char.isDigit rest) : (cs ++ rest).takeWhile Char.isDigit = cs ∧
      (cs ++ rest).dropWhile Char.isDigit = rest := by
  rw [List.takeWhile_append_of_pos hcs, List.dropWhile_append_of_pos hcs]
  cases rest with
  | nil => simp
  | cons c rest =>
    have hc : ¬c.isDigit = true := by simp [hrest c rest rfl]
    rw [List.takeWhile_cons_of_neg hc, List.dropWhile_cons_of_neg hc, List.append_nil]
    exact ⟨rfl, rfl⟩

/-- The exponent of a number in lower case. -/
lemma map_toLower_exponentChars : (exponentChars n.exponent?).map Char.toLower =
    (n.exponent?.map fun e => 'e' :: (signChars e.sign? ++ e.digits)).getD [] := by
  cases n.exponent? with
  | none => rfl
  | some e =>
    have hletter : e.letter.toLower = 'e' := by
      obtain hletter | hletter := e.lettered <;> rw [hletter] <;> rfl
    simp only [exponentChars, Option.map_some, Option.getD_some, Exponent.chars, List.map_cons,
      List.map_append, hletter, map_toLower_signChars, map_toLower_digits e.decimal]

/-- The characters behind the sign stand for the absolute value of a number. -/
lemma unsignedDecimal?_lowerBody (hne : n.fraction ≠ []) : unsignedDecimal? false (lowerBody n) =
    some (Binary64.ofDecimal false (digitsValue (n.whole ++ n.fraction)) n.place) := by
  have hbody : lowerBody n = n.whole ++ '.' :: (n.fraction ++
      (n.exponent?.map fun e => 'e' :: (signChars e.sign? ++ e.digits)).getD []) := by
    rw [lowerBody, fractionChars, if_neg (by simpa using hne), map_toLower_exponentChars]
    rfl
  have hpoint : Char.isDigit '.' = false := by decide
  obtain ⟨htake, hdrop⟩ := span_digits n.whole_decimal (Halts.cons hpoint
    (n.fraction ++ (n.exponent?.map fun e => 'e' :: (signChars e.sign? ++ e.digits)).getD []))
  have hexponent : Halts Char.isDigit
      ((n.exponent?.map fun e => 'e' :: (signChars e.sign? ++ e.digits)).getD []) := by
    cases n.exponent? with
    | none => exact Halts.nil
    | some e => exact Halts.cons (by decide) _
  obtain ⟨htake', hdrop'⟩ := span_digits n.fraction_decimal hexponent
  rw [hbody, unsignedDecimal?]
  dsimp only
  rw [htake, hdrop]
  simp only
  rw [htake', hdrop', if_neg (by simp [hne]), Numeral.place]
  cases n.exponent? with
  | none => simp
  | some e => simp [exponent?_eq]

lemma mem_numberChars_of_mem_lowerBody : ∀ c ∈ lowerBody n, c ∈ numberChars := by
  intro c hc
  have hmem : c ∈ n.chars.map Char.toLower := by
    rw [map_toLower_chars]
    exact List.mem_append_right _ hc
  obtain ⟨d, hd, rfl⟩ := List.mem_map.mp hmem
  exact (plainDigit_eq d (mem_numberChars_of_mem_chars n d hd)).2

/-- What stands behind the sign of a number begins with a digit. -/
lemma exists_lowerBody_eq_cons : ∃ d cs, d.isDigit = true ∧ lowerBody n = d :: cs := by
  obtain ⟨d, ds, hwhole⟩ := List.exists_cons_of_ne_nil n.nonempty
  have hd := n.whole_decimal d (by simp [hwhole])
  exact ⟨d, _, hd, by rw [lowerBody, hwhole, List.cons_append]⟩

/-- The characters of a number are a decimal numeral as they are: what stands behind the sign begins with
a digit, unlike the names of numbers that are not finite. -/
lemma decimalNumeral?_eq (hcs : ∀ c ∈ cs, c ∈ numberChars) {negative : Bool} {d : Char}
    {ds : List Char} (hsplit : splitSign cs = (negative, d :: ds)) (hd : d.isDigit = true) :
    decimalNumeral? cs = unsignedDecimal? negative (d :: ds) := by
  have hplain : cs.map plainDigit = cs :=
    (List.map_congr_left fun c hc => (plainDigit_eq c (hcs c hc)).1).trans (List.map_id _)
  have hbar : '_' ∉ cs := fun h => by cases isSolid_of_mem_numberChars '_' (hcs '_' h)
  have hword : ∀ c word, c.isDigit = false →
      String.ofList ((d :: ds).map Char.toLower) ≠ String.ofList (c :: word) := by
    intro c word hc heq
    rw [List.map_cons, toLower_of_isDigit hd] at heq
    rw [← (List.cons.inj (String.ofList_injective heq)).1, hd] at hc
    cases hc
  rw [decimalNumeral?, hplain, dropUnderscores?_eq (by simp) hbar]
  simp only [Option.bind_eq_bind, Option.bind_some, hsplit]
  rw [if_neg, if_neg]
  · exact hword 'n' ['a', 'n'] rfl
  · exact not_or.mpr ⟨hword 'i' ['n', 'f'] rfl, hword 'i' ['n', 'f', 'i', 'n', 'i', 't', 'y'] rfl⟩

/-- A decimal numeral in lower case is read as it is. -/
lemma floatOf_lowerBody (hne : n.fraction ≠ []) : floatOf (lowerBody n) =
    .ok (Binary64.ofDecimal false (digitsValue (n.whole ++ n.fraction)) n.place) := by
  have hmem := mem_numberChars_of_mem_lowerBody n
  have hsolid : ∀ c ∈ lowerBody n, isSolid c = true :=
    fun c hc => isSolid_of_mem_numberChars c (hmem c hc)
  obtain ⟨d, cs, hd, hbody⟩ := exists_lowerBody_eq_cons n
  have hsplit : splitSign (lowerBody n) = (false, d :: cs) := by
    rw [hbody]
    exact splitSign_of_isDigit hd cs
  rw [floatOf, trimNumeral_eq hsolid, decimalNumeral?_eq hmem hsplit hd, ← hbody,
    unsignedDecimal?_lowerBody n hne]

lemma value_eq_float (hne : n.fraction ≠ []) : n.value =
    .float (Binary64.ofDecimal n.negative (digitsValue (n.whole ++ n.fraction)) n.place) := by
  simp [Numeral.value, hne]

/-- A number with a point has the same value in both formats. -/
lemma floatValue_chars (hne : n.fraction ≠ []) : floatValue n.chars =
    .ok (Binary64.ofDecimal n.negative (digitsValue (n.whole ++ n.fraction)) n.place) := by
  obtain ⟨d, cs, hd, hbody⟩ := exists_lowerBody_eq_cons n
  have hsolid := isSolid_of_mem_chars n
  have hempty : n.chars.isEmpty = false := by
    have := n.nonempty
    simp [Numeral.chars, this]
  have hparts : floatParts n.chars = (n.negative, lowerBody n) := by
    rw [floatParts, filter_underscore_eq hsolid, map_toLower_chars]
    exact splitSign_append n _
  have hword : ∀ c cs, c.isDigit = false → lowerBody n ≠ c :: cs := by
    rintro c cs hc heq
    rw [hbody] at heq
    rw [← (List.cons.inj heq).1, hd] at hc
    cases hc
  have hcolon : (lowerBody n).contains ':' = false := contains_colon_eq fun c hc =>
    isSolid_of_mem_numberChars c (mem_numberChars_of_mem_lowerBody n c hc)
  unfold floatValue
  rw [filter_underscore_eq hsolid, hempty, hparts]
  dsimp only
  rw [if_neg (by simp), if_neg (hword _ _ (by decide)),
    if_neg (show lowerBody n ≠ nanWord from hword _ _ (by decide)), hcolon,
    floatOf_lowerBody n hne]
  cases n.negative with
  | false => rfl
  | true => exact congrArg Except.ok (neg_ofDecimal _ _)

/-! ## Plain scalars -/

/-- The atom that a scalar without a tag stands for. -/
def plainAtom (s : Text) : Except Failure Atom := atomValue (implicitTag s) s

lemma plainAtom_ofChars (cs : List Char) :
    plainAtom (.ofChars cs) = charsValue (implicitCharsTag cs) cs := by
  rw [plainAtom, atomValue, implicitTag, Text.chars?_ofChars]

/-- A portable number is the same number in YAML. -/
lemma plainAtom_numeral (hn : n.IsPortable) :
    ∃ a, n.value = .atom a ∧ plainAtom n.text = .ok a := by
  rw [Numeral.text, plainAtom_ofChars]
  by_cases hfraction : n.fraction = []
  · have hexponent : n.exponent? = none := by
      cases hexponent : n.exponent? with
      | none => rfl
      | some e => exact absurd hfraction (hn e hexponent).1
    refine ⟨_, value_eq_int n hfraction hexponent, ?_⟩
    rw [implicitCharsTag_int n hfraction hexponent, charsValue,
      intValue_chars n hfraction hexponent]
    rfl
  · refine ⟨_, value_eq_float n hfraction, ?_⟩
    rw [implicitCharsTag_float n hn hfraction, charsValue, floatValue_chars n hfraction]
    rfl

/-- A portable name of a value is the same value in YAML. -/
lemma plainAtom_word {w : Json.Word} (hw : w.IsPortable) :
    ∃ a cs, w.value = .atom a ∧ w.text = .ofChars cs ∧ plainAtom (.ofChars cs) = .ok a := by
  obtain ⟨text, value, named⟩ := w
  simp only [Json.names, List.mem_cons, List.not_mem_nil, or_false, Prod.mk.injEq] at named
  rcases named with ⟨rfl, rfl⟩ | ⟨rfl, rfl⟩ | ⟨rfl, rfl⟩ | ⟨rfl, rfl⟩ | ⟨rfl, rfl⟩ | ⟨rfl, rfl⟩
  · exact ⟨.null, "null".toList, rfl, rfl, by decide +kernel⟩
  · exact ⟨.bool true, "true".toList, rfl, rfl, by decide +kernel⟩
  · exact ⟨.bool false, "false".toList, rfl, rfl, by decide +kernel⟩
  all_goals exact absurd rfl (hw _)

end StockFlow.Yaml
