import StockFlow.Proofs.Json.Portable
import StockFlow.Proofs.Yaml.Plain
import StockFlow.Yaml.Atom
/-!
# Kinds of numbers

Which kind of plain scalar a number of a JSON text is. While the characters of a number are read, the
patterns of truth values, of numbers with a point and of whole numbers are each left in one of a few
states, which digits do not change.
-/

namespace StockFlow.Yaml

open Json (Numeral Exponent fractionChars exponentChars signChars)

/-! ## Digits -/

/-- The decimal digits. -/
def digitChars : List Char := ['0', '1', '2', '3', '4', '5', '6', '7', '8', '9']

/-- The characters that numbers are written with. -/
def numberChars : List Char := digitChars ++ ['.', 'e', 'E', '+', '-']

lemma isSolid_of_mem_numberChars : ∀ c ∈ numberChars, isSolid c = true :=
  List.all_eq_true.mp (by decide)

/-- A decimal digit is one of ten characters. -/
lemma mem_digitChars {c : Char} (h : c.isDigit = true) : c ∈ digitChars := by
  have hbounds : 48 ≤ c.toNat ∧ c.toNat ≤ 57 := by
    simp only [Char.isDigit, Bool.and_eq_true, decide_eq_true_eq] at h
    exact h
  have hdigit : ∀ n < 58, 48 ≤ n → Char.ofNat n ∈ digitChars := by decide
  have := hdigit c.toNat (by omega) hbounds.1
  rwa [Char.ofNat_toNat] at this

lemma forall_digitChars {P : Char → Prop} : (∀ d ∈ digitChars, P d) ↔
    P '0' ∧ P '1' ∧ P '2' ∧ P '3' ∧ P '4' ∧ P '5' ∧ P '6' ∧ P '7' ∧ P '8' ∧ P '9' := by
  simp [digitChars]

namespace Pattern

/-- What is left of a pattern after several characters. -/
def afterAll (p : Pattern) (cs : List Char) : Pattern := cs.foldl (fun p c => p.after c) p

lemma afterAll_cons (p : Pattern) (c : Char) (cs : List Char) :
    p.afterAll (c :: cs) = (p.after c).afterAll cs := rfl

lemma afterAll_append (p : Pattern) (cs ds : List Char) :
    p.afterAll (cs ++ ds) = (p.afterAll cs).afterAll ds := List.foldl_append

@[simp]
lemma afterAll_never (cs : List Char) : never.afterAll cs = never := by
  induction cs with
  | nil => rfl
  | cons c cs ih => exact ih

/-- Digits leave a pattern as it is if each of them does. -/
lemma afterAll_digits {p : Pattern} {ds : List Char} (hp : ∀ d ∈ digitChars, p.after d = p)
    (hds : ∀ d ∈ ds, d.isDigit = true) : p.afterAll ds = p := by
  induction ds with
  | nil => rfl
  | cons d ds ih =>
    obtain ⟨hd, hds⟩ := List.forall_mem_cons.mp hds
    rw [afterAll_cons, hp d (mem_digitChars hd), ih hds]

/-- Digits lead to a pattern if the first one does and the others leave it as it is. -/
lemma afterAll_digits_of_ne_nil {p q : Pattern} {ds : List Char}
    (hp : ∀ d ∈ digitChars, p.after d = q) (hq : ∀ d ∈ digitChars, q.after d = q)
    (hne : ds ≠ []) (hds : ∀ d ∈ ds, d.isDigit = true) : p.afterAll ds = q := by
  obtain ⟨d, ds, rfl⟩ := List.exists_cons_of_ne_nil hne
  obtain ⟨hd, hds⟩ := List.forall_mem_cons.mp hds
  rw [afterAll_cons, hp d (mem_digitChars hd), afterAll_digits hq hds]

end Pattern

open Pattern

/-! ## Kinds of numbers -/

/-- What is left of the pattern of numbers with a point behind digits in front of the point. -/
def floatWhole : Pattern := floatPattern.after '0'

/-- What is left of it behind the point and digits. -/
def floatFraction : Pattern := floatWhole.after '.'

/-- What is left of it behind the letter of an exponent. -/
def floatLetter : Pattern := floatFraction.after 'e'

/-- What is left of it behind the sign and the digits of an exponent. -/
def floatExponent : Pattern := (floatLetter.after '+').after '0'

/-- What is left of the pattern of whole numbers behind digits that do not begin with a zero. -/
def intWhole : Pattern := intPattern.after '1'

lemma floatWhole_after : ∀ d ∈ digitChars, floatWhole.after d = floatWhole :=
  forall_digitChars.mpr ⟨rfl, rfl, rfl, rfl, rfl, rfl, rfl, rfl, rfl, rfl⟩

lemma floatFraction_after : ∀ d ∈ digitChars, floatFraction.after d = floatFraction :=
  forall_digitChars.mpr ⟨rfl, rfl, rfl, rfl, rfl, rfl, rfl, rfl, rfl, rfl⟩

lemma floatExponent_after : ∀ d ∈ digitChars, floatExponent.after d = floatExponent :=
  forall_digitChars.mpr ⟨rfl, rfl, rfl, rfl, rfl, rfl, rfl, rfl, rfl, rfl⟩

lemma intWhole_after : ∀ d ∈ digitChars, intWhole.after d = intWhole :=
  forall_digitChars.mpr ⟨rfl, rfl, rfl, rfl, rfl, rfl, rfl, rfl, rfl, rfl⟩

section Numerals

variable (n : Numeral)

/-- The characters of the sign and of the digits in front of the point. -/
def wholeChars : List Char := (if n.negative then ['-'] else []) ++ n.whole

lemma numeralChars_eq :
    n.chars = wholeChars n ++ (fractionChars n.fraction ++ exponentChars n.exponent?) := by
  rw [Numeral.chars, wholeChars, List.append_assoc]

/-- No number is a truth value. -/
lemma boolPattern_wholeChars : boolPattern.afterAll (wholeChars n) = .never := by
  have hdigit : ∀ d ∈ digitChars, boolPattern.after d = .never :=
    forall_digitChars.mpr ⟨rfl, rfl, rfl, rfl, rfl, rfl, rfl, rfl, rfl, rfl⟩
  rw [wholeChars]
  split
  · exact afterAll_never n.whole
  · exact afterAll_digits_of_ne_nil hdigit (fun _ _ => rfl) n.nonempty n.whole_decimal

lemma floatPattern_wholeChars : floatPattern.afterAll (wholeChars n) = floatWhole := by
  have hplain : ∀ d ∈ digitChars, floatPattern.after d = floatWhole :=
    forall_digitChars.mpr ⟨rfl, rfl, rfl, rfl, rfl, rfl, rfl, rfl, rfl, rfl⟩
  have hminus : ∀ d ∈ digitChars, (floatPattern.after '-').after d = floatWhole :=
    forall_digitChars.mpr ⟨rfl, rfl, rfl, rfl, rfl, rfl, rfl, rfl, rfl, rfl⟩
  rw [wholeChars]
  split
  · rw [List.singleton_append, afterAll_cons]
    exact afterAll_digits_of_ne_nil hminus floatWhole_after n.nonempty n.whole_decimal
  · exact afterAll_digits_of_ne_nil hplain floatWhole_after n.nonempty n.whole_decimal

/-- The sign and the digits in front of the point are a whole number. -/
lemma intPattern_accepts_wholeChars : intPattern.accepts (wholeChars n) = true := by
  have hlead : ∀ d ∈ digitChars, d ≠ '0' → intPattern.after d = intWhole ∧
      (intPattern.after '-').after d = intWhole :=
    forall_digitChars.mpr ⟨absurd rfl, fun _ => ⟨rfl, rfl⟩, fun _ => ⟨rfl, rfl⟩, fun _ => ⟨rfl, rfl⟩,
      fun _ => ⟨rfl, rfl⟩, fun _ => ⟨rfl, rfl⟩, fun _ => ⟨rfl, rfl⟩, fun _ => ⟨rfl, rfl⟩,
      fun _ => ⟨rfl, rfl⟩, fun _ => ⟨rfl, rfl⟩⟩
  obtain ⟨d, ds, hwhole⟩ := List.exists_cons_of_ne_nil n.nonempty
  have hdecimal := n.whole_decimal
  rw [hwhole] at hdecimal
  obtain ⟨hd, hds⟩ := List.forall_mem_cons.mp hdecimal
  by_cases hzero : d = '0'
  · have hwhole : n.whole = ['0'] := n.leading (by rw [hwhole, hzero]; rfl)
    rw [wholeChars, hwhole]
    split <;> rfl
  · obtain ⟨hplain, hminus⟩ := hlead d (mem_digitChars hd) hzero
    rw [wholeChars, hwhole]
    split
    · change (((intPattern.after '-').after d).afterAll ds).acceptsNothing = true
      rw [hminus, afterAll_digits intWhole_after hds]
      rfl
    · change ((intPattern.after d).afterAll ds).acceptsNothing = true
      rw [hplain, afterAll_digits intWhole_after hds]
      rfl

/-- A fraction and an exponent with a sign belong to a number with a point. -/
lemma floatWhole_afterAll (hn : n.IsPortable) (hne : n.fraction ≠ []) :
    (floatWhole.afterAll
      (fractionChars n.fraction ++ exponentChars n.exponent?)).acceptsNothing = true := by
  have hfraction : floatWhole.afterAll (fractionChars n.fraction) = floatFraction := by
    rw [fractionChars, if_neg (by simpa using hne), afterAll_cons]
    exact afterAll_digits floatFraction_after n.fraction_decimal
  rw [afterAll_append, hfraction]
  cases hexponent : n.exponent? with
  | none => rfl
  | some e =>
    obtain ⟨negative, hsign⟩ := Option.isSome_iff_exists.mp (hn e hexponent).2
    have hsigned : (floatFraction.after e.letter).afterAll (signChars e.sign?) =
        floatLetter.after (if negative then '-' else '+') := by
      rw [hsign]
      obtain hletter | hletter := e.lettered <;> cases negative <;> rw [hletter] <;> rfl
    have hdigits : ∀ d ∈ digitChars, (floatLetter.after (if negative then '-' else '+')).after d =
        floatExponent := by
      cases negative
      · exact forall_digitChars.mpr ⟨rfl, rfl, rfl, rfl, rfl, rfl, rfl, rfl, rfl, rfl⟩
      · exact forall_digitChars.mpr ⟨rfl, rfl, rfl, rfl, rfl, rfl, rfl, rfl, rfl, rfl⟩
    change (floatFraction.afterAll e.chars).acceptsNothing = true
    rw [Exponent.chars, afterAll_cons, afterAll_append, hsigned,
      afterAll_digits_of_ne_nil hdigits floatExponent_after e.nonempty e.decimal]
    rfl

lemma mem_numberChars_of_isDigit {c : Char} (h : c.isDigit = true) : c ∈ numberChars :=
  List.mem_append_left _ (mem_digitChars h)

lemma mem_numberChars_of_mem_exponentChars :
    ∀ c ∈ exponentChars n.exponent?, c ∈ numberChars := by
  cases n.exponent? with
  | none => simp [exponentChars]
  | some e =>
    intro c hc
    simp only [exponentChars, Option.map_some, Option.getD_some, Exponent.chars, List.mem_cons,
      List.mem_append] at hc
    rcases hc with rfl | hc | hc
    · obtain hletter | hletter := e.lettered <;> rw [hletter] <;> decide
    · generalize e.sign? = sign? at hc
      rcases sign? with _ | _ | _ <;> simp_all [signChars, numberChars]
    · exact mem_numberChars_of_isDigit (e.decimal c hc)

/-- Numbers are written with fifteen characters. -/
lemma mem_numberChars_of_mem_chars : ∀ c ∈ n.chars, c ∈ numberChars := by
  intro c hc
  rw [numeralChars_eq, wholeChars, List.append_assoc] at hc
  simp only [List.mem_append] at hc
  rcases hc with hc | hc | hc | hc
  · have : c = '-' := by split at hc <;> simp_all
    rw [this]
    decide
  · exact mem_numberChars_of_isDigit (n.whole_decimal c hc)
  · rw [fractionChars] at hc
    split at hc
    · cases hc
    · rcases List.mem_cons.mp hc with rfl | hc
      · decide
      · exact mem_numberChars_of_isDigit (n.fraction_decimal c hc)
  · exact mem_numberChars_of_mem_exponentChars n c hc

/-- All characters of a number belong to a plain scalar. -/
lemma isSolid_of_mem_chars : ∀ c ∈ n.chars, isSolid c = true :=
  fun c hc => isSolid_of_mem_numberChars c (mem_numberChars_of_mem_chars n c hc)

lemma isSolid_of_isDigit {c : Char} (h : c.isDigit = true) : isSolid c = true := by
  have halnum : c.isAlphanum = true := Bool.or_eq_true_iff.mpr (.inr h)
  simp [isSolid, halnum]

/-- Solid characters are not shortened when their kind is asked for. -/
lemma patternChars_eq {cs : List Char} (hcs : ∀ c ∈ cs, isSolid c = true) :
    patternChars cs = cs := by
  rw [patternChars, if_neg]
  rintro ⟨hlast, -⟩
  have := hcs '\n' (List.mem_of_getLast? hlast)
  cases this

/-- A number without point and exponent is a whole number. -/
lemma implicitCharsTag_int (hfraction : n.fraction = []) (hexponent : n.exponent? = none) :
    implicitCharsTag n.chars = .int := by
  have hchars : n.chars = wholeChars n := by
    rw [numeralChars_eq, hfraction, hexponent]
    exact List.append_nil _
  have hbool : boolPattern.accepts (wholeChars n) = false :=
    congrArg acceptsNothing (boolPattern_wholeChars n)
  have hfloat : floatPattern.accepts (wholeChars n) = false :=
    congrArg acceptsNothing (floatPattern_wholeChars n)
  rw [implicitCharsTag, patternChars_eq (isSolid_of_mem_chars n), hchars]
  simp [implicitTags, hbool, hfloat, intPattern_accepts_wholeChars n]

/-- A number with a point, whose exponent has a sign, is a number with a point in YAML, too. -/
lemma implicitCharsTag_float (hn : n.IsPortable) (hne : n.fraction ≠ []) :
    implicitCharsTag n.chars = .float := by
  have hbool : boolPattern.accepts n.chars = false := by
    change (boolPattern.afterAll n.chars).acceptsNothing = false
    rw [numeralChars_eq, afterAll_append, boolPattern_wholeChars, afterAll_never]
    rfl
  have hfloat : floatPattern.accepts n.chars = true := by
    change (floatPattern.afterAll n.chars).acceptsNothing = true
    rw [numeralChars_eq, afterAll_append, floatPattern_wholeChars]
    exact floatWhole_afterAll n hn hne
  rw [implicitCharsTag, patternChars_eq (isSolid_of_mem_chars n)]
  simp [implicitTags, hbool, hfloat]

end Numerals

end StockFlow.Yaml
