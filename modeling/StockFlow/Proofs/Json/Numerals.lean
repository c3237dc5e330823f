import StockFlow.Proofs.Json.Pieces
/-!
# Reading numbers

The reader of numbers reads a number that no character continues (`readNumber_text_append`), and
whatever it reads is a number (`exists_numeral_of_readNumber`). Both are put together of the same
facts about the digits in front of the point, the fraction and the exponent.
-/

namespace StockFlow.Json

variable {rest : Text}

/-- Whether a character continues a number. -/
def continuesNumber (c : Char) : Bool := c.isDigit || c == '.' || c == 'e' || c == 'E'

@[simp]
lemma ofChars_nil : Text.ofChars [] = [] := rfl

@[simp]
lemma ofChars_cons (c : Char) (cs : List Char) :
    Text.ofChars (c :: cs) = .char c :: Text.ofChars cs := rfl

@[simp]
lemma ofChars_append (cs ds : List Char) :
    Text.ofChars (cs ++ ds) = Text.ofChars cs ++ Text.ofChars ds := List.map_append

lemma takeDigits_append {ds : List Char} (hds : ∀ c ∈ ds, c.isDigit = true)
    (h : Stops Char.isDigit rest) : takeDigits (Text.ofChars ds ++ rest) = (ds, rest) := by
  induction ds with
  | nil =>
    rw [ofChars_nil, List.nil_append]
    unfold takeDigits
    split
    · next c cs =>
      rw [if_neg (by simpa [CodePoint.isCharWith] using h _ _ rfl)]
    · rfl
  | cons d ds ih =>
    obtain ⟨hd, hds⟩ := List.forall_mem_cons.mp hds
    rw [ofChars_cons, List.cons_append, takeDigits, if_pos hd, ih hds]

/-- The digits at the beginning of a text, and what stands behind them. -/
lemma takeDigits_eq (cs : Text) :
    cs = Text.ofChars (takeDigits cs).1 ++ (takeDigits cs).2 ∧
      ∀ c ∈ (takeDigits cs).1, c.isDigit = true := by
  fun_induction takeDigits cs with
  | case1 c rest hc digits rest' heq ih =>
    rw [heq] at ih
    exact ⟨by rw [ofChars_cons, List.cons_append, ← ih.1], List.forall_mem_cons.mpr ⟨hc, ih.2⟩⟩
  | case2 => simp
  | case3 => simp

/-- A digit is no sign. -/
lemma takeSign_of_isDigit {d : Char} (h : d.isDigit = true) (cs : Text) :
    takeSign (.char d :: cs) = (false, .char d :: cs) := by
  unfold takeSign
  split
  · next heq =>
    cases heq
    exact absurd h (by decide)
  · next heq =>
    cases heq
    exact absurd h (by decide)
  · rfl

/-- The sign at the beginning of a text. -/
lemma exists_takeSign (cs : Text) : ∃ sign? : Option Bool,
    cs = Text.ofChars (signChars sign?) ++ (takeSign cs).2 ∧
      (takeSign cs).1 = decide (sign? = some true) := by
  unfold takeSign
  split
  · exact ⟨some true, rfl, rfl⟩
  · exact ⟨some false, rfl, rfl⟩
  · exact ⟨none, rfl, rfl⟩

namespace Exponent

variable (e : Exponent)

lemma takeSign_append (rest : Text) :
    takeSign (Text.ofChars (signChars e.sign? ++ e.digits) ++ rest) =
      (decide (e.sign? = some true), Text.ofChars e.digits ++ rest) := by
  rcases e.sign? with - | negative
  · obtain ⟨d, ds, hds⟩ := List.exists_cons_of_ne_nil e.nonempty
    rw [hds]
    exact takeSign_of_isDigit (e.decimal d (by simp [hds])) _
  · cases negative <;> rfl

/-- The reader of exponents reads an exponent that no character continues. -/
lemma takeExponent_append (h : Stops continuesNumber rest) :
    takeExponent (Text.ofChars e.chars ++ rest) = (some e.value, rest) := by
  have hdigit : Stops Char.isDigit rest := h.mono fun c hc => by simp [continuesNumber, hc]
  unfold chars
  rw [ofChars_cons, List.cons_append, takeExponent,
    if_pos (by simpa using e.lettered), takeSign_append e rest]
  dsimp only
  rw [takeDigits_append e.decimal hdigit]
  dsimp only
  rw [if_neg (by simpa using e.nonempty)]
  unfold value
  simp

end Exponent

/-- Either no exponent stands at the beginning of a text, or the reader of exponents finds it. -/
lemma exists_exponent_of_takeExponent {cs : Text} {value? : Option Int}
    (h : takeExponent cs = (value?, rest)) :
    ∃ exponent? : Option Exponent, cs = Text.ofChars (exponentChars exponent?) ++ rest ∧
      value? = exponent?.map Exponent.value := by
  unfold takeExponent at h
  split at h
  · next c cs =>
    split at h
    · next hletter =>
      obtain ⟨sign?, hcs, hsign⟩ := exists_takeSign cs
      obtain ⟨hdigits, hdecimal⟩ := takeDigits_eq (takeSign cs).2
      dsimp only at h
      split at h
      · cases h
        exact ⟨none, rfl, rfl⟩
      · next hne =>
        cases h
        obtain ⟨letter, rfl, hlettered⟩ :
            ∃ letter : Char, c = .char letter ∧ (letter = 'e' ∨ letter = 'E') := by
          rcases hletter with rfl | rfl
          · exact ⟨'e', rfl, Or.inl rfl⟩
          · exact ⟨'E', rfl, Or.inr rfl⟩
        let e : Exponent := ⟨letter, sign?, (takeDigits (takeSign cs).2).1, hlettered,
          by simpa using hne, hdecimal⟩
        refine ⟨some e, ?_, ?_⟩
        · simp only [exponentChars, Option.map_some, Option.getD_some, Exponent.chars, e,
            ofChars_cons, ofChars_append, List.cons_append, List.append_assoc, ← hdigits, ← hcs]
        · simp [e, Exponent.value, hsign]
    · cases h
      exact ⟨none, rfl, rfl⟩
  · cases h
    exact ⟨none, rfl, rfl⟩

lemma takeFraction_append {ds : List Char} (hds : ∀ c ∈ ds, c.isDigit = true)
    (h : Stops Char.isDigit rest) (hpoint : Stops (· == '.') rest) :
    takeFraction (Text.ofChars (fractionChars ds) ++ rest) = (ds, rest) := by
  unfold fractionChars
  split
  · next hempty =>
    obtain rfl := List.isEmpty_iff.mp hempty
    rw [ofChars_nil, List.nil_append]
    unfold takeFraction
    split
    · exact absurd (hpoint _ _ rfl) (by decide)
    · rfl
  · next hempty =>
    rw [ofChars_cons, List.cons_append, takeFraction, takeDigits_append hds h]
    dsimp only
    rw [if_neg (by simpa using hempty)]

lemma takeFraction_eq (cs : Text) :
    cs = Text.ofChars (fractionChars (takeFraction cs).1) ++ (takeFraction cs).2 ∧
      ∀ c ∈ (takeFraction cs).1, c.isDigit = true := by
  unfold takeFraction
  split
  · next cs =>
    obtain ⟨hcs, hdecimal⟩ := takeDigits_eq cs
    dsimp only
    split
    · exact ⟨rfl, by simp⟩
    · next hempty =>
      refine ⟨?_, hdecimal⟩
      simp only [fractionChars, if_neg hempty, ofChars_cons, List.cons_append, ← hcs]
  · exact ⟨rfl, by simp⟩

/-- The reader of the digits in front of the point reads digits without needless zeros. -/
lemma takeWhole_append {ds : List Char} (hne : ds ≠ []) (hds : ∀ c ∈ ds, c.isDigit = true)
    (hleading : ds.head? = some '0' → ds = ['0']) (h : Stops Char.isDigit rest) :
    takeWhole (Text.ofChars ds ++ rest) = (ds, rest) := by
  obtain ⟨d, ds, rfl⟩ := List.exists_cons_of_ne_nil hne
  by_cases hd : d = '0'
  · rw [hleading (by rw [hd]; rfl)]
    rfl
  · unfold takeWhole
    split
    · next heq => exact absurd (CodePoint.char.inj (List.cons.inj heq).1) hd
    · exact takeDigits_append hds h

lemma takeWhole_eq (cs : Text) :
    cs = Text.ofChars (takeWhole cs).1 ++ (takeWhole cs).2 ∧
      (∀ c ∈ (takeWhole cs).1, c.isDigit = true) ∧
      ((takeWhole cs).1.head? = some '0' → (takeWhole cs).1 = ['0']) := by
  unfold takeWhole
  split
  · exact ⟨rfl, by simp, fun _ => rfl⟩
  · next hzero =>
    obtain ⟨hcs, hdecimal⟩ := takeDigits_eq cs
    refine ⟨hcs, hdecimal, fun hhead => ?_⟩
    obtain ⟨ds, hds⟩ := List.head?_eq_some_iff.mp hhead
    rw [hds] at hcs
    exact (hzero _ hcs).elim

lemma takeExponent_exponentChars_append (exponent? : Option Exponent)
    (h : Stops continuesNumber rest) :
    takeExponent (Text.ofChars (exponentChars exponent?) ++ rest) =
      (exponent?.map Exponent.value, rest) := by
  cases exponent? with
  | some e => exact e.takeExponent_append h
  | none =>
    change takeExponent rest = (none, rest)
    unfold takeExponent
    split
    · next c cs =>
      rw [if_neg]
      rintro (rfl | rfl)
      · exact absurd (h _ _ rfl) (by decide)
      · exact absurd (h _ _ rfl) (by decide)
    · rfl

/-- Neither a point nor an exponent begins with a digit, and an exponent not with a point. -/
lemma Stops.exponentChars (exponent? : Option Exponent) (h : Stops continuesNumber rest) :
    Stops (fun c => c.isDigit || c == '.') (Text.ofChars (exponentChars exponent?) ++ rest) := by
  cases exponent? with
  | none => exact h.mono fun c hc => by simp_all [continuesNumber]
  | some e =>
    refine Stops.cons ?_ _
    rcases e.lettered with hletter | hletter <;> rw [hletter] <;> decide

lemma Stops.fractionChars (fraction : List Char) (h : Stops (fun c => c.isDigit || c == '.') rest) :
    Stops Char.isDigit (Text.ofChars (fractionChars fraction) ++ rest) := by
  unfold Json.fractionChars
  split
  · exact h.mono fun c hc => by simp [hc]
  · exact Stops.cons (by decide) _

/-- The number at the beginning of a text behind its sign, and what is wrong if there is none. -/
def readUnsigned (fault : Fault) (negative : Bool) (body : Text) : Parsed Datum :=
  let (whole, afterWhole) := takeWhole body
  if whole.isEmpty then .error fault
  else
    let (fraction, afterFraction) := takeFraction afterWhole
    let (exponent?, rest) := takeExponent afterFraction
    if fraction.isEmpty ∧ exponent?.isNone then
      if maxDigits < whole.length then .error .tooManyDigits
      else
        let value : Int := digitsValue whole
        .ok (.int (if negative then -value else value), rest)
    else
      let exponent := exponent?.getD 0 - fraction.length
      .ok (.float (Binary64.ofDecimal negative (digitsValue (whole ++ fraction)) exponent), rest)

lemma readNumber_minus (body : Text) : readNumber (.char '-' :: body) =
    readUnsigned (.problem .value (.char '-' :: body)) true body := rfl

lemma readNumber_of_unsigned {cs : Text} (h : ∀ body, cs ≠ .char '-' :: body) :
    readNumber cs = readUnsigned (.problem .value cs) false cs :=
  readNumber.eq_2 cs h

namespace Numeral

variable (n : Numeral)

/-- How a number is written behind its sign. -/
def unsignedText : Text :=
  Text.ofChars (n.whole ++ (Json.fractionChars n.fraction ++ Json.exponentChars n.exponent?))

lemma text_eq : n.text = if n.negative then .char '-' :: n.unsignedText else n.unsignedText := by
  unfold text chars unsignedText
  split <;> rfl

/-- Behind its sign a number begins with a digit. -/
lemma exists_unsignedText_eq_cons :
    ∃ d cs, d.isDigit = true ∧ n.unsignedText = .char d :: cs := by
  obtain ⟨d, ds, hds⟩ := List.exists_cons_of_ne_nil n.nonempty
  refine ⟨d, Text.ofChars (ds ++ (fractionChars n.fraction ++ exponentChars n.exponent?)),
    n.whole_decimal d (by simp [hds]), ?_⟩
  rw [unsignedText, hds]
  rfl

lemma readUnsigned_append (fault : Fault) (h : Stops continuesNumber rest) :
    readUnsigned fault n.negative (n.unsignedText ++ rest) = .ok (n.value, rest) := by
  have hexponent := h.exponentChars n.exponent?
  have hpoint := takeFraction_append n.fraction_decimal (hexponent.mono fun c hc => by simp [hc])
    (hexponent.mono fun c hc => by simp_all)
  have hwhole := takeWhole_append n.nonempty n.whole_decimal n.leading
    (hexponent.fractionChars n.fraction)
  have hunsigned : n.unsignedText ++ rest = Text.ofChars n.whole ++
      (Text.ofChars (fractionChars n.fraction) ++
        (Text.ofChars (exponentChars n.exponent?) ++ rest)) := by
    simp [unsignedText]
  unfold readUnsigned
  rw [hunsigned, hwhole]
  dsimp only
  rw [if_neg (by simpa using n.nonempty), hpoint]
  dsimp only
  rw [takeExponent_exponentChars_append n.exponent? h]
  dsimp only
  unfold value
  rw [Option.isNone_map]
  split
  · next hint =>
    have hshort := n.short (by simpa using hint.1) (by simpa using hint.2)
    rw [if_neg (by omega)]
  · rfl

end Numeral

/-- The reader of numbers reads a number that no character continues. -/
lemma readNumber_text_append (n : Numeral) (h : Stops continuesNumber rest) :
    readNumber (n.text ++ rest) = .ok (n.value, rest) := by
  rw [n.text_eq]
  split
  · next hnegative =>
    rw [List.cons_append, readNumber_minus, ← hnegative, n.readUnsigned_append _ h]
  · next hnegative =>
    rw [Bool.not_eq_true] at hnegative
    have hsign : ∀ body, n.unsignedText ++ rest ≠ .char '-' :: body := by
      obtain ⟨d, cs, hd, hcs⟩ := n.exists_unsignedText_eq_cons
      intro body heq
      rw [hcs] at heq
      obtain rfl := CodePoint.char.inj (List.cons.inj heq).1
      exact absurd hd (by decide)
    rw [readNumber_of_unsigned hsign, ← hnegative,
      n.readUnsigned_append _ h]

/-- Whatever is read behind a sign is a number behind its sign. -/
lemma exists_numeral_of_readUnsigned {fault : Fault} {negative : Bool} {body : Text} {d : Datum}
    (h : readUnsigned fault negative body = .ok (d, rest)) :
    ∃ n : Numeral, n.negative = negative ∧ body = n.unsignedText ++ rest ∧ n.value = d := by
  obtain ⟨hbody, hdecimal, hleading⟩ := takeWhole_eq body
  obtain ⟨hafterWhole, hfraction⟩ := takeFraction_eq (takeWhole body).2
  obtain ⟨exponent?, hafterFraction, hexponent⟩ := exists_exponent_of_takeExponent
    (Prod.eta (takeExponent (takeFraction (takeWhole body).2).2)).symm
  unfold readUnsigned at h
  dsimp only at h
  rw [hexponent, Option.isNone_map] at h
  split at h
  · cases h
  · next hne =>
    have hshort : (takeFraction (takeWhole body).2).1 = [] → exponent? = none →
        (takeWhole body).1.length ≤ maxDigits := by
      intro hempty hnone
      rw [if_pos (by simp [hempty, hnone])] at h
      split at h
      · cases h
      · omega
    let n : Numeral := ⟨negative, _, _, exponent?, by simpa using hne, hdecimal, hleading, hfraction,
      hshort⟩
    have hvalue : .ok (n.value, (takeExponent (takeFraction (takeWhole body).2).2).2) =
        (Except.ok (d, rest) : Parsed Datum) := by
      rw [← h]
      unfold Numeral.value
      split
      · next hint =>
        have := hshort (by simpa [n] using hint.1) (by simpa [n] using hint.2)
        rw [if_neg (by omega)]
      · rfl
    simp only [Except.ok.injEq, Prod.mk.injEq] at hvalue
    refine ⟨n, rfl, ?_, hvalue.1⟩
    simp only [Numeral.unsignedText, ofChars_append, List.append_assoc, n, ← hvalue.2]
    rw [← hafterFraction, ← hafterWhole, ← hbody]

/-- Whatever the reader of numbers reads is a number. -/
lemma exists_numeral_of_readNumber {cs : Text} {d : Datum} (h : readNumber cs = .ok (d, rest)) :
    ∃ n : Numeral, cs = n.text ++ rest ∧ n.value = d := by
  by_cases hsign : ∃ body, cs = .char '-' :: body
  · obtain ⟨body, rfl⟩ := hsign
    rw [readNumber_minus] at h
    obtain ⟨n, hnegative, rfl, hvalue⟩ := exists_numeral_of_readUnsigned h
    exact ⟨n, by rw [n.text_eq, if_pos hnegative, List.cons_append], hvalue⟩
  · push Not at hsign
    rw [readNumber_of_unsigned hsign] at h
    obtain ⟨n, hnegative, rfl, hvalue⟩ := exists_numeral_of_readUnsigned h
    exact ⟨n, by rw [n.text_eq, if_neg (by simp [hnegative])], hvalue⟩

end StockFlow.Json
