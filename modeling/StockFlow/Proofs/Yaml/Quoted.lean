import StockFlow.Proofs.Json.Portable
import StockFlow.Proofs.Yaml.Cursors
import StockFlow.Yaml.Scalar
/-!
# Texts between double quotes

A portable JSON text is read in YAML as the same text. The YAML reader takes apart what stands between
the quotes into runs of characters, escapes and spaces. `Yields` says that a piece is read by itself,
in whichever of these ways, and the runs are put together from the last piece to the first one.
-/

namespace StockFlow.Yaml

open Json (Piece points closedText quotedText)

variable {fuel : Nat} {c c' c'' : Cursor} {rest : List Char} {text : Text}

/-! ## Characters and escapes -/

/-- Whether a character stands for itself between double quotes and is no blank. -/
def isOrdinary (ch : Char) : Bool := ch != '\'' && ch != '"' && ch != '\\' && !isBlankOrEnd ch

/-- What is read between double quotes behind a run of characters that stand for themselves. -/
def quotedBehind (fuel : Nat) (c : Cursor) : Except Failure (Text × Cursor) :=
  if c.current = '\'' then do
    let (text, c') ← quotedChars true fuel c.next
    return (.char c.current :: text, c')
  else if c.current = '\\' then do
    let (escaped, c) ← quotedEscape (fuel + 1) c.next
    let (text, c) ← quotedChars true fuel c
    return (escaped ++ text, c)
  else return ([], c)

/-- A run of characters comes first. -/
lemma quotedChars_eq (fuel : Nat) (c : Cursor) : quotedChars true (fuel + 1) c = do
    let (text, c') ← quotedBehind fuel (c.span isOrdinary).2
    return (.ofChars (c.span isOrdinary).1 ++ text, c') := by
  have hspan : (c.span fun ch => ch != '\'' && ch != '"' && ch != '\\' && !isBlankOrEnd ch) =
    c.span isOrdinary := rfl
  unfold quotedChars quotedBehind
  rw [hspan]
  generalize c.span isOrdinary = behind
  obtain ⟨run, c'⟩ := behind
  simp only [not_true_eq_false, false_and, true_and, or_false, if_false]
  split
  · cases quotedChars true fuel c'.next <;> rfl
  split
  · cases quotedEscape (fuel + 1) c'.next with
    | error failure => rfl
    | ok result =>
      cases h : quotedChars true fuel result.2 <;>
        simp [bind, Except.bind, pure, Except.pure, h]
  · simp [bind, Except.bind, pure, Except.pure]

/-- A character that stands for itself is read by itself. -/
lemma quotedChars_ordinary {ch : Char} (h : c.rest = ch :: rest) (hch : isOrdinary ch = true)
    (hread : quotedChars true fuel c.next = .ok (text, c')) (hfuel : fuel ≠ 0) :
    quotedChars true fuel c = .ok (.char ch :: text, c') := by
  obtain ⟨fuel, rfl⟩ := Nat.exists_eq_succ_of_ne_zero hfuel
  have hspan : c.span isOrdinary =
      (ch :: (c.next.span isOrdinary).1, (c.next.span isOrdinary).2) := by
    unfold Cursor.span
    rw [Cursor.rest_next, h, List.takeWhile_cons_of_pos hch]
    rfl
  rw [quotedChars_eq] at hread ⊢
  rw [hspan]
  cases hbehind : quotedBehind fuel (c.next.span isOrdinary).2 with
  | error failure => rw [hbehind] at hread; cases hread
  | ok result =>
    rw [hbehind] at hread
    cases hread
    rfl

/-- No run of characters that stand for themselves begins at another character. -/
lemma quotedChars_stop {ch : Char} (h : c.rest = ch :: rest) (hch : isOrdinary ch = false) :
    quotedChars true (fuel + 1) c = quotedBehind fuel c := by
  have hspan : c.span isOrdinary = ([], c) := by
    unfold Cursor.span
    rw [h, List.takeWhile_cons_of_neg (by simp [hch])]
    rfl
  rw [quotedChars_eq, hspan]
  cases quotedBehind fuel c <;> rfl

/-- A single quote stands for itself. -/
lemma quotedChars_single (h : c.rest = '\'' :: rest)
    (hread : quotedChars true fuel c.next = .ok (text, c')) :
    quotedChars true (fuel + 1) c = .ok (.char '\'' :: text, c') := by
  rw [quotedChars_stop h (by decide), quotedBehind, if_pos (Cursor.current_eq h), hread,
    Cursor.current_eq h]
  rfl

/-- Behind a backslash stands an escape. -/
lemma quotedChars_escape {point : CodePoint} (h : c.rest = '\\' :: rest)
    (hescape : quotedEscape (fuel + 1) c.next = .ok ([point], c''))
    (hread : quotedChars true fuel c'' = .ok (text, c')) :
    quotedChars true (fuel + 1) c = .ok (point :: text, c') := by
  have hcurrent := Cursor.current_eq h
  rw [quotedChars_stop h (by decide), quotedBehind, if_neg (by rw [hcurrent]; decide),
    if_pos hcurrent, hescape]
  change (quotedChars true fuel c'' >>= _) = _
  rw [hread]
  rfl

/-- A blank or the closing quote ends what is read. -/
lemma quotedChars_end {ch : Char} (h : c.rest = ch :: rest) (hch : ch = ' ' ∨ ch = '"') :
    quotedChars true (fuel + 1) c = .ok ([], c) := by
  have hcurrent := Cursor.current_eq h
  rw [quotedChars_stop h (by rcases hch with rfl | rfl <;> decide), quotedBehind, hcurrent]
  rcases hch with rfl | rfl <;> rfl


/-- A visible ASCII character, or a space, may stand on a line. -/
lemma isHeld_of_ascii {ch : Char} (hlow : 0x20 ≤ ch.toNat) (hhigh : ch.toNat ≤ 0x7E) :
    Json.isHeld ch = true := by
  have hbreak : isBreak ch = false := by
    simp only [isBreak, Bool.or_eq_false_iff, beq_eq_false_iff_ne]
    refine ⟨⟨⟨⟨?_, ?_⟩, ?_⟩, ?_⟩, ?_⟩ <;> rintro rfl <;> revert hlow hhigh <;> decide
  have hallowed : isAllowed ch = true := by simp [isAllowed, hlow, hhigh]
  simp [Json.isHeld, hbreak, hallowed]

/-- The value of a hexadecimal digit is less than sixteen, and the digit is visible. -/
lemma hexValue?_bounds {ch : Char} {n : Nat} (h : Json.hexValue? ch = some n) :
    n < 16 ∧ 0x30 ≤ ch.toNat ∧ ch.toNat ≤ 0x66 := by
  simp only [Json.hexValue?] at h
  split at h
  · cases h; omega
  split at h
  · cases h; omega
  split at h
  · cases h; omega
  · cases h

lemma exists_char_of_hexValue? {c : CodePoint} {n : Nat}
    (h : c.char?.bind Json.hexValue? = some n) :
    ∃ ch, c = .char ch ∧ Json.hexValue? ch = some n := by
  cases c with
  | char ch => exact ⟨ch, rfl, h⟩
  | surrogate offset => cases h

/-- Four hexadecimal digits are characters, and both formats give them the same number. -/
lemma exists_chars_quad (q : Json.Quad) : ∃ cs, q.text = .ofChars cs ∧ cs.length = 4 ∧
    (∀ ch ∈ cs, Json.isHeld ch = true) ∧ hexNumber? cs = some q.number ∧ q.number < 0x10000 := by
  have hhex := q.hex
  simp only [Json.hexQuad?, Option.bind_eq_bind, Option.bind_eq_some_iff] at hhex
  obtain ⟨w, ha, x, hb, y, hc, z, hd, hnumber⟩ := hhex
  obtain ⟨a, ha, hw⟩ := exists_char_of_hexValue? (Option.bind_eq_some_iff.mpr ha)
  obtain ⟨b, hb, hx⟩ := exists_char_of_hexValue? (Option.bind_eq_some_iff.mpr hb)
  obtain ⟨c, hc, hy⟩ := exists_char_of_hexValue? (Option.bind_eq_some_iff.mpr hc)
  obtain ⟨d, hd, hz⟩ := exists_char_of_hexValue? (Option.bind_eq_some_iff.mpr hd)
  have hnumber : ((w * 16 + x) * 16 + y) * 16 + z = q.number := Option.some.inj hnumber
  have hheld : ∀ {ch n}, Json.hexValue? ch = some n → Json.isHeld ch = true := fun h =>
    isHeld_of_ascii (by have := hexValue?_bounds h; omega) (by have := hexValue?_bounds h; omega)
  have := hexValue?_bounds hw
  have := hexValue?_bounds hx
  have := hexValue?_bounds hy
  have := hexValue?_bounds hz
  refine ⟨[a, b, c, d], ?_, rfl, ?_, ?_, by omega⟩
  · simp [Json.Quad.text, ha, hb, hc, hd, Text.ofChars]
  · simp [hheld hw, hheld hx, hheld hy, hheld hz]
  · simp only [hexNumber?, List.foldlM_cons, List.foldlM_nil, hw, hx, hy, hz]
    simp only [Option.map_some, Option.bind_eq_bind, Option.bind_some, ← hnumber]
    simp only [Nat.mul_comm 16, Nat.zero_mul, Nat.zero_add]
    rfl

/-! ## Single pieces -/

/-- What is read at a cursor, with any fuel beyond a bound. -/
def ReadsChars (bound : Nat) (c : Cursor) (text : Text) (c' : Cursor) : Prop :=
  ∀ fuel, bound ≤ fuel → quotedChars true (fuel + 1) c = .ok (text, c')

/-- Between two cursors stands a code point that is read by itself. -/
def Yields (c : Cursor) (point : CodePoint) (c'' : Cursor) : Prop :=
  ∀ bound text c', ReadsChars bound c'' text c' → ReadsChars (bound + 1) c (point :: text) c'

/-- An escape behind a backslash is read like any other piece. -/
lemma exists_yields_escape {point : CodePoint} (cs : List Char)
    (h : c.rest = '\\' :: (cs ++ rest)) (hbreak : ∀ ch ∈ cs, isBreak ch = false)
    (hescape : ∀ fuel d, d.rest = cs ++ rest →
      quotedEscape fuel d = .ok ([point], d.advance cs.length)) :
    ∃ c', c.Passes ('\\' :: cs) c' ∧ Yields c point c' := by
  have hpass := Cursor.passes_next h (by decide)
  have hnext := hpass.rest_eq h
  refine ⟨_, hpass.trans (Cursor.passes_advance hnext hbreak), ?_⟩
  intro bound text c' hread fuel hfuel
  obtain ⟨fuel, rfl⟩ : ∃ fuel', fuel = fuel' + 1 := ⟨fuel - 1, by omega⟩
  exact quotedChars_escape h (hescape _ _ hnext) (hread fuel (by omega))

/-- The letters that JSON has for escapes mean the same in YAML. -/
lemma quotedEscape?_of_shortEscape? {letter ch : Char}
    (h : Json.shortEscape? letter = some ch) :
    quotedEscape? letter = some ch ∧ Json.isHeld letter = true := by
  simp only [Json.shortEscape?] at h
  iterate 8
    split at h
    · next hletter => cases h; rw [hletter]; decide
  cases h

lemma escapedPoint_eq {code : Nat} (h : code < 0x10000) :
    escapedPoint code = .ok (.ofNumber code) := by
  rw [escapedPoint, if_neg (by omega), if_neg (by omega)]

/-- A character of a text on one line that is no quote and no space stands for itself. -/
lemma isOrdinary_of_isHeld {ch : Char} (hheld : Json.isHeld ch = true)
    (hplain : ch ≠ '"' ∧ ch ≠ '\\' ∧ 0x20 ≤ ch.toNat) (hquote : ch ≠ '\'') (hspace : ch ≠ ' ') :
    isOrdinary ch = true := by
  have hcontrol : ∀ {d : Char}, d.toNat < 0x20 → ch ≠ d := by
    rintro d hd rfl
    omega
  have htab := hcontrol (d := '\t') (by decide)
  have hnull := hcontrol (d := '\x00') (by decide)
  simp_all [isOrdinary, isBlankOrEnd, isSpaceOrEnd, isBreakOrEnd, Json.isHeld]

/-- A piece that is no space yields its code point. -/
lemma exists_yields {p : Piece} (hp : p.IsPortable) (hspace : p.text ≠ [.char ' '])
    (h : c.rest = p.text.chars ++ rest) :
    ∃ c', c.Passes p.text.chars c' ∧ Yields c p.point c' := by
  cases p with
  | raw point plain =>
    cases point with
    | surrogate offset => cases hp
    | char ch =>
      have hheld : Json.isHeld ch = true := hp
      have hpass := Cursor.passes_next h (by simp_all [Json.isHeld])
      refine ⟨c.next, hpass, fun bound text c' hread fuel hfuel => ?_⟩
      by_cases hquote : ch = '\''
      · obtain ⟨fuel, rfl⟩ : ∃ fuel', fuel = fuel' + 1 := ⟨fuel - 1, by omega⟩
        subst hquote
        exact quotedChars_single h (hread fuel (by omega))
      · refine quotedChars_ordinary h ?_ (hread fuel (by omega)) (by simp)
        refine isOrdinary_of_isHeld hheld ?_ hquote ?_
        · simpa [CodePoint.number] using plain
        · rintro rfl
          exact hspace rfl
  | short letter ch escapes =>
    obtain ⟨hletter, hheld⟩ := quotedEscape?_of_shortEscape? escapes
    have hbreak : ∀ ch ∈ [letter], isBreak ch = false := by simp_all [Json.isHeld]
    refine exists_yields_escape [letter] h hbreak fun fuel d hd => ?_
    rw [quotedEscape, Cursor.current_eq hd, hletter]
    rfl
  | code q =>
    obtain ⟨cs, hcs, hlength, hheld, hnumber, hlt⟩ := exists_chars_quad q
    have hchars : (Piece.code q).text.chars = '\\' :: 'u' :: cs := by simp [Piece.text, hcs]
    rw [hchars] at h ⊢
    have hbreak : ∀ ch ∈ 'u' :: cs, isBreak ch = false := by simp_all [Json.isHeld, isBreak]
    refine exists_yields_escape ('u' :: cs) h hbreak fun fuel d hd => ?_
    have htake : d.next.rest.take 4 = cs := by
      rw [Cursor.rest_next, hd]
      simp [← hlength]
    have hnone : quotedEscape? 'u' = none := rfl
    have hcount : escapeLength? 'u' = some 4 := rfl
    rw [quotedEscape, Cursor.current_eq hd]
    simp only [hnone, hcount, htake, hlength, hnumber]
    rw [escapedPoint_eq hlt, List.length_cons, hlength]
    rfl

/-! ## Runs of pieces -/

/-- The characters of pieces, without the quote behind them. -/
def piecesChars (pieces : List Piece) : List Char := Text.chars (pieces.flatMap Piece.text)

lemma piecesChars_cons (p : Piece) (pieces : List Piece) :
    piecesChars (p :: pieces) = p.text.chars ++ piecesChars pieces := by
  simp [piecesChars]

lemma piecesChars_append (ps qs : List Piece) :
    piecesChars (ps ++ qs) = piecesChars ps ++ piecesChars qs := by
  simp [piecesChars]

lemma chars_closedText (pieces : List Piece) :
    (closedText pieces).chars = piecesChars pieces ++ ['"'] := by
  simp [closedText, piecesChars]

/-- Every piece has a character. -/
lemma length_le_piecesChars {pieces : List Piece} (hp : ∀ p ∈ pieces, p.IsPortable) :
    pieces.length ≤ (piecesChars pieces).length := by
  induction pieces with
  | nil => exact Nat.le_refl 0
  | cons p pieces ih =>
    obtain ⟨hp, hpieces⟩ := List.forall_mem_cons.mp hp
    have hpos : 0 < p.text.chars.length := by
      cases p with
      | raw point plain =>
        cases point with
        | surrogate offset => cases hp
        | char ch => exact Nat.zero_lt_one
      | short letter ch escapes => exact Nat.zero_lt_succ _
      | code q => exact Nat.zero_lt_succ _
    have := ih hpieces
    rw [piecesChars_cons, List.length_append, List.length_cons]
    omega

/-- Whether a piece is a space. -/
def isSpacePiece (p : Piece) : Bool := p.text == [.char ' ']

/-- Pieces are read up to the first space. -/
lemma exists_readsChars {pieces : List Piece} (hp : ∀ p ∈ pieces, p.IsPortable)
    (h : c.rest = piecesChars pieces ++ '"' :: rest) :
    ∃ inner outer c', pieces = inner ++ outer ∧ (∀ p ∈ outer.head?, isSpacePiece p = true) ∧
      c.Passes (piecesChars inner) c' ∧ ReadsChars inner.length c (inner.map Piece.point) c' := by
  induction pieces generalizing c with
  | nil =>
    refine ⟨[], [], c, rfl, by simp, .refl c, fun fuel _ => ?_⟩
    exact quotedChars_end h (.inr rfl)
  | cons p pieces ih =>
    obtain ⟨hp, hpieces⟩ := List.forall_mem_cons.mp hp
    rw [piecesChars_cons, List.append_assoc] at h
    by_cases hspace : p.text = [.char ' ']
    · refine ⟨[], p :: pieces, c, rfl, ?_, .refl c, fun fuel _ => ?_⟩
      · simpa [isSpacePiece] using hspace
      · rw [hspace] at h
        exact quotedChars_end h (.inl rfl)
    · obtain ⟨c'', hpass, hyields⟩ := exists_yields hp hspace h
      obtain ⟨inner, outer, c', rfl, houter, hpass', hread⟩ := ih hpieces (hpass.rest_eq h)
      refine ⟨p :: inner, outer, c', rfl, houter, ?_, hyields _ _ _ hread⟩
      rw [piecesChars_cons]
      exact hpass.trans hpass'

/-- Spaces among pieces are written as spaces and stand for themselves. -/
lemma eq_replicate_of_isSpacePiece {spaces : List Piece}
    (h : ∀ p ∈ spaces, isSpacePiece p = true) :
    piecesChars spaces = List.replicate spaces.length ' ' ∧
      spaces.map Piece.point = Text.ofChars (List.replicate spaces.length ' ') := by
  induction spaces with
  | nil => exact ⟨rfl, rfl⟩
  | cons p spaces ih =>
    obtain ⟨hp, hspaces⟩ := List.forall_mem_cons.mp h
    obtain ⟨hchars, hpoints⟩ := ih hspaces
    have htext : p.text = [.char ' '] := by simpa [isSpacePiece] using hp
    have hpoint : p.point = .char ' ' := by
      cases p with
      | raw point plain => exact (List.cons.inj htext).1
      | short letter ch escapes => cases htext
      | code q => cases htext
    constructor
    · rw [piecesChars_cons, htext, hchars]
      rfl
    · rw [List.map_cons, hpoint, hpoints]
      rfl

/-- Pieces that do not begin with a space do not begin with a blank. -/
lemma halts_piecesChars {pieces : List Piece} (hp : ∀ p ∈ pieces, p.IsPortable)
    (hspace : ∀ p ∈ pieces.head?, isSpacePiece p = false) (rest : List Char) :
    Halts isBlankOrEnd (piecesChars pieces ++ '"' :: rest) := by
  cases pieces with
  | nil => exact Halts.cons (by decide) rest
  | cons p pieces =>
    rw [piecesChars_cons, List.append_assoc]
    have hspace : p.text ≠ [.char ' '] := by simpa [isSpacePiece] using hspace p rfl
    cases p with
    | raw point plain =>
      cases point with
      | surrogate offset => cases (List.forall_mem_cons.mp hp).1
      | char ch =>
        have hheld : Json.isHeld ch = true := (List.forall_mem_cons.mp hp).1
        refine Halts.cons ?_ _
        by_cases hquote : ch = '\''
        · subst hquote
          decide
        · have hordinary := isOrdinary_of_isHeld hheld (by simpa [CodePoint.number] using plain)
            hquote (by rintro rfl; exact hspace rfl)
          simp_all [isOrdinary]
    | short letter ch escapes => exact Halts.cons (by decide) _
    | code q => exact Halts.cons (by decide) _

/-- Spaces between double quotes stand for themselves. -/
lemma quotedSpaces_spaces (fuel : Nat) {n : Nat} (h : c.rest = List.replicate n ' ' ++ rest)
    (hrest : Halts isBlankOrEnd rest) (hne : rest ≠ []) :
    quotedSpaces fuel c = .ok (List.replicate n ' ', c.advance n) := by
  have hspan : c.span (fun ch => ch == ' ' || ch == '\t') =
      (List.replicate n ' ', c.advance n) := by
    have hblank : Halts (fun ch => ch == ' ' || ch == '\t') rest :=
      hrest.mono fun ch hch => by
        rcases (by simpa using hch : ch = ' ' ∨ ch = '\t') with rfl | rfl <;> decide
    have := Cursor.span_eq h (fun ch hch => by rw [List.eq_of_mem_replicate hch]; rfl) hblank
    rwa [List.length_replicate] at this
  have hpass := Cursor.passes_advance h fun ch hch => by rw [List.eq_of_mem_replicate hch]; rfl
  rw [List.length_replicate] at hpass
  obtain ⟨ch, rest', rfl⟩ := List.exists_cons_of_ne_nil hne
  have hcurrent := Cursor.current_eq (hpass.rest_eq h)
  have hch := hrest ch rest' rfl
  unfold quotedSpaces
  rw [hspan]
  dsimp only
  rw [hcurrent, if_neg, if_neg]
  · simp_all [isBlankOrEnd, isSpaceOrEnd, isBreakOrEnd]
  · rintro rfl
    cases hch

/-- Spaces at the beginning of pieces. -/
lemma exists_spacePieces (pieces : List Piece) : ∃ spaces outer, pieces = spaces ++ outer ∧
    (∀ p ∈ spaces, isSpacePiece p = true) ∧ ∀ p ∈ outer.head?, isSpacePiece p = false := by
  refine ⟨pieces.takeWhile isSpacePiece, pieces.dropWhile isSpacePiece, ?_, ?_, ?_⟩
  · exact List.takeWhile_append_dropWhile.symm
  · exact List.all_eq_true.mp List.all_takeWhile
  · intro p hp
    have := List.head?_dropWhile_not isSpacePiece pieces
    rw [Option.mem_def.mp hp] at this
    simpa using this

/-- The spaces in front of pieces are read, if there are some. -/
lemma exists_readsSpaces {p : Piece} {pieces : List Piece}
    (hp : ∀ q ∈ p :: pieces, q.IsPortable) (hspace : isSpacePiece p = true)
    (h : c.rest = piecesChars (p :: pieces) ++ '"' :: rest) :
    ∃ spaces outer c' chars, p :: pieces = spaces ++ outer ∧ 0 < spaces.length ∧
      c.current = ' ' ∧ c.Passes (piecesChars spaces) c' ∧
      (∀ fuel, quotedSpaces fuel c = .ok (chars, c')) ∧
      spaces.map Piece.point = Text.ofChars chars := by
  obtain ⟨spaces, outer, heq, hspaces, houter⟩ := exists_spacePieces (p :: pieces)
  obtain ⟨hchars, hpoints⟩ := eq_replicate_of_isSpacePiece hspaces
  have hpos : 0 < spaces.length := by
    rw [List.length_pos_iff]
    rintro rfl
    have hnot := houter p (by rw [show outer = p :: pieces from heq.symm]; rfl)
    rw [hspace] at hnot
    cases hnot
  rw [heq] at h hp
  rw [piecesChars_append, List.append_assoc, hchars] at h
  have hpass : c.Passes (List.replicate spaces.length ' ') (c.advance spaces.length) := by
    have := Cursor.passes_advance h fun ch hch => by rw [List.eq_of_mem_replicate hch]; rfl
    rwa [List.length_replicate] at this
  have hcurrent : c.current = ' ' := by
    obtain ⟨n, hn⟩ : ∃ n, spaces.length = n + 1 := ⟨spaces.length - 1, by omega⟩
    rw [hn] at h
    exact Cursor.current_eq h
  have hhalts := halts_piecesChars (fun q hq => hp q (List.mem_append_right spaces hq)) houter rest
  exact ⟨spaces, outer, _, _, heq, hpos, hcurrent, hchars ▸ hpass,
    fun fuel => quotedSpaces_spaces fuel h hhalts (by simp), hpoints⟩

/-- A text between double quotes is read up to its closing quote, and every piece of it by
itself. -/
lemma exists_quotedParts {pieces : List Piece} (hp : ∀ p ∈ pieces, p.IsPortable)
    (h : c.rest = piecesChars pieces ++ '"' :: rest) (hfuel : pieces.length ≤ fuel) :
    ∃ c', c.Passes (piecesChars pieces ++ ['"']) c' ∧
      quotedParts '"' (fuel + 1) c = .ok (pieces.map Piece.point, c') := by
  induction fuel using Nat.strongRecOn generalizing pieces c with
  | _ fuel ih =>
  obtain ⟨inner, outer, c₁, rfl, hhead, hpass, hread⟩ := exists_readsChars hp h
  have hlength : inner.length ≤ fuel := by simp at hfuel; omega
  have hread : quotedChars true (fuel + 1) c = .ok (inner.map Piece.point, c₁) :=
    hread fuel hlength
  have hbehind : c₁.rest = piecesChars outer ++ '"' :: rest := by
    rw [piecesChars_append, List.append_assoc] at h
    exact hpass.rest_eq h
  have hquote : ('"' == '"') = true := rfl
  rw [quotedParts, hquote, hread]
  cases outer with
  | nil =>
    have hcurrent := Cursor.current_eq hbehind
    refine ⟨c₁.next, ?_, ?_⟩
    · rw [List.append_nil]
      exact hpass.trans (Cursor.passes_next hbehind (by decide))
    · simp [bind, Except.bind, hcurrent, pure, Except.pure]
  | cons p outer =>
    have houter : ∀ q ∈ p :: outer, q.IsPortable :=
      fun q hq => hp q (List.mem_append_right inner hq)
    obtain ⟨spaces, behind, c₂, chars, heq, hpos, hcurrent, hpass₂, hspaces, hpoints⟩ :=
      exists_readsSpaces houter (hhead p rfl) hbehind
    rw [heq] at houter hbehind hfuel ⊢
    rw [piecesChars_append, List.append_assoc] at hbehind
    -- at least one space has been read, so the fuel is enough for the pieces behind them
    simp only [List.length_append] at hfuel
    obtain ⟨fuel, rfl⟩ : ∃ fuel', fuel = fuel' + 1 := ⟨fuel - 1, by omega⟩
    obtain ⟨c₃, hpass₃, hparts⟩ := ih fuel (by omega)
      (fun q hq => houter q (List.mem_append_right spaces hq)) (hpass₂.rest_eq hbehind) (by omega)
    refine ⟨c₃, ?_, ?_⟩
    · rw [piecesChars_append, piecesChars_append, List.append_assoc, List.append_assoc]
      exact hpass.trans (hpass₂.trans hpass₃)
    · simp [bind, Except.bind, hcurrent, pure, Except.pure, hspaces, hparts, hpoints]

/-- Pieces of which no two belong together stand for what each stands for. -/
lemma points_eq_map {pieces : List Piece} (h : pieces.IsChain fun p q => p.isPair q = false) :
    points pieces = pieces.map Piece.point := by
  induction h with
  | nil => rfl
  | singleton p => rfl
  | cons_cons hpq _ ih => rw [points, if_neg (by simp [hpq]), ih]; rfl

/-- A portable text between double quotes is the same text in YAML. -/
lemma exists_quotedScalar {pieces : List Piece} (hp : Json.ArePortable pieces)
    (h : c.rest = (quotedText pieces).chars ++ rest) :
    ∃ c', c.Passes (quotedText pieces).chars c' ∧ quotedScalar c = .ok (points pieces, c') := by
  have hchars : (quotedText pieces).chars = '"' :: (piecesChars pieces ++ ['"']) := by
    rw [quotedText, Text.chars_cons, chars_closedText]
  rw [hchars] at h ⊢
  have hpass := Cursor.passes_next h (by decide)
  have hnext : c.next.rest = piecesChars pieces ++ '"' :: rest := by
    rw [hpass.rest_eq h]
    simp
  have hlength : pieces.length ≤ c.rest.length := by
    have := length_le_piecesChars hp.each
    rw [h]
    simp only [List.length_append, List.length_cons]
    omega
  obtain ⟨c', hpass', hparts⟩ := exists_quotedParts hp.each hnext hlength
  refine ⟨c', hpass.trans hpass', ?_⟩
  rw [quotedScalar, Cursor.current_eq h, hparts, points_eq_map hp.apart]

end StockFlow.Yaml
