import StockFlow.Proofs.Yaml.Failures
import StockFlow.Proofs.Yaml.Numerals
import StockFlow.Proofs.Yaml.Quoted
/-!
# Tokens inside brackets

A bracket, a comma, a text between quotes, a number and a name are each cut off as one token, and so
is a colon behind a key (`Lexer.Emits`). Inside brackets and before the first token no column matters
and no place of a key has to be filled (`Lexer.IsFlow`), which every token keeps. A key is known only
at its colon: the mark for it is put in front of the token that has been there since.
-/

namespace StockFlow.Yaml

namespace Lexer

variable {l l' l'' : Lexer} {pad rest tail cs : List Char} {fuel : Nat}

/-! ## Between tokens -/

/-- What stays when the cursor moves to the next token. -/
structure Keeps (l l' : Lexer) : Prop where
  tokens : l'.tokens = l.tokens
  level : l'.level = l.level
  indent : l'.indent = l.indent
  outer : l'.outer = l.outer
  places : l'.places = l.places
  keyAllowed : l.keyAllowed = true → l'.keyAllowed = true

/-- Whether a character begins no token. -/
def beginsNoToken (ch : Char) : Bool := isBlankOrEnd ch || ch == '#'

/-- Spaces in front of a token are passed. -/
lemma skipToToken_spaces {n : Nat} (h : l.cursor.rest = List.replicate n ' ' ++ rest)
    (hrest : Halts beginsNoToken rest) (fuel : Nat) :
    skipToToken (fuel + 1) l = { l with cursor := l.cursor.skipSpaces } ∧
      l.cursor.Passes (List.replicate n ' ') l.cursor.skipSpaces ∧
      l.cursor.skipSpaces.rest = rest := by
  obtain ⟨hpass, hskip⟩ := Cursor.passes_skipSpaces h <| hrest.mono fun ch hch => by
    simp_all [beginsNoToken, isBlankOrEnd, isSpaceOrEnd]
  have hnone : (l.cursor.skipSpaces.current == '#') = false :=
    Cursor.current_of_halts hskip (p := (· == '#'))
      (hrest.mono fun ch hch => by simp_all [beginsNoToken]) (by decide)
  have hline : isBreak l.cursor.skipSpaces.current = false :=
    Cursor.current_of_halts hskip (hrest.mono fun ch hch => by
      simp_all [beginsNoToken, isBlankOrEnd, isSpaceOrEnd, isBreakOrEnd]) (by decide)
  refine ⟨?_, hpass, hskip⟩
  unfold skipToToken
  rw [Cursor.skipComment_eq (by simpa using hnone)]
  dsimp only
  rw [if_neg (by simp [hline])]

/-- A line that has only spaces before its end is passed. -/
lemma skipToToken_break {n : Nat} {ch : Char} (h : l.cursor.rest = List.replicate n ' ' ++ ch :: rest)
    (hch : isBreak ch = true) (fuel : Nat) :
    skipToToken (fuel + 1) l =
        skipToToken fuel
          { l with
            cursor := l.cursor.skipSpaces.lineBreak.2
            keyAllowed := l.keyAllowed || l.level == 0 } ∧
      l.cursor.skipSpaces.rest = ch :: rest := by
  have hne : ∀ {d : Char}, isBreak d = false → ch ≠ d := by
    rintro d hd rfl
    rw [hd] at hch
    cases hch
  obtain ⟨-, hskip⟩ := Cursor.passes_skipSpaces h
    (Halts.cons (by simpa using hne (d := ' ') (by decide)) _)
  have hcurrent := Cursor.current_eq hskip
  refine ⟨?_, hskip⟩
  rw [skipToToken, Cursor.skipComment_eq (by rw [hcurrent]; exact hne (by decide)),
    if_pos (by rw [hcurrent]; exact hch)]

/-- White space in front of a token is passed, on the same line if it is made of spaces. -/
lemma skipToToken_pad (h : l.cursor.rest = pad ++ rest) (hpad : ∀ ch ∈ pad, isPad ch = true)
    (hrest : Halts beginsNoToken rest) (hfuel : pad.length < fuel) :
    l.Keeps (skipToToken fuel l) ∧ (skipToToken fuel l).cursor.rest = rest ∧
      ((∀ ch ∈ pad, ch = ' ') → l.cursor.Passes pad (skipToToken fuel l).cursor) := by
  induction fuel generalizing l pad with
  | zero => omega
  | succ fuel ih =>
    obtain ⟨n, pad', rfl, hpad', hbreak⟩ := exists_spaces hpad
    rw [List.append_assoc] at h
    cases pad' with
    | nil =>
      obtain ⟨heq, hpass, hskip⟩ := skipToToken_spaces h hrest fuel
      rw [heq, List.append_nil]
      exact ⟨⟨rfl, rfl, rfl, rfl, rfl, id⟩, hskip, fun _ => hpass⟩
    | cons ch pad' =>
      have hch := hbreak ch pad' rfl
      obtain ⟨heq, hskip⟩ := skipToToken_break h hch fuel
      obtain ⟨pad'', hrest', hlength, hpad''⟩ := Cursor.exists_rest_lineBreak hskip hch
        (List.forall_mem_cons.mp hpad').2 <| hrest.mono fun ch hch => by
          simp only [isPad, Bool.or_eq_true, beq_iff_eq] at hch
          rcases hch with (rfl | rfl) | rfl <;> rfl
      simp only [List.length_append, List.length_replicate, List.length_cons] at hfuel
      obtain ⟨hkeeps, hrest', -⟩ := ih
        (l := { l with
          cursor := l.cursor.skipSpaces.lineBreak.2
          keyAllowed := l.keyAllowed || l.level == 0 }) hrest' hpad'' (by omega)
      rw [heq]
      refine ⟨⟨hkeeps.tokens, hkeeps.level, hkeeps.indent, hkeeps.outer, hkeeps.places,
        fun hallowed => hkeeps.keyAllowed (by simp [hallowed])⟩, hrest', fun hspaces => ?_⟩
      obtain rfl := hspaces ch (by simp)
      cases hch

/-! ## Outside of blocks -/

/-- Outside of blocks, where no key has to begin. -/
structure IsFlow (l : Lexer) : Prop where
  indent : l.indent = -1
  outer : l.outer = []
  optional : ∀ q ∈ l.places, q.2.required = false

lemma unwind_eq (h : l.IsFlow) (column : Int) : l.unwind column = l := by
  rw [unwind, h.outer]
  split <;> rfl

lemma IsFlow.not_any (h : l.IsFlow) (p : Nat × KeyPlace → Bool) :
    (l.places.any fun q => p q && q.2.required) = false := by
  rw [List.any_eq_false]
  intro q hq
  simp [h.optional q hq]

/-- The lexer with the places of keys of a kind. -/
def withPlaces (l : Lexer) (p : Nat × KeyPlace → Bool) : Lexer :=
  { l with places := l.places.filter p }

lemma IsFlow.withPlaces (h : l.IsFlow) (p : Nat × KeyPlace → Bool) : (l.withPlaces p).IsFlow :=
  ⟨h.indent, h.outer, fun q hq => h.optional q (List.mem_of_mem_filter hq)⟩

lemma dropStale_eq (h : l.IsFlow) : l.dropStale = .ok (l.withPlaces fun q => !l.isStale q.2) := by
  rw [dropStale, if_neg (ne_true_of_eq_false (h.not_any fun q => l.isStale q.2))]
  rfl

lemma dropPlace_eq (h : l.IsFlow) : l.dropPlace = .ok (l.withPlaces fun q => q.1 != l.level) := by
  rw [dropPlace, if_neg (ne_true_of_eq_false (h.not_any fun q => q.1 == l.level))]
  rfl

/-- The place of a key at the cursor. -/
def placeHere (l : Lexer) : KeyPlace where
  token := l.tokens.size
  required := false
  index := l.cursor.index
  line := l.cursor.line
  column := l.cursor.column

/-- The lexer with the cursor as a place where a key may begin, if one may. -/
def keeping (l : Lexer) : Lexer :=
  if l.keyAllowed then
    { l.withPlaces (fun q => q.1 != l.level) with
      places := (l.level, l.placeHere) :: (l.withPlaces fun q => q.1 != l.level).places }
  else l

lemma keepPlace_eq (h : l.IsFlow) : l.keepPlace = .ok l.keeping := by
  have hrequired : (l.level == 0 && l.indent == (l.cursor.column : Int)) = false := by
    have : l.indent ≠ (l.cursor.column : Int) := by
      have := h.indent
      omega
    simp [this]
  unfold keepPlace keeping
  split
  · rw [dropPlace_eq h]
    simp only [bind, Except.bind, withPlaces, hrequired]
    rfl
  · rfl

lemma IsFlow.keeping (h : l.IsFlow) : l.keeping.IsFlow := by
  unfold Lexer.keeping
  split
  · refine ⟨h.indent, h.outer, fun q hq => ?_⟩
    rcases List.mem_cons.mp hq with rfl | hq
    · rfl
    · exact (h.withPlaces _).optional q hq
  · exact h

/-- Everything but the places of keys stays. -/
lemma keeping_eq (l : Lexer) : ∃ places, l.keeping = { l with places } := by
  unfold keeping
  split
  · exact ⟨_, rfl⟩
  · exact ⟨_, rfl⟩

/-! ## Single steps -/

/-- The next token is read in some steps, none of which is the last one. -/
def Goes (l l' : Lexer) : Prop :=
  ∃ n, n + l'.cursor.rest.length ≤ l.cursor.rest.length ∧ ∀ fuel, run (fuel + n) l = run fuel l'

lemma Goes.trans (h : l.Goes l') (h' : l'.Goes l'') : l.Goes l'' := by
  obtain ⟨n, hn, hrun⟩ := h
  obtain ⟨n', hn', hrun'⟩ := h'
  refine ⟨n' + n, by omega, fun fuel => ?_⟩
  rw [← Nat.add_assoc, hrun, hrun']

/-- A step that reads a token other than the last one. -/
lemma Goes.of_advance (h : l.advance = .ok l')
    (hrest : l'.cursor.rest.length < l.cursor.rest.length)
    (hlast : l'.tokens.back? ≠ some .streamEnd) : l.Goes l' := by
  refine ⟨1, by omega, fun fuel => ?_⟩
  have hnot : ¬(l'.cursor.rest.isEmpty = true ∧ l'.tokens.back? = some .streamEnd) :=
    fun hend => hlast hend.2
  rw [run_succ, h]
  exact if_neg hnot

/-- The lexer in front of the next token. -/
structure Stands (l : Lexer) (spaces : List Char) (l' : Lexer) : Prop where
  tokens : l'.tokens = l.tokens
  level : l'.level = l.level
  flow : l'.IsFlow
  keyAllowed : l.keyAllowed = true → l'.keyAllowed = true
  places : l'.places = l.places.filter fun q => !l'.isStale q.2
  passes : (∀ ch ∈ spaces, ch = ' ') → l.cursor.Passes spaces l'.cursor

/-- The next token is read behind the white space in front of it. -/
lemma exists_advance_eq (hflow : l.IsFlow) (h : l.cursor.rest = pad ++ rest)
    (hpad : ∀ ch ∈ pad, isPad ch = true) (hrest : Halts beginsNoToken rest) :
    ∃ l', l.Stands pad l' ∧ l'.cursor.rest = rest ∧
      l.advance = if rest.isEmpty then l'.streamEnd else l'.scan := by
  have hfuel : pad.length < l.cursor.rest.length + 1 := by
    rw [h, List.length_append]
    omega
  obtain ⟨hkeeps, hcursor, hpasses⟩ := skipToToken_pad h hpad hrest hfuel
  rw [advance]
  generalize skipToToken (l.cursor.rest.length + 1) l = l₀ at hkeeps hcursor hpasses
  have hflow' : l₀.IsFlow := by
    refine ⟨hkeeps.indent.trans hflow.indent, hkeeps.outer.trans hflow.outer, ?_⟩
    rw [hkeeps.places]
    exact hflow.optional
  refine ⟨l₀.withPlaces fun q => !l₀.isStale q.2, ⟨hkeeps.tokens, hkeeps.level,
    hflow'.withPlaces _, hkeeps.keyAllowed, ?_, hpasses⟩, hcursor, ?_⟩
  · rw [← hkeeps.places]
    rfl
  · rw [dropStale_eq hflow']
    simp only [bind, Except.bind]
    rw [unwind_eq (hflow'.withPlaces _), ← hcursor]
    rfl

/-- Tokens are read. -/
structure Emits (l : Lexer) (tokens : List Token) (l' : Lexer) : Prop where
  goes : l.Goes l'
  tokens : l'.tokens.toList = l.tokens.toList ++ tokens
  flow : l'.IsFlow

lemma Emits.trans {ts ts' : List Token} (h : l.Emits ts l') (h' : l'.Emits ts' l'') :
    l.Emits (ts ++ ts') l'' :=
  ⟨h.goes.trans h'.goes, by rw [h'.tokens, h.tokens, List.append_assoc], h'.flow⟩

/-- A step behind white space that reads a single token. -/
lemma exists_emits {t : Token} {P : Lexer → Prop} (hflow : l.IsFlow)
    (h : l.cursor.rest = pad ++ rest) (hpad : ∀ ch ∈ pad, isPad ch = true)
    (hrest : Halts beginsNoToken rest) (hne : rest ≠ []) (ht : t ≠ .streamEnd)
    (hscan : ∀ l₁, l.Stands pad l₁ → l₁.cursor.rest = rest → ∃ l', l₁.scan = .ok l' ∧
      l'.tokens = l₁.tokens.push t ∧ l'.IsFlow ∧ l'.cursor.rest.length < rest.length ∧ P l') :
    ∃ l', l.Emits [t] l' ∧ P l' := by
  obtain ⟨l₁, hstands, hcursor, hadvance⟩ := exists_advance_eq hflow h hpad hrest
  obtain ⟨l', hscan, htokens, hflow', hlength, hP⟩ := hscan l₁ hstands hcursor
  rw [if_neg (by simpa using hne), hscan] at hadvance
  refine ⟨l', ⟨.of_advance hadvance ?_ ?_, ?_, hflow'⟩, hP⟩
  · rw [h, List.length_append]
    omega
  · simpa [htokens] using ht
  · simp [htokens, hstands.tokens]

/-! ## Punctuation -/

lemma atMarks_eq {ch mark : Char} (h : l.cursor.rest = ch :: rest) (hne : ch ≠ mark) :
    l.cursor.atMarks mark = false := by
  simp [Cursor.atMarks, Cursor.peek, h, hne]

/-- Where a separator of documents, a directive or a comment would begin. -/
lemma scan_marks {ch : Char} (h : l.cursor.rest = ch :: rest) (hminus : ch ≠ '-')
    (hpoint : ch ≠ '.') : l.cursor.current = ch ∧ l.cursor.atMarks '-' = false ∧
      l.cursor.atMarks '.' = false :=
  ⟨Cursor.current_eq h, atMarks_eq h hminus, atMarks_eq h hpoint⟩

/-- An opening bracket or brace is read. -/
lemma exists_emits_openFlow {ch : Char} {t : Token} (hflow : l.IsFlow)
    (h : l.cursor.rest = pad ++ ch :: rest) (hpad : ∀ ch ∈ pad, isPad ch = true)
    (hch : ch = '[' ∧ t = .flowSequenceStart ∨ ch = '\x7b' ∧ t = .flowMappingStart) :
    ∃ l', l.Emits [t] l' ∧ l'.level = l.level + 1 ∧ l'.cursor.rest = rest ∧
      l'.keyAllowed = true := by
  refine exists_emits hflow h hpad ?_ (by simp) ?_ ?_
  · exact Halts.cons (by rcases hch with ⟨rfl, -⟩ | ⟨rfl, -⟩ <;> decide) _
  · rcases hch with ⟨-, rfl⟩ | ⟨-, rfl⟩ <;> simp
  intro l₁ hstands hcursor
  have hscan : l₁.scan = l₁.openFlow t := by
    rcases hch with ⟨rfl, rfl⟩ | ⟨rfl, rfl⟩
    · obtain ⟨hcurrent, hminus, hpoint⟩ := scan_marks hcursor (by decide) (by decide)
      simp [scan, hcurrent, hminus, hpoint]
    · obtain ⟨hcurrent, hminus, hpoint⟩ := scan_marks hcursor (by decide) (by decide)
      simp [scan, hcurrent, hminus, hpoint]
  have hnext : l₁.cursor.next.rest = rest := by rw [Cursor.rest_next, hcursor]; rfl
  obtain ⟨places, hkeeping⟩ := keeping_eq l₁
  have hflow₁ := hstands.flow.keeping
  rw [hscan, openFlow, keepPlace_eq hstands.flow]
  rw [hkeeping] at hflow₁ ⊢
  refine ⟨_, rfl, rfl, ⟨hflow₁.indent, hflow₁.outer, hflow₁.optional⟩, ?_, ?_, hnext, rfl⟩
  · change l₁.cursor.next.rest.length < _
    rw [hnext]
    simp
  · exact congrArg (· + 1) hstands.level

/-- A closing bracket or brace is read. -/
lemma exists_emits_closeFlow {ch : Char} {t : Token} (hflow : l.IsFlow)
    (h : l.cursor.rest = pad ++ ch :: rest) (hpad : ∀ ch ∈ pad, isPad ch = true)
    (hch : ch = ']' ∧ t = .flowSequenceEnd ∨ ch = '\x7d' ∧ t = .flowMappingEnd) :
    ∃ l', l.Emits [t] l' ∧ l'.level = l.level - 1 ∧ l'.cursor.rest = rest := by
  refine exists_emits hflow h hpad ?_ (by simp) ?_ ?_
  · exact Halts.cons (by rcases hch with ⟨rfl, -⟩ | ⟨rfl, -⟩ <;> decide) _
  · rcases hch with ⟨-, rfl⟩ | ⟨-, rfl⟩ <;> simp
  intro l₁ hstands hcursor
  have hscan : l₁.scan = l₁.closeFlow t := by
    rcases hch with ⟨rfl, rfl⟩ | ⟨rfl, rfl⟩
    · obtain ⟨hcurrent, hminus, hpoint⟩ := scan_marks hcursor (by decide) (by decide)
      simp [scan, hcurrent, hminus, hpoint]
    · obtain ⟨hcurrent, hminus, hpoint⟩ := scan_marks hcursor (by decide) (by decide)
      simp [scan, hcurrent, hminus, hpoint]
  have hnext : l₁.cursor.next.rest = rest := by rw [Cursor.rest_next, hcursor]; rfl
  have hflow₁ := hstands.flow.withPlaces fun q => q.1 != l₁.level
  rw [hscan, closeFlow, dropPlace_eq hstands.flow]
  refine ⟨_, rfl, rfl, ⟨hflow₁.indent, hflow₁.outer, hflow₁.optional⟩, ?_, ?_, hnext⟩
  · change l₁.cursor.next.rest.length < _
    rw [hnext]
    simp
  · exact congrArg (· - 1) hstands.level

/-- A comma is read. -/
lemma exists_emits_comma (hflow : l.IsFlow) (h : l.cursor.rest = pad ++ ',' :: rest)
    (hpad : ∀ ch ∈ pad, isPad ch = true) : ∃ l', l.Emits [.flowEntry] l' ∧ l'.level = l.level ∧
      l'.cursor.rest = rest ∧ l'.keyAllowed = true := by
  refine exists_emits hflow h hpad (Halts.cons (by decide) _) (by simp) (by simp) ?_
  intro l₁ hstands hcursor
  have hscan : l₁.scan = l₁.flowEntry := by
    obtain ⟨hcurrent, hminus, hpoint⟩ := scan_marks hcursor (by decide) (by decide)
    simp [scan, hcurrent, hminus, hpoint]
  have hnext : l₁.cursor.next.rest = rest := by rw [Cursor.rest_next, hcursor]; rfl
  have hflow₁ := hstands.flow.withPlaces fun q => q.1 != l₁.level
  rw [hscan, flowEntry, dropPlace_eq hstands.flow]
  refine ⟨_, rfl, rfl, ⟨hflow₁.indent, hflow₁.outer, hflow₁.optional⟩, ?_, hstands.level, hnext,
    rfl⟩
  change l₁.cursor.next.rest.length < _
  rw [hnext]
  simp

/-! ## Scalars -/

/-- A lexer behind a text of some length knows the place of the text as one where a key may begin. -/
def KnowsPlace (l : Lexer) (token length : Nat) : Prop :=
  ∃ place, l.places.head? = some (l.level, place) ∧ place.token = token ∧
    place.line = l.cursor.line ∧ l.cursor.index = place.index + length

/-- A quoted text is read, and its place is kept if a key may begin there. -/
lemma exists_emits_quoted {pieces : List Json.Piece} (hpieces : Json.ArePortable pieces)
    (hflow : l.IsFlow) (h : l.cursor.rest = pad ++ ((Json.quotedText pieces).chars ++ rest))
    (hpad : ∀ ch ∈ pad, isPad ch = true) :
    ∃ l', l.Emits [.scalar (Json.points pieces) false] l' ∧ l'.level = l.level ∧
      l'.cursor.rest = rest ∧ (l.keyAllowed = true →
        l'.KnowsPlace l.tokens.size (Json.quotedText pieces).chars.length) := by
  obtain ⟨cs, hcs⟩ : ∃ cs, (Json.quotedText pieces).chars = '"' :: cs := ⟨_, rfl⟩
  refine exists_emits hflow h hpad (by rw [hcs]; exact Halts.cons (by decide) _) (by rw [hcs]; simp)
    (by simp) ?_
  intro l₁ hstands hcursor
  have hscan : l₁.scan = l₁.quoted := by
    rw [hcs] at hcursor
    obtain ⟨hcurrent, hminus, hpoint⟩ := scan_marks hcursor (by decide) (by decide)
    simp [scan, hcurrent, hminus, hpoint]
  obtain ⟨c', hpass, hquoted⟩ := exists_quotedScalar hpieces hcursor
  have hrest := hpass.rest_eq hcursor
  have hkeeping : ∃ places, l₁.keeping = { l₁ with places } ∧ (l₁.keyAllowed = true →
      places.head? = some (l₁.level, l₁.placeHere)) := by
    unfold keeping
    split
    · exact ⟨_, rfl, fun _ => rfl⟩
    · next hkey => exact ⟨_, rfl, fun hkey' => absurd hkey' hkey⟩
  obtain ⟨places, hkeeping, hplace⟩ := hkeeping
  have hflow₁ := hstands.flow.keeping
  rw [hscan, quoted, keepPlace_eq hstands.flow]
  rw [hkeeping] at hflow₁ ⊢
  simp only [bind, Except.bind, hquoted]
  refine ⟨_, rfl, rfl, ⟨hflow₁.indent, hflow₁.outer, hflow₁.optional⟩, ?_, hstands.level, hrest, ?_⟩
  · change c'.rest.length < _
    rw [hrest, hcs, List.length_append, List.length_cons]
    omega
  · intro hallowed
    refine ⟨l₁.placeHere, hplace (hstands.keyAllowed hallowed), ?_, ?_, ?_⟩
    · exact congrArg Array.size hstands.tokens
    · exact hpass.line.symm
    · exact hpass.index

/-- The beginning of a number or of a name: a letter or digit, or a minus with a digit behind it. -/
def BeginsPlain (cs : List Char) : Prop :=
  ∃ ch cs', cs = ch :: cs' ∧ (ch.isAlphanum = true ∨
    ch = '-' ∧ ∃ d cs'', cs' = d :: cs'' ∧ d.isDigit = true)

/-- A plain scalar begins at a number or at a name. -/
lemma scan_plain (hbegins : BeginsPlain cs) (hcs : ∀ ch ∈ cs, isSolid ch = true)
    (h : l.cursor.rest = cs ++ rest) : l.scan = l.plain := by
  obtain ⟨ch, cs', rfl, hch⟩ := hbegins
  have hcurrent := Cursor.current_eq h
  rcases hch with hch | ⟨rfl, d, cs'', rfl, hd⟩
  · have hne : ∀ {d : Char}, d.isAlphanum = false → ch ≠ d := by
      rintro d hd rfl
      rw [hd] at hch
      cases hch
    have hmark : ch ≠ '%' ∧ ch ≠ '[' ∧ ch ≠ ']' ∧ ch ≠ '\x7b' ∧ ch ≠ '\x7d' ∧ ch ≠ ',' ∧ ch ≠ '-' ∧
        ch ≠ '?' ∧ ch ≠ ':' ∧ ch ≠ '*' ∧ ch ≠ '&' ∧ ch ≠ '!' ∧ ch ≠ '|' ∧ ch ≠ '>' ∧ ch ≠ '\'' ∧
          ch ≠ '"' := by
      refine ⟨?_, ?_, ?_, ?_, ?_, ?_, ?_, ?_, ?_, ?_, ?_, ?_, ?_, ?_, ?_, ?_⟩ <;>
        exact hne (by decide)
    have hplain : l.atPlain = true := by
      have hindicators : indicators.any Char.isAlphanum = false := by decide
      have hindicator : ch ∉ indicators :=
        fun hmem => hne (Bool.eq_false_iff.mpr (List.any_eq_false.mp hindicators ch hmem)) rfl
      have hblank := isBlankOrEnd_of_isSolid (hcs ch (by simp))
      simp [atPlain, hcurrent, hblank, hindicator]
    have hminus := atMarks_eq h (hne (d := '-') (by decide))
    have hpoint := atMarks_eq h (hne (d := '.') (by decide))
    simp [scan, hcurrent, hminus, hpoint, hmark, hplain]
  · have hpeek : l.cursor.peek 1 = d := by
      rw [Cursor.peek, h]
      rfl
    have hblank : isBlankOrEnd d = false := isBlankOrEnd_of_isSolid (isSolid_of_isDigit hd)
    have hminus : l.cursor.atMarks '-' = false := by
      have : d ≠ '-' := by
        rintro rfl
        cases hd
      simp [Cursor.atMarks, hpeek, this]
    have hpoint := atMarks_eq h (show '-' ≠ '.' by decide)
    have hplain : l.atPlain = true := by simp [atPlain, hcurrent, hpeek, hblank]
    simp [scan, hcurrent, hminus, hpoint, hpeek, hblank, hplain]

/-- A number or a name is read, with some of the white space behind it. -/
lemma exists_emits_plain {after : List Char} (hbegins : BeginsPlain cs)
    (hcs : ∀ ch ∈ cs, isSolid ch = true) (hflow : l.IsFlow)
    (h : l.cursor.rest = pad ++ (cs ++ (after ++ tail))) (hpad : ∀ ch ∈ pad, isPad ch = true)
    (hafter : ∀ ch ∈ after, isPad ch = true) (htail : EndsScalar (l.level != 0) tail) :
    ∃ l', l.Emits [.scalar (.ofChars cs) true] l' ∧ l'.level = l.level ∧
      ∃ pad', l'.cursor.rest = pad' ++ tail ∧ ∀ ch ∈ pad', isPad ch = true := by
  have ⟨ch, cs', hcons, _⟩ := hbegins
  have hne : cs ≠ [] := by simp [hcons]
  refine exists_emits hflow h hpad ?_ (by simp [hne]) (by simp) ?_
  · rw [hcons]
    refine Halts.cons ?_ _
    have hch := hcs ch (by simp [hcons])
    have hcomment : ch ≠ '#' := ne_of_isSolid hch (by decide)
    simp [beginsNoToken, isBlankOrEnd_of_isSolid hch, hcomment]
  intro l₁ hstands hcursor
  obtain ⟨places, hkeeping⟩ := keeping_eq l₁
  have hflow₁ := hstands.flow.keeping
  rw [scan_plain hbegins hcs hcursor, plain, keepPlace_eq hstands.flow]
  rw [hkeeping] at hflow₁ ⊢
  rw [← hstands.level] at htail
  obtain ⟨c', newLine, pad', hscalar, hrest, hlength, hpad'⟩ :=
    exists_plainScalar hcursor hne hcs hafter htail (l₁.indent + 1)
  simp only [bind, Except.bind, hscalar]
  refine ⟨_, rfl, rfl, ⟨hflow₁.indent, hflow₁.outer, hflow₁.optional⟩, ?_, hstands.level, pad',
    hrest, hpad'⟩
  change c'.rest.length < _
  rw [hrest, hcons, List.length_append, List.length_append, List.length_append, List.length_cons]
  omega

/-! ## Keys -/

lemma value_eq {place : KeyPlace} (hlookup : l.places.lookup l.level = some place)
    (hlevel : l.level ≠ 0) : l.value = .ok
      { ((l.withPlaces fun q => q.1 != l.level).insertAt place.token .key).push .value with
        cursor := l.cursor.next
        keyAllowed := false } := by
  unfold value
  rw [hlookup]
  dsimp only
  split
  · next hzero => exact absurd hzero hlevel
  · rfl

/-- A colon behind a text whose place is known makes the text a key. -/
lemma exists_goes_colon {token length n : Nat} (hplace : l.KnowsPlace token length)
    (hflow : l.IsFlow) (hlevel : l.level ≠ 0)
    (h : l.cursor.rest = List.replicate n ' ' ++ ':' :: rest) (hnear : length + n ≤ 1024) :
    ∃ l', l.Goes l' ∧ l'.tokens = (l.tokens.insertIdxIfInBounds token .key).push .value ∧
      l'.IsFlow ∧ l'.level = l.level ∧ l'.cursor.rest = rest := by
  have hspaces : ∀ ch ∈ List.replicate n ' ', ch = ' ' := fun ch => List.eq_of_mem_replicate
  have hpad : ∀ ch ∈ List.replicate n ' ', isPad ch = true := by
    intro ch hch
    rw [hspaces ch hch]
    rfl
  obtain ⟨l₁, hstands, hcursor, hadvance⟩ :=
    exists_advance_eq hflow h hpad (Halts.cons (by decide) _)
  obtain ⟨place, hhead, rfl, hline, hindex⟩ := hplace
  have hpass := hstands.passes hspaces
  have hfresh : l₁.isStale place = false := by
    have hindex₁ := hpass.index
    rw [List.length_replicate] at hindex₁
    simp only [isStale, hline, hpass.line, bne_self_eq_false, Bool.false_or,
      decide_eq_false_iff_not]
    omega
  obtain ⟨others, hplaces⟩ := List.head?_eq_some_iff.mp hhead
  have hlookup : l₁.places.lookup l₁.level = some place := by
    rw [hstands.places, hplaces, hstands.level, List.filter_cons_of_pos (by simp [hfresh])]
    exact List.lookup_cons_self
  have hlevel₁ : l₁.level ≠ 0 := by rwa [hstands.level]
  have hscan : l₁.scan = l₁.value := by
    obtain ⟨hcurrent, hminus, hpoint⟩ := scan_marks hcursor (by decide) (by decide)
    simp [scan, hcurrent, hminus, hpoint, hlevel₁]
  have hnext : l₁.cursor.next.rest = rest := by rw [Cursor.rest_next, hcursor]; rfl
  rw [if_neg (by simp), hscan, value_eq hlookup hlevel₁] at hadvance
  have hflow₁ := hstands.flow.withPlaces fun q => q.1 != l₁.level
  refine ⟨_, .of_advance hadvance ?_ ?_, ?_, ⟨hflow₁.indent, hflow₁.outer, hflow₁.optional⟩,
    hstands.level, hnext⟩
  · change l₁.cursor.next.rest.length < _
    rw [hnext, h, List.length_append, List.length_cons]
    omega
  · change ((l₁.tokens.insertIdxIfInBounds place.token .key).push .value).back? ≠ some .streamEnd
    simp
  · rw [← hstands.tokens]
    rfl

/-- A token put in before the last one. -/
lemma toList_insertIdxIfInBounds_size (tokens : Array Token) (t t' : Token) :
    ((tokens.push t).insertIdxIfInBounds tokens.size t').toList = tokens.toList ++ [t', t] := by
  have hlist : ∀ ts : List Token, (ts ++ [t]).insertIdx ts.length t' = ts ++ [t', t] := by
    intro ts
    induction ts with
    | nil => rfl
    | cons u ts ih => exact congrArg (u :: ·) ih
  rw [Array.insertIdxIfInBounds, dif_pos (by simp), Array.toList_insertIdx, Array.toList_push]
  exact hlist tokens.toList

/-- A key is read with its colon. -/
lemma exists_emits_label {label : Json.Label} (hlabel : label.IsPortable) (hflow : l.IsFlow)
    (hlevel : l.level ≠ 0) (hkey : l.keyAllowed = true)
    (h : l.cursor.rest = pad ++ (label.text.chars ++ rest)) (hpad : ∀ ch ∈ pad, isPad ch = true) :
    ∃ l', l.Emits [.key, .scalar (Json.points label.key) false, .value] l' ∧ l'.level = l.level ∧
      l'.cursor.rest = label.after.text.chars ++ rest := by
  have hspaces : label.before.text.chars = List.replicate label.before.text.length ' ' := by
    rw [List.eq_replicate_of_mem hlabel.before, Text.chars, List.filterMap_replicate]
    simp [CodePoint.char?]
  have hnear : (Json.quotedText label.key).chars.length + label.before.text.length ≤ 1024 := by
    have hlength : (Json.quotedText label.key).chars.length ≤ (Json.quotedText label.key).length :=
      List.length_filterMap_le _ _
    have := hlabel.near
    omega
  have htext : label.text.chars ++ rest = (Json.quotedText label.key).chars ++
      (label.before.text.chars ++ ':' :: (label.after.text.chars ++ rest)) := by
    simp [Json.Label.text]
  rw [htext, hspaces] at h
  obtain ⟨l₁, hemits, hlevel₁, hrest₁, hplace⟩ := exists_emits_quoted hlabel.key hflow h hpad
  obtain ⟨l₂, hgoes, htokens, hflow₂, hlevel₂, hrest₂⟩ :=
    exists_goes_colon (hplace hkey) hemits.flow
    (by rwa [hlevel₁]) hrest₁ hnear
  refine ⟨l₂, ⟨hemits.goes.trans hgoes, ?_, hflow₂⟩, hlevel₂.trans hlevel₁, hrest₂⟩
  have htokens₁ : l₁.tokens = l.tokens.push (.scalar (Json.points label.key) false) := by
    rw [← Array.toList_inj, hemits.tokens, Array.toList_push]
  rw [htokens, Array.toList_push, htokens₁, toList_insertIdxIfInBounds_size]
  simp

end Lexer

end StockFlow.Yaml
