import StockFlow.Proofs.Json.Grammar
import StockFlow.Proofs.Outcome
/-!
# Reading texts between quotes

The reader of texts reads the pieces of a text up to its closing quote (`readText_closedText`), and
whatever it reads are pieces with a quote behind them (`exists_pieces_of_readText`). The two escapes
for the halves of one character are read together; every other piece is read by itself.
-/

namespace StockFlow.Json

/-- A text that does not begin with a character of a kind. -/
def Stops (p : Char → Bool) (cs : Text) : Prop := ∀ c rest, cs = c :: rest → c.isCharWith p = false

lemma Stops.cons {p : Char → Bool} {c : Char} (h : p c = false) (rest : Text) :
    Stops p (.char c :: rest) := by
  rintro c' rest' heq
  cases heq
  exact h

lemma Stops.nil {p : Char → Bool} : Stops p [] := by simp [Stops]

/-- Whatever does not begin with a character of a kind does not begin with one of a smaller kind. -/
lemma Stops.mono {p q : Char → Bool} (h : Stops p rest) (hpq : ∀ c, q c = true → p c = true) :
    Stops q rest := by
  intro c rest' hrest
  have hp := h c rest' hrest
  cases c with
  | surrogate offset => rfl
  | char c =>
    simp only [CodePoint.isCharWith] at hp ⊢
    by_contra hq
    rw [hpq c (by simpa using hq)] at hp
    cases hp

/-! ## White space -/

lemma skipSpaces_append (s : Space) {rest : Text} (h : Stops isSpace rest) :
    skipSpaces (s.text ++ rest) = rest := by
  unfold skipSpaces
  rw [List.dropWhile_append_of_pos s.blank]
  cases rest with
  | nil => rfl
  | cons c rest => exact List.dropWhile_cons_of_neg (by simp [h c rest rfl])

lemma exists_skipSpaces (cs : Text) : ∃ s : Space, cs = s.text ++ skipSpaces cs :=
  ⟨⟨cs.takeWhile (CodePoint.isCharWith isSpace), fun c hc => by
    have := List.all_takeWhile (l := cs) (p := CodePoint.isCharWith isSpace)
    exact List.all_eq_true.mp this c hc⟩,
    List.takeWhile_append_dropWhile.symm⟩

/-! ## Texts -/

variable {start rest : Text}

lemma readText_raw {c : CodePoint} (h : c ≠ .char '"' ∧ c ≠ .char '\\' ∧ 0x20 ≤ c.number)
    (rest : Text) : readText start (c :: rest) = consPoint c (readText start rest) := by
  obtain ⟨hquote, hslash, hcontrol⟩ := h
  rw [readText]
  · rw [if_neg hquote, if_neg (by omega)]
  · rintro hc
    exact absurd hc hslash
  all_goals
    intros
    exact absurd ‹_› hslash

lemma readText_short {letter c : Char} (h : shortEscape? letter = some c) (rest : Text) :
    readText start (.char '\\' :: .char letter :: rest) =
      consPoint (.char c) (readText start rest) := by
  have hletter : letter ≠ 'u' := by
    rintro rfl
    have hnone : shortEscape? 'u' = none := by decide
    rw [hnone] at h
    cases h
  rw [readText]
  · simp [CodePoint.char?, h]
  · intros
    simp_all
  · intros
    simp_all

lemma readText_pair (high low : Quad) (h : (Piece.code high).isPair (.code low) = true)
    (j : CodePoint) (rest : Text) :
    readText start ((Piece.code high).text ++ ((Piece.code low).text ++ j :: rest)) =
      consPoint ((Piece.code high).joined (.code low)) (readText start (j :: rest)) := by
  obtain ⟨hhigh, hlow⟩ := Bool.and_eq_true_iff.mp h
  simp only [Piece.text, Quad.text, List.cons_append, List.nil_append]
  rw [readText.eq_def]
  simp only [high.hex, low.hex, hhigh, hlow, if_true]
  rfl

lemma readText_code (q : Quad) {e : CodePoint} {rest : Text}
    (h : ∀ f g h i j rest', e :: rest = .char '\\' :: .char 'u' :: f :: g :: h :: i :: j :: rest' →
      ∃ low, hexQuad? f g h i = some low ∧
        (isHighSurrogate q.number && isLowSurrogate low) = false) :
    readText start ((Piece.code q).text ++ e :: rest) =
      consPoint (Piece.code q).point (readText start (e :: rest)) := by
  simp only [Piece.text, Quad.text, List.cons_append, List.nil_append]
  rw [readText.eq_def]
  simp only [q.hex]
  split
  · next f g h' i j rest' =>
    obtain ⟨low, hlow, hpair⟩ := h f g h' i j rest' rfl
    simp only [hlow]
    split
    · next hhigh =>
      rw [hhigh, Bool.true_and] at hpair
      rw [if_neg (by simp [hpair])]
      rfl
    · rfl
  · rfl

/-- A closed text is not empty. -/
lemma exists_cons_closedText_append (pieces : List Piece) (rest : Text) :
    ∃ c rest', closedText pieces ++ rest = c :: rest' := by
  unfold closedText
  cases pieces with
  | nil => exact ⟨_, _, rfl⟩
  | cons p pieces => cases p <;> exact ⟨_, _, rfl⟩

@[simp]
lemma closedText_nil : closedText [] = [.char '"'] := rfl

lemma closedText_cons (p : Piece) (pieces : List Piece) :
    closedText (p :: pieces) = p.text ++ closedText pieces := by
  simp [closedText]

/-- A piece that is not written together with the next one is read by itself. -/
lemma readText_piece {p : Piece} {pieces : List Piece}
    (h : ∀ q rest, pieces = q :: rest → p.isPair q = false) (rest : Text) :
    readText start (p.text ++ (closedText pieces ++ rest)) =
      consPoint p.point (readText start (closedText pieces ++ rest)) := by
  cases p with
  | raw c plain => exact readText_raw plain _
  | short letter c escapes => exact readText_short escapes _
  | code q =>
    obtain ⟨e, rest', he⟩ := exists_cons_closedText_append pieces rest
    rw [he]
    refine readText_code q ?_
    rw [← he]
    intro f g h' i j rest'' heq
    cases pieces with
    | nil => simp at heq
    | cons p pieces =>
      rw [closedText_cons, List.append_assoc] at heq
      cases p with
      | raw c plain =>
        have hc : c = .char '\\' := (List.cons.inj heq).1
        exact absurd hc plain.2.1
      | short letter c escapes =>
        have hletter : letter = 'u' := by
          simp only [Piece.text, List.cons_append, List.cons.injEq, CodePoint.char.injEq] at heq
          exact heq.2.1
        subst hletter
        have hnone : shortEscape? 'u' = none := by decide
        rw [hnone] at escapes
        cases escapes
      | code low =>
        simp only [Piece.text, Quad.text, List.cons_append, List.cons.injEq, true_and] at heq
        obtain ⟨rfl, rfl, rfl, rfl, -⟩ := heq
        exact ⟨low.number, low.hex, h (.code low) pieces rfl⟩

lemma points_cons {p : Piece} {pieces : List Piece}
    (h : ∀ q rest, pieces = q :: rest → p.isPair q = false) :
    points (p :: pieces) = p.point :: points pieces := by
  cases pieces with
  | nil => rfl
  | cons q pieces => rw [points, if_neg (by simp [h q pieces rfl])]

/-- The reader of texts reads pieces up to the quote behind them. -/
lemma readText_closedText (pieces : List Piece) (rest : Text) :
    readText start (closedText pieces ++ rest) = .ok (points pieces, rest) := by
  induction pieces using points.induct with
  | case1 => simp [readText, points]
  | case2 p =>
    have hlast : ∀ q rest, [] = q :: rest → p.isPair q = false := by simp
    rw [closedText_cons, List.append_assoc, readText_piece hlast, points_cons hlast]
    simp [readText, points, consPoint]
  | case3 p q pieces hpair ih =>
    rw [points, if_pos hpair, closedText_cons, closedText_cons]
    cases p <;> cases q <;> simp [Piece.isPair] at hpair
    next high low =>
      obtain ⟨j, rest', hj⟩ := exists_cons_closedText_append pieces rest
      rw [List.append_assoc, List.append_assoc, hj,
        readText_pair high low (by simp [Piece.isPair, hpair]), ← hj, ih]
      rfl
  | case4 p q pieces hpair ih =>
    have hnot : ∀ q' rest, q :: pieces = q' :: rest → p.isPair q' = false := by
      rintro q' rest heq
      cases heq
      simpa using hpair
    rw [closedText_cons, List.append_assoc, readText_piece hnot, ih, points_cons hnot]
    rfl

lemma consPoint_eq_ok_iff {c : CodePoint} {x : Parsed Text} {s rest : Text} :
    consPoint c x = .ok (s, rest) ↔ ∃ s', x = .ok (s', rest) ∧ s = c :: s' := by
  rcases x with fault | ⟨s', rest'⟩
  · simp [consPoint]
  · simp only [consPoint, Except.ok.injEq, Prod.mk.injEq]
    constructor
    · rintro ⟨rfl, rfl⟩
      exact ⟨s', ⟨rfl, rfl⟩, rfl⟩
    · rintro ⟨s'', ⟨rfl, rfl⟩, rfl⟩
      exact ⟨rfl, rfl⟩

/-- What a text between quotes is made of, given what is left of it behind its first piece. -/
lemma exists_closedText_cons {p : Piece} {pieces : List Piece} {cs rest : Text}
    (hcs : cs = closedText pieces ++ rest)
    (h : ∀ q rest, pieces = q :: rest → p.isPair q = false) :
    ∃ pieces', p.text ++ cs = closedText pieces' ++ rest ∧
      points pieces' = p.point :: points pieces :=
  ⟨p :: pieces, by rw [closedText_cons, List.append_assoc, hcs], points_cons h⟩

/-- An escape by number that the reader does not join with what stands behind it is no half of a
pair. -/
lemma isPair_code_eq_false {quad : Quad} {cs rest : Text} {pieces : List Piece}
    (hcs : cs = closedText pieces ++ rest)
    (h : ∀ f g h i j cs', cs = .char '\\' :: .char 'u' :: f :: g :: h :: i :: j :: cs' →
      ∀ low, hexQuad? f g h i = some low →
        (isHighSurrogate quad.number && isLowSurrogate low) = false) :
    ∀ q rest, pieces = q :: rest → (Piece.code quad).isPair q = false := by
  rintro q pieces rfl
  cases q with
  | raw c plain => rfl
  | short letter c escapes => rfl
  | code low =>
    obtain ⟨j, cs', hj⟩ := exists_cons_closedText_append pieces rest
    rw [closedText_cons, List.append_assoc, hj] at hcs
    exact h _ _ _ _ j cs' hcs low.number low.hex

/-- Whatever the reader of texts reads are pieces with a quote behind them. -/
lemma exists_pieces_of_readText {cs s rest : Text} (h : readText start cs = .ok (s, rest)) :
    ∃ pieces, cs = closedText pieces ++ rest ∧ points pieces = s := by
  fun_induction readText start cs generalizing s with
  | case1 => cases h
  | case2 => cases h
  | case3 => cases h
  | case4 => cases h
  | case5 a b c d high hhigh f g h' i j cs hsurrogate low hlow hsurrogate' ih =>
    obtain ⟨s', hs', rfl⟩ := consPoint_eq_ok_iff.mp h
    obtain ⟨pieces, hcs, rfl⟩ := ih hs'
    let quad : Quad := ⟨a, b, c, d, high, hhigh⟩
    let quad' : Quad := ⟨f, g, h', i, low, hlow⟩
    have hpair : (Piece.code quad).isPair (.code quad') = true :=
      Bool.and_eq_true_iff.mpr ⟨hsurrogate, hsurrogate'⟩
    refine ⟨.code quad :: .code quad' :: pieces, ?_, ?_⟩
    · rw [closedText_cons, closedText_cons, List.append_assoc, List.append_assoc, ← hcs]
      rfl
    · rw [points, if_pos hpair]
      rfl
  | case6 a b c d high hhigh first f g h' i j cs second hsurrogate low hlow hsurrogate' =>
    next ih =>
    obtain ⟨s', hs', rfl⟩ := consPoint_eq_ok_iff.mp h
    obtain ⟨pieces, hcs, rfl⟩ := ih hs'
    refine exists_closedText_cons (p := .code ⟨a, b, c, d, high, hhigh⟩) hcs
      (isPair_code_eq_false hcs fun _ _ _ _ _ _ heq low' hlow' => ?_)
    cases heq
    obtain rfl : low = low' := Option.some.inj (hlow.symm.trans hlow')
    simp [hsurrogate']
  | case7 a b c d high hhigh first f g h' i j cs second hsurrogate =>
    next ih =>
    obtain ⟨s', hs', rfl⟩ := consPoint_eq_ok_iff.mp h
    obtain ⟨pieces, hcs, rfl⟩ := ih hs'
    refine exists_closedText_cons (p := .code ⟨a, b, c, d, high, hhigh⟩) hcs
      (isPair_code_eq_false hcs fun _ _ _ _ _ _ heq low hlow => ?_)
    simp [hsurrogate]
  | case8 a b c d high hhigh first e cs hnone =>
    next ih =>
    obtain ⟨s', hs', rfl⟩ := consPoint_eq_ok_iff.mp h
    obtain ⟨pieces, hcs, rfl⟩ := ih hs'
    refine exists_closedText_cons (p := .code ⟨a, b, c, d, high, hhigh⟩) hcs
      (isPair_code_eq_false hcs fun _ _ _ _ _ _ heq low hlow => ?_)
    cases heq
    exact (hnone _ _ _ _ _ _ rfl rfl).elim
  | case9 => cases h
  | case10 c cs _ _ d hd ih =>
    obtain ⟨s', hs', rfl⟩ := consPoint_eq_ok_iff.mp h
    obtain ⟨pieces, hcs, rfl⟩ := ih hs'
    obtain ⟨letter, hletter, hd⟩ := Option.bind_eq_some_iff.mp hd
    cases c <;> cases hletter
    exact exists_closedText_cons (p := .short letter d hd) hcs fun _ _ _ => rfl
  | case11 => cases h
  | case12 =>
    cases h
    exact ⟨[], rfl, rfl⟩
  | case13 => cases h
  | case14 c cs hlast _ _ hslash hquote hcontrol ih =>
    obtain ⟨s', hs', rfl⟩ := consPoint_eq_ok_iff.mp h
    obtain ⟨pieces, hcs, rfl⟩ := ih hs'
    have hplain : c ≠ .char '\\' := by
      intro hc
      cases cs with
      | nil => exact hlast hc rfl
      | cons c' cs => exact hslash c' cs hc rfl
    exact exists_closedText_cons (p := .raw c ⟨hquote, hplain, by omega⟩) hcs fun _ _ _ => rfl

end StockFlow.Json
