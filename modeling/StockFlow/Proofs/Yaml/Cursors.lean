import Mathlib.Tactic.Lemma
import StockFlow.Yaml.Cursor
/-!
# Moving cursors

Where a cursor stands after it has moved. On one line it counts the characters that it passes
(`Cursor.Passes`), and white space that may hold line breaks is passed up to whatever follows it. However
a cursor moves, what remains at it is the end of the same text (`Cursor.Within`).
-/

namespace StockFlow.Yaml

/-- Whether a character is a space or ends a line in the way of texts of any format. -/
def isPad (c : Char) : Bool := c == ' ' || c == '\n' || c == '\r'

/-- Characters that do not begin with one of a kind. -/
def Halts (p : Char → Bool) (cs : List Char) : Prop := ∀ ch rest, cs = ch :: rest → p ch = false

lemma Halts.nil {p : Char → Bool} : Halts p [] := nofun

lemma Halts.cons {p : Char → Bool} {ch : Char} (h : p ch = false) (rest : List Char) :
    Halts p (ch :: rest) := by
  intro ch' rest' heq
  cases heq
  exact h

lemma Halts.mono {p q : Char → Bool} {cs : List Char} (h : Halts p cs)
    (hpq : ∀ ch, q ch = true → p ch = true) : Halts q cs := by
  intro ch rest heq
  have hp := h ch rest heq
  cases hq : q ch with
  | false => rfl
  | true => rw [hpq ch hq] at hp; cases hp

/-- White space is made of spaces and of what begins with a line break. -/
lemma exists_spaces {pad : List Char} (hpad : ∀ ch ∈ pad, isPad ch = true) :
    ∃ n pad', pad = List.replicate n ' ' ++ pad' ∧ (∀ ch ∈ pad', isPad ch = true) ∧
      ∀ ch rest, pad' = ch :: rest → isBreak ch = true := by
  induction pad with
  | nil => exact ⟨0, [], rfl, hpad, nofun⟩
  | cons ch pad ih =>
    obtain ⟨hch, hrest⟩ := List.forall_mem_cons.mp hpad
    simp only [isPad, Bool.or_eq_true, beq_iff_eq] at hch
    rcases hch with (rfl | rfl) | rfl
    · obtain ⟨n, pad', rfl, hpad', hbreak⟩ := ih hrest
      exact ⟨n + 1, pad', rfl, hpad', hbreak⟩
    · exact ⟨0, '\n' :: pad, rfl, hpad, by rintro _ _ heq; cases heq; rfl⟩
    · exact ⟨0, '\r' :: pad, rfl, hpad, by rintro _ _ heq; cases heq; rfl⟩

namespace Cursor

variable {c c' c'' : Cursor} {cs cs' rest : List Char} {p : Char → Bool}

lemma rest_next (c : Cursor) : c.next.rest = c.rest.tail := by
  unfold next
  split
  · next h => rw [h]; rfl
  · next h =>
    rw [h]
    split
    · rfl
    · split <;> rfl

lemma rest_advance (c : Cursor) (n : Nat) : (c.advance n).rest = c.rest.drop n := by
  induction n generalizing c with
  | zero => rfl
  | succ n ih => rw [advance, ih, rest_next, List.drop_tail]

lemma current_eq {ch : Char} (h : c.rest = ch :: rest) : c.current = ch := by
  rw [current, h]
  rfl

lemma current_eq_nul (h : c.rest = []) : c.current = '\x00' := by
  rw [current, h]
  rfl

/-- One cursor stands behind characters at another one, on the same line. -/
structure Passes (c : Cursor) (cs : List Char) (c' : Cursor) : Prop where
  rest : c.rest = cs ++ c'.rest
  index : c'.index = c.index + cs.length
  line : c'.line = c.line

lemma Passes.refl (c : Cursor) : c.Passes [] c := ⟨rfl, rfl, rfl⟩

lemma Passes.trans (h : c.Passes cs c') (h' : c'.Passes cs' c'') : c.Passes (cs ++ cs') c'' := by
  refine ⟨?_, ?_, ?_⟩
  · rw [h.rest, h'.rest, List.append_assoc]
  · rw [h'.index, h.index, List.length_append, Nat.add_assoc]
  · rw [h'.line, h.line]

lemma passes_next {ch : Char} (h : c.rest = ch :: rest) (hbreak : isBreak ch = false) :
    c.Passes [ch] c.next := by
  have hfeed : ch ≠ '\r' := by
    rintro rfl
    cases hbreak
  refine ⟨by rw [rest_next, h]; rfl, ?_, ?_⟩
  all_goals
    unfold next
    rw [h]
    dsimp only
    rw [if_neg (by simp [hbreak, hfeed])]
    split <;> rfl

lemma passes_advance (h : c.rest = cs ++ rest) (hbreak : ∀ ch ∈ cs, isBreak ch = false) :
    c.Passes cs (c.advance cs.length) := by
  induction cs generalizing c with
  | nil => exact .refl c
  | cons ch cs ih =>
    obtain ⟨hch, hcs⟩ := List.forall_mem_cons.mp hbreak
    have hnext : c.next.rest = cs ++ rest := by rw [rest_next, h]; rfl
    exact (passes_next h hch).trans (ih hnext hcs)

/-- What follows a cursor that has passed given characters. -/
lemma Passes.rest_eq (h : c.Passes cs c') (hrest : c.rest = cs ++ rest) : c'.rest = rest :=
  List.append_cancel_left (h.rest.symm.trans hrest)

lemma span_eq (h : c.rest = cs ++ rest) (hcs : ∀ ch ∈ cs, p ch = true)
    (hrest : ∀ ch rest', rest = ch :: rest' → p ch = false) :
    c.span p = (cs, c.advance cs.length) := by
  have htake : c.rest.takeWhile p = cs := by
    rw [h, List.takeWhile_append_of_pos hcs]
    cases rest with
    | nil => simp
    | cons ch rest => rw [List.takeWhile_cons_of_neg (by simp [hrest ch rest rfl]), List.append_nil]
  unfold span
  rw [htake]

/-- Behind a line break in white space stands the rest of the white space. -/
lemma exists_rest_lineBreak {ch : Char} {pad : List Char} (h : c.rest = ch :: (pad ++ rest))
    (hch : isBreak ch = true) (hpad : ∀ ch ∈ pad, isPad ch = true) (hrest : Halts isPad rest) :
    ∃ pad', c.lineBreak.2.rest = pad' ++ rest ∧ pad'.length ≤ pad.length ∧
      ∀ ch ∈ pad', isPad ch = true := by
  have hnext : c.next.rest = pad ++ rest := by rw [rest_next, h]; rfl
  unfold lineBreak
  split
  · next rest' heq =>
    rw [h] at heq
    obtain ⟨-, heq⟩ := List.cons.inj heq
    cases pad with
    | nil => exact absurd (hrest '\n' rest' heq) (by decide)
    | cons ch' pad =>
      refine ⟨pad, ?_, by simp, (List.forall_mem_cons.mp hpad).2⟩
      rw [rest_advance, h]
      rfl
  · next ch' rest' _ heq =>
    rw [h] at heq
    obtain ⟨rfl, -⟩ := List.cons.inj heq
    refine ⟨pad, ?_, Nat.le_refl _, hpad⟩
    split
    · exact hnext
    · exact hnext
  · next heq =>
    rw [h] at heq
    cases heq

/-- Spaces stand on one line. -/
lemma passes_skipSpaces {n : Nat} (h : c.rest = List.replicate n ' ' ++ rest)
    (hrest : Halts (· == ' ') rest) :
    c.Passes (List.replicate n ' ') c.skipSpaces ∧ c.skipSpaces.rest = rest := by
  have hskip : c.skipSpaces = c.advance (List.replicate n ' ').length := by
    rw [skipSpaces, skip, span_eq h _ hrest]
    intro ch hch
    rw [List.eq_of_mem_replicate hch]
    rfl
  have hpass := passes_advance h fun ch hch => by rw [List.eq_of_mem_replicate hch]; rfl
  rw [hskip]
  exact ⟨hpass, hpass.rest_eq h⟩

/-- What stands at a cursor is of no kind that the characters there do not begin with. -/
lemma current_of_halts (h : c.rest = rest) (hrest : Halts p rest) (hend : p '\x00' = false) :
    p c.current = false := by
  cases rest with
  | nil => rw [current_eq_nul h, hend]
  | cons ch rest => rw [current_eq h, hrest ch rest rfl]

lemma skipComment_eq (h : c.current ≠ '#') : c.skipComment = c := by
  rw [skipComment, if_neg h]

/-! ## Places behind each other -/

/-- What remains at a cursor is the end of a text. -/
def Within (c : Cursor) (cs : List Char) : Prop := c.rest <:+ cs

namespace Within

lemma advance (h : c.Within cs) (n : Nat) : (c.advance n).Within cs := by
  unfold Within
  rw [rest_advance]
  exact (List.drop_suffix n c.rest).trans h

lemma next (h : c.Within cs) : c.next.Within cs := h.advance 1

lemma span (h : c.Within cs) (p : Char → Bool) : (c.span p).2.Within cs := h.advance _

lemma skip (h : c.Within cs) (p : Char → Bool) : (c.skip p).Within cs := h.span p

lemma skipSpaces (h : c.Within cs) : c.skipSpaces.Within cs := h.skip _

lemma skipComment (h : c.Within cs) : c.skipComment.Within cs := by
  unfold Cursor.skipComment
  split
  · exact h.skip _
  · exact h

lemma lineBreak (h : c.Within cs) : c.lineBreak.2.Within cs := by
  unfold Cursor.lineBreak
  split
  · exact h.advance 2
  · split
    · exact h.next
    · split
      · exact h.next
      · exact h
  · exact h

end Within

/-- The characters of a kind at a cursor stand in the text. -/
lemma isInfix_span (h : c.Within cs) (p : Char → Bool) : (c.span p).1 <:+: cs := by
  have hbegins : c.rest.takeWhile p <+: c.rest := List.takeWhile_prefix p
  exact hbegins.isInfix.trans h.isInfix

end Cursor

end StockFlow.Yaml
