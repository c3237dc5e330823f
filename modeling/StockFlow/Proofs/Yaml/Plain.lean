import StockFlow.Proofs.Yaml.Cursors
import StockFlow.Yaml.Scalar
/-!
# Reading plain scalars

A plain scalar that has no punctuation of its own is read whole, with all or some of the white space
behind it, and its text is its characters.
-/

namespace StockFlow.Yaml

variable {fuel : Nat} {c : Cursor} {inFlow : Bool} {pad tail cs : List Char}

/-- Whether a character belongs to a plain scalar wherever it stands. -/
def isSolid (ch : Char) : Bool := ch.isAlphanum || ch == '-' || ch == '+' || ch == '.'

/-- Characters that end a plain scalar: none, or those that end an item inside brackets. -/
def EndsScalar (inFlow : Bool) (tail : List Char) : Prop :=
  ∀ ch rest, tail = ch :: rest → inFlow = true ∧ (ch = ',' ∨ ch = ']' ∨ ch = '\x7d')

lemma ne_of_isSolid {ch d : Char} (h : isSolid ch = true) (hd : isSolid d = false) : ch ≠ d := by
  rintro rfl
  rw [hd] at h
  cases h

lemma isBlankOrEnd_of_isSolid {ch : Char} (h : isSolid ch = true) : isBlankOrEnd ch = false := by
  simp only [isBlankOrEnd, isSpaceOrEnd, isBreakOrEnd, isBreak, Bool.or_eq_false_iff,
    beq_eq_false_iff_ne]
  refine ⟨?_, ?_, ?_, ⟨⟨⟨?_, ?_⟩, ?_⟩, ?_⟩, ?_⟩ <;> exact ne_of_isSolid h (by decide)

lemma endsPlain_of_isSolid {ch : Char} (h : isSolid ch = true) (following : Char) :
    endsPlain inFlow ch following = false := by
  have hpunctuation : ch ≠ ':' ∧ ch ≠ ',' ∧ ch ≠ '?' ∧ ch ≠ '[' ∧ ch ≠ ']' ∧ ch ≠ '\x7b' ∧
      ch ≠ '\x7d' := by
    refine ⟨?_, ?_, ?_, ?_, ?_, ?_, ?_⟩ <;> exact ne_of_isSolid h (by decide)
  simp [endsPlain, isBlankOrEnd_of_isSolid h, hpunctuation]

/-- White space, and what may stand behind it, ends a plain scalar. -/
lemma plainChars_pad (hpad : ∀ ch ∈ pad, isPad ch = true) (htail : EndsScalar inFlow tail) :
    plainChars inFlow (pad ++ tail) = [] := by
  cases pad with
  | nil =>
    cases tail with
    | nil => rfl
    | cons ch tail =>
      obtain ⟨rfl, rfl | rfl | rfl⟩ := htail ch tail rfl <;>
        simp [plainChars, endsPlain]
  | cons ch pad =>
    have hch := (List.forall_mem_cons.mp hpad).1
    simp only [isPad, Bool.or_eq_true, beq_iff_eq] at hch
    have hblank : isBlankOrEnd ch = true := by rcases hch with (rfl | rfl) | rfl <;> rfl
    simp [plainChars, endsPlain, hblank]

/-- Solid characters are the characters of a plain scalar. -/
lemma plainChars_append (hcs : ∀ ch ∈ cs, isSolid ch = true)
    (hpad : ∀ ch ∈ pad, isPad ch = true) (htail : EndsScalar inFlow tail) :
    plainChars inFlow (cs ++ (pad ++ tail)) = cs := by
  induction cs with
  | nil =>
    rw [List.nil_append]
    exact plainChars_pad hpad htail
  | cons ch cs ih =>
    obtain ⟨hch, hcs⟩ := List.forall_mem_cons.mp hcs
    rw [List.cons_append, plainChars, endsPlain_of_isSolid hch, if_neg (by simp), ih hcs]

/-- Behind white space no plain scalar goes on. -/
lemma plainParts_pad (h : c.rest = pad ++ tail) (hpad : ∀ ch ∈ pad, isPad ch = true)
    (htail : EndsScalar inFlow tail) (indent : Int) (spaces : List Char) (newLine : Bool) :
    plainParts inFlow indent fuel c spaces newLine = ([], c, newLine) := by
  cases fuel with
  | zero => rfl
  | succ fuel =>
    rw [plainParts, h, plainChars_pad hpad htail]
    split <;> rfl

lemma EndsScalar.halts (htail : EndsScalar inFlow tail) :
    Halts (fun ch => isPad ch || isBreak ch) tail := by
  rintro ch rest rfl
  obtain ⟨-, rfl | rfl | rfl⟩ := htail ch rest rfl <;> decide

/-- No separator of documents stands at white space. -/
lemma atSeparator_pad (h : c.rest = pad ++ tail) (hpad : ∀ ch ∈ pad, isPad ch = true)
    (htail : EndsScalar inFlow tail) : c.atSeparator = false := by
  have hpeek : c.peek 0 ≠ '-' ∧ c.peek 0 ≠ '.' := by
    rw [Cursor.peek, h]
    cases pad with
    | nil =>
      cases tail with
      | nil => simp
      | cons ch tail => obtain ⟨-, rfl | rfl | rfl⟩ := htail ch tail rfl <;> simp
    | cons ch pad =>
      have hch := (List.forall_mem_cons.mp hpad).1
      simp only [isPad, Bool.or_eq_true, beq_iff_eq] at hch
      rcases hch with (rfl | rfl) | rfl <;> simp
  simp [Cursor.atSeparator, Cursor.atMarks, hpeek]

/-- Empty lines leave nothing but white space behind. -/
lemma exists_plainBreaks (fuel : Nat) (h : c.rest = pad ++ tail)
    (hpad : ∀ ch ∈ pad, isPad ch = true) (htail : EndsScalar inFlow tail) : ∃ breaks c' pad', plainBreaks fuel c = (some breaks, c') ∧
      c'.rest = pad' ++ tail ∧ pad'.length ≤ pad.length ∧ ∀ ch ∈ pad', isPad ch = true := by
  induction fuel generalizing c pad with
  | zero => exact ⟨[], c, pad, rfl, h, Nat.le_refl _, hpad⟩
  | succ fuel ih =>
    rw [plainBreaks]
    cases pad with
    | nil =>
      have hcurrent := Cursor.current_of_halts h htail.halts (by decide)
      simp only [Bool.or_eq_false_iff] at hcurrent
      rw [if_neg (by rintro heq; rw [heq] at hcurrent; simp [isPad] at hcurrent),
        if_neg (by simp [hcurrent.2])]
      exact ⟨[], c, [], rfl, h, Nat.le_refl _, by simp⟩
    | cons ch pad =>
      obtain ⟨hch, hpad⟩ := List.forall_mem_cons.mp hpad
      by_cases hspace : ch = ' '
      · have hnext : c.next.rest = pad ++ tail := by rw [Cursor.rest_next, h]; rfl
        rw [if_pos (by rw [Cursor.current_eq h, hspace])]
        obtain ⟨breaks, c', pad', heq, hrest, hlength, hpad'⟩ := ih hnext hpad
        exact ⟨breaks, c', pad', heq, hrest, Nat.le_succ_of_le hlength, hpad'⟩
      · have hbreak : isBreak ch = true := by
          simp only [isPad, Bool.or_eq_true, beq_iff_eq] at hch
          rcases hch with (rfl | rfl) | rfl
          · exact absurd rfl hspace
          · rfl
          · rfl
        rw [if_neg (by rw [Cursor.current_eq h]; exact hspace),
          if_pos (by rw [Cursor.current_eq h]; exact hbreak)]
        obtain ⟨pad₁, hrest₁, hlength₁, hpad₁⟩ := Cursor.exists_rest_lineBreak h hbreak hpad
          (htail.halts.mono fun ch hch => by simp [hch])
        obtain ⟨breaks, c', pad₂, heq, hrest₂, hlength₂, hpad₂⟩ := ih hrest₁ hpad₁
        refine ⟨c.lineBreak.1 ++ breaks, c', pad₂, ?_, hrest₂, ?_, hpad₂⟩
        · dsimp only
          rw [if_neg (by simp [atSeparator_pad hrest₁ hpad₁ htail]), heq]
          rfl
        · exact Nat.le_succ_of_le (Nat.le_trans hlength₂ hlength₁)

/-- White space behind a plain scalar is passed, at least in part. -/
lemma exists_plainSpaces (fuel : Nat) (h : c.rest = pad ++ tail)
    (hpad : ∀ ch ∈ pad, isPad ch = true) (htail : EndsScalar inFlow tail) : ∃ spaces c' newLine pad',
      plainSpaces fuel c = (spaces, c', newLine) ∧ c'.rest = pad' ++ tail ∧
        pad'.length ≤ pad.length ∧ ∀ ch ∈ pad', isPad ch = true := by
  obtain ⟨n, pad', rfl, hpad', hbreak⟩ := exists_spaces hpad
  rw [List.append_assoc] at h
  have hspaces : ∀ ch ∈ List.replicate n ' ', (ch == ' ') = true := by
    intro ch hch
    rw [List.eq_of_mem_replicate hch]
    rfl
  have hhalts : Halts (· == ' ') (pad' ++ tail) := by
    cases pad' with
    | nil => exact htail.halts.mono fun ch hch => by simp [isPad, hch]
    | cons ch pad' =>
      refine Halts.cons ?_ _
      have hch := hbreak ch pad' rfl
      rw [beq_eq_false_iff_ne]
      rintro rfl
      cases hch
  rw [plainSpaces, Cursor.span_eq h hspaces hhalts]
  have hrest : (c.advance (List.replicate n ' ').length).rest = pad' ++ tail := by
    rw [Cursor.rest_advance, h, List.drop_left]
  generalize c.advance (List.replicate n ' ').length = c at hrest
  dsimp only
  cases pad' with
  | nil =>
    have hcurrent := Cursor.current_of_halts hrest htail.halts (by decide)
    rw [if_neg (by simp_all)]
    exact ⟨_, _, _, [], rfl, hrest, Nat.zero_le _, hpad'⟩
  | cons ch pad' =>
    have hch := hbreak ch pad' rfl
    obtain ⟨pad₁, hrest₁, hlength₁, hpad₁⟩ := Cursor.exists_rest_lineBreak hrest hch
      (List.forall_mem_cons.mp hpad').2 (htail.halts.mono fun ch hch => by simp [hch])
    obtain ⟨breaks, c', pad₂, heq, hrest₂, hlength₂, hpad₂⟩ :=
      exists_plainBreaks fuel hrest₁ hpad₁ htail
    rw [if_pos (by rw [Cursor.current_eq hrest]; exact hch),
      if_neg (by simp [atSeparator_pad hrest₁ hpad₁ htail]), heq]
    refine ⟨_, _, _, pad₂, rfl, hrest₂, ?_, hpad₂⟩
    rw [List.length_append, List.length_cons]
    omega

/-- A plain scalar of solid characters, with white space behind it, is these characters. -/
lemma exists_plainScalar (h : c.rest = cs ++ (pad ++ tail)) (hne : cs ≠ [])
    (hcs : ∀ ch ∈ cs, isSolid ch = true) (hpad : ∀ ch ∈ pad, isPad ch = true)
    (htail : EndsScalar inFlow tail) (indent : Int) : ∃ c' newLine pad',
      plainScalar inFlow indent c = (cs, c', newLine) ∧ c'.rest = pad' ++ tail ∧
        pad'.length ≤ pad.length ∧ ∀ ch ∈ pad', isPad ch = true := by
  obtain ⟨ch, cs', rfl⟩ := List.exists_cons_of_ne_nil hne
  have hcurrent : c.current ≠ '#' := by
    rw [Cursor.current_eq h]
    rintro rfl
    cases hcs '#' (by simp)
  have hbehind : (c.advance (ch :: cs').length).rest = pad ++ tail := by
    rw [Cursor.rest_advance, h, List.drop_left]
  obtain ⟨spaces, c', newLine, pad', heq, hrest, hlength, hpad'⟩ :=
    exists_plainSpaces (c.rest.length + 1) hbehind hpad htail
  refine ⟨c', newLine, pad', ?_, hrest, hlength, hpad'⟩
  have hchars : plainChars inFlow c.rest = ch :: cs' := by
    rw [h, plainChars_append hcs hpad htail]
  unfold plainScalar plainParts
  rw [if_neg hcurrent, hchars]
  dsimp only
  rw [heq, plainParts_pad hrest hpad' htail, if_neg (by simp)]
  dsimp only
  split
  · rfl
  · simp

end StockFlow.Yaml
