import StockFlow.Proofs.Outcome
import StockFlow.Proofs.Yaml.Cursors
import StockFlow.Yaml.Token
/-!
# Failures of tokens

The first stage of reading a YAML text cuts it into tokens. It fails because the text is none, or
because of something that stands in the text: an escape of a number beyond the code points, or a number
of a directive that is too long (`Yaml.TokenFault`). Every function that reads something at a cursor has
a lemma, in the order of the definitions: from a place in the text it comes to another place in it, or
it fails by such a fault (`Yaml.Reads`). Put together they say what ends the tokens
(`Yaml.tokenFault_of_run`).
-/

namespace StockFlow.Yaml

open Outcome

/-- What ends the tokens of a text of the given characters. -/
inductive TokenFault (cs : List Char) : Failure → Prop
  /-- The text is no YAML. -/
  | invalid : TokenFault cs invalid
  /-- An escape between double quotes has a number that no code point has. -/
  | escape {mark : Char} {digits : List Char} {code : Nat} {failure : Failure}
      (occurs : '\\' :: mark :: digits <:+: cs) (count : escapeLength? mark = some digits.length)
      (number : hexNumber? digits = some code) (refused : escapedPoint code = .error failure) :
      TokenFault cs failure
  /-- A number of a directive has too many digits. -/
  | directive {digits : List Char} (occurs : digits <:+: cs) (isDigit : ∀ ch ∈ digits, ch.isDigit)
      (long : maxDigits < digits.length) : TokenFault cs .badValue

variable {α β : Type} {cs : List Char}

/-- What is read ends at a place in the text, or there is a fault. -/
def Reads (cs : List Char) (place : α → Cursor) (x : Except Failure α) : Prop :=
  Meets (fun a => (place a).Within cs) (TokenFault cs) x

section Reads

variable {place : α → Cursor} {place' : β → Cursor}

lemma reads_ok {a : α} (h : (place a).Within cs) : Reads cs place (.ok a) := h

lemma reads_invalid : Reads cs place (.error invalid) := TokenFault.invalid

lemma reads_ite {p : Prop} [Decidable p] {x y : Except Failure α} (hx : Reads cs place x)
    (hy : Reads cs place y) : Reads cs place (if p then x else y) := by
  split
  · exact hx
  · exact hy

lemma Reads.bind {x : Except Failure α} {f : α → Except Failure β} (hx : Reads cs place x)
    (hf : ∀ a, (place a).Within cs → Reads cs place' (f a)) : Reads cs place' (x >>= f) :=
  Meets.bind hx hf

/-- A text that does not meet a condition is no YAML. -/
lemma Reads.guard {p : Prop} [Decidable p] {next : Unit → Except Failure α}
    (h : Reads cs place (next ())) :
    Reads cs place (if p then (throw invalid : Except Failure Unit) >>= next else next ()) := by
  split
  · exact reads_invalid
  · exact h

end Reads

/-! ## Quoted scalars -/

section Scalars

variable {c : Cursor}

lemma reads_quotedBreaks (h : c.Within cs) (fuel : Nat) :
    Reads cs Prod.snd (quotedBreaks fuel c) := by
  induction fuel generalizing c with
  | zero => exact h
  | succ fuel ih =>
    unfold quotedBreaks
    split
    · exact reads_invalid
    · dsimp only
      split
      · exact (ih (h.skip _).lineBreak).bind fun result hresult => reads_ok hresult
      · exact h.skip _

/-- The digits of an escape that is refused stand in the text, behind the backslash and the mark. -/
lemma tokenFault_of_escapedPoint (h : '\\' :: c.rest <:+ cs) {count code : Nat} {failure : Failure}
    (hcount : escapeLength? c.current = some count)
    (hlength : ¬(c.next.rest.take count).length < count)
    (hcode : hexNumber? (c.next.rest.take count) = some code)
    (hrefused : escapedPoint code = .error failure) : TokenFault cs failure := by
  obtain ⟨mark, rest, hrest⟩ : ∃ mark rest, c.rest = mark :: rest := by
    cases hrest : c.rest with
    | nil =>
      rw [Cursor.current_eq_nul hrest] at hcount
      cases hcount
    | cons mark rest => exact ⟨mark, rest, rfl⟩
  have hnext : c.next.rest = rest := by rw [Cursor.rest_next, hrest, List.tail_cons]
  rw [hnext] at hlength hcode
  rw [Cursor.current_eq hrest] at hcount
  have hdigits : (rest.take count).length = count := by
    have hle := List.length_take_le count rest
    omega
  have hbegins : '\\' :: mark :: rest.take count <+: '\\' :: c.rest := by
    rw [hrest, List.prefix_cons_inj, List.prefix_cons_inj]
    exact List.take_prefix count rest
  exact .escape (hbegins.isInfix.trans h.isInfix) (by rw [hcount, hdigits]) hcode hrefused

/-- An escape is refused for its number, if it is one at all. -/
lemma reads_quotedEscape (h : '\\' :: c.rest <:+ cs) (fuel : Nat) :
    Reads cs Prod.snd (quotedEscape fuel c) := by
  have hwithin : c.Within cs := (List.suffix_cons _ _).trans h
  unfold quotedEscape
  split
  · exact hwithin.next
  · split
    · next count hcount =>
      dsimp only
      split
      · exact reads_invalid
      · next hlength =>
        split
        · exact reads_invalid
        · next code hcode =>
          cases hpoint : escapedPoint code with
          | ok point => exact hwithin.next.advance count
          | error failure => exact tokenFault_of_escapedPoint h hcount hlength hcode hpoint
    · split
      · exact (reads_quotedBreaks hwithin.lineBreak fuel).bind fun result hresult => reads_ok hresult
      · exact reads_invalid

/-- A backslash at a cursor stands before what is behind it. -/
lemma suffix_of_current (h : c.Within cs) {ch : Char} (hch : c.current = ch) (hend : ch ≠ '\x00') :
    ch :: c.next.rest <:+ cs := by
  cases hrest : c.rest with
  | nil => exact absurd ((Cursor.current_eq_nul hrest).symm.trans hch).symm hend
  | cons ch' rest =>
    obtain rfl : ch' = ch := (Cursor.current_eq hrest).symm.trans hch
    rw [Cursor.rest_next, hrest, List.tail_cons, ← hrest]
    exact h

lemma reads_quotedChars (h : c.Within cs) (double : Bool) (fuel : Nat) :
    Reads cs Prod.snd (quotedChars double fuel c) := by
  induction fuel generalizing c with
  | zero => exact h
  | succ fuel ih =>
    unfold quotedChars
    dsimp only
    generalize hc' : (c.span fun ch => ch != '\'' && ch != '"' && ch != '\\' && !isBlankOrEnd ch).2 = c'
    have h' : c'.Within cs := hc' ▸ h.span _
    split
    · exact (ih (h'.advance 2)).bind fun result hresult => reads_ok hresult
    · split
      · exact (ih h'.next).bind fun result hresult => reads_ok hresult
      · split
        · next hescape =>
          have hbehind := suffix_of_current h' hescape.2 (by decide)
          refine (reads_quotedEscape hbehind _).bind fun escaped hescaped => ?_
          exact (ih hescaped).bind fun result hresult => reads_ok hresult
        · exact h'

lemma reads_quotedSpaces (h : c.Within cs) (fuel : Nat) :
    Reads cs Prod.snd (quotedSpaces fuel c) := by
  unfold quotedSpaces
  dsimp only
  have h' := h.span fun ch => ch == ' ' || ch == '\t'
  split
  · exact reads_invalid
  · split
    · have hbreaks := reads_quotedBreaks h'.lineBreak fuel
      split
      · next hresult =>
        rw [hresult] at hbreaks
        exact hbreaks
      · next hresult =>
        rw [hresult] at hbreaks
        exact hbreaks
    · exact h'

lemma reads_quotedParts (h : c.Within cs) (quote : Char) (fuel : Nat) :
    Reads cs Prod.snd (quotedParts quote fuel c) := by
  induction fuel generalizing c with
  | zero => exact reads_invalid
  | succ fuel ih =>
    unfold quotedParts
    refine (reads_quotedChars h _ _).bind fun part hpart => ?_
    dsimp only
    split
    · exact hpart.next
    · refine (reads_quotedSpaces hpart _).bind fun spaces hspaces => ?_
      exact (ih hspaces).bind fun result hresult => reads_ok hresult

lemma reads_quotedScalar (h : c.Within cs) : Reads cs Prod.snd (quotedScalar c) :=
  reads_quotedParts h.next _ _

/-! ## Plain and block scalars -/

lemma within_plainBreaks (h : c.Within cs) (fuel : Nat) : (plainBreaks fuel c).2.Within cs := by
  induction fuel generalizing c with
  | zero => exact h
  | succ fuel ih =>
    unfold plainBreaks
    dsimp only
    split
    · exact ih h.next
    · split
      · split
        · exact h.lineBreak
        · exact ih h.lineBreak
      · exact h

lemma within_plainSpaces (h : c.Within cs) (fuel : Nat) : (plainSpaces fuel c).2.1.Within cs := by
  have h' := h.span (· == ' ')
  have hbreaks := within_plainBreaks h'.lineBreak fuel
  unfold plainSpaces
  dsimp only
  split
  · split
    · exact h'.lineBreak
    · split
      · next heq =>
        rw [heq] at hbreaks
        exact hbreaks
      · next heq =>
        rw [heq] at hbreaks
        exact hbreaks
  · exact h'

lemma within_plainParts (h : c.Within cs) (inFlow : Bool) (indent : Int) (fuel : Nat)
    (spaces : List Char) (newLine : Bool) :
    (plainParts inFlow indent fuel c spaces newLine).2.1.Within cs := by
  induction fuel generalizing c spaces newLine with
  | zero => exact h
  | succ fuel ih =>
    unfold plainParts
    dsimp only
    have h' := within_plainSpaces (h.advance (plainChars inFlow c.rest).length) (fuel + 1)
    split
    · exact h
    · split
      · exact h
      · split
        · exact h'
        · exact ih h' _ _

lemma within_plainScalar (h : c.Within cs) (inFlow : Bool) (indent : Int) :
    (plainScalar inFlow indent c).2.1.Within cs :=
  within_plainParts h _ _ _ _ _

lemma within_blockIndentation (h : c.Within cs) (fuel deepest : Nat) :
    (blockIndentation fuel c deepest).2.2.Within cs := by
  induction fuel generalizing c deepest with
  | zero => exact h
  | succ fuel ih =>
    unfold blockIndentation
    dsimp only
    split
    · exact ih h.next _
    · split
      · exact ih h.lineBreak _
      · exact h

lemma within_blockBreaks (h : c.Within cs) (indent fuel : Nat) :
    (blockBreaks indent fuel c).2.Within cs := by
  induction fuel generalizing c with
  | zero => exact h
  | succ fuel ih =>
    have h' : (skipIndent indent c).Within cs := h.advance _
    unfold blockBreaks
    dsimp only
    split
    · exact ih h'.lineBreak
    · exact h'

lemma within_blockLines (h : c.Within cs) (foldLines : Bool) (indent fuel : Nat)
    (lineBreak breaks : List Char) :
    (blockLines foldLines indent fuel c lineBreak breaks).2.2.2.Within cs := by
  induction fuel generalizing c lineBreak breaks with
  | zero => exact h
  | succ fuel ih =>
    unfold blockLines
    dsimp only
    split
    · exact ih (within_blockBreaks (h.span _).lineBreak _ _) _ _
    · exact h

lemma reads_blockHeader (h : c.Within cs) : Reads cs (fun header => header.2.2) (blockHeader c) := by
  unfold blockHeader
  split
  next chomping increment c' hsigns =>
  have h' : c'.Within cs := by
    split at hsigns
    · split at hsigns <;> cases hsigns
      · exact h.advance 2
      · exact h.next
    · split at hsigns
      · split at hsigns <;> cases hsigns
        · exact h.advance 2
        · exact h.next
      · cases hsigns
        exact h
  exact .guard (.guard (.guard h'.skipSpaces.skipComment.lineBreak))

lemma reads_blockScalar (h : c.Within cs) (foldLines : Bool) (indent : Int) :
    Reads cs Prod.snd (blockScalar foldLines indent c) := by
  unfold blockScalar
  refine (reads_blockHeader h.next).bind fun header hheader => ?_
  obtain ⟨chomping, increment, c'⟩ := header
  cases increment with
  | none =>
    dsimp only
    exact reads_ok (within_blockLines (within_blockIndentation hheader _ _) _ _ _ _ _)
  | some n =>
    dsimp only
    exact reads_ok (within_blockLines (within_blockBreaks hheader _ _) _ _ _ _ _)

end Scalars

/-! ## Tokens -/

namespace Lexer

variable {l : Lexer} {c : Cursor}

lemma cursor_closeBlocks (column : Int) (outer : List Int) (l : Lexer) :
    (closeBlocks column outer l).cursor = l.cursor := by
  induction outer generalizing l with
  | nil => rfl
  | cons indent outer ih =>
    unfold closeBlocks
    split
    · exact ih _
    · rfl

@[simp]
lemma cursor_unwind (l : Lexer) (column : Int) : (l.unwind column).cursor = l.cursor := by
  unfold unwind
  split
  · exact cursor_closeBlocks _ _ _
  · rfl

@[simp]
lemma cursor_openBlock (l : Lexer) (column : Nat) (start : Token) (position : Nat) :
    (l.openBlock column start position).cursor = l.cursor := by
  unfold openBlock
  split <;> rfl

lemma within_skipToToken (h : l.cursor.Within cs) (fuel : Nat) :
    (skipToToken fuel l).cursor.Within cs := by
  induction fuel generalizing l with
  | zero => exact h
  | succ fuel ih =>
    unfold skipToToken
    dsimp only
    split
    · exact ih h.skipSpaces.skipComment.lineBreak
    · exact h.skipSpaces.skipComment

lemma reads_dropStale (h : l.cursor.Within cs) : Reads cs cursor l.dropStale := by
  unfold dropStale
  split
  · exact reads_invalid
  · exact h

lemma reads_dropPlace (h : l.cursor.Within cs) : Reads cs cursor l.dropPlace := by
  unfold dropPlace
  split
  · exact reads_invalid
  · exact h

lemma reads_keepPlace (h : l.cursor.Within cs) : Reads cs cursor l.keepPlace := by
  unfold keepPlace
  split
  · exact (reads_dropPlace h).bind fun l' hl' => reads_ok hl'
  · exact h

lemma reads_streamEnd (h : l.cursor.Within cs) : Reads cs cursor l.streamEnd := by
  unfold streamEnd
  refine (reads_dropPlace ?_).bind fun l' hl' => reads_ok hl'
  rwa [cursor_unwind]

/-- A number of a directive is refused for its digits, which stand in the text. -/
lemma reads_directiveNumber (h : c.Within cs) : Reads cs Prod.snd (directiveNumber c) := by
  unfold directiveNumber
  dsimp only
  split
  · exact reads_invalid
  · split
    · next hlong =>
      refine TokenFault.directive (c.isInfix_span h _) (fun ch hch => ?_) hlong
      exact List.all_eq_true.mp List.all_takeWhile ch hch
    · exact h.span _

lemma reads_tagBytes (h : c.Within cs) (fuel : Nat) (bytes : List UInt8) :
    Reads cs Prod.snd (tagText.tagBytes fuel c bytes) := by
  induction fuel generalizing c bytes with
  | zero => exact h
  | succ fuel ih =>
    unfold tagText.tagBytes
    split
    · split
      · exact ih (h.advance 3) _
      · exact reads_invalid
    · exact h

lemma reads_tagText (h : c.Within cs) (fuel : Nat) (text : List Char) :
    Reads cs Prod.snd (tagText fuel c text) := by
  induction fuel generalizing c text with
  | zero => exact h
  | succ fuel ih =>
    unfold tagText
    dsimp only
    split
    · refine (reads_tagBytes (h.span _) _ _).bind fun result hresult => ?_
      split
      · exact ih hresult _
      · exact reads_invalid
    · exact h.span _

lemma reads_tagSuffix (h : c.Within cs) : Reads cs Prod.snd (tagSuffix c) := by
  unfold tagSuffix
  refine (reads_tagText h _ _).bind fun result hresult => ?_
  exact .guard hresult

lemma reads_tagHandle (h : c.Within cs) : Reads cs Prod.snd (tagHandle c) := by
  unfold tagHandle
  refine .guard ?_
  dsimp only
  split
  · exact (h.next.span _).next
  · split
    · exact h.next.span _
    · exact reads_invalid

lemma reads_version (h : c.Within cs) : Reads cs Prod.snd (version c) := by
  unfold version
  refine (reads_directiveNumber h.skipSpaces).bind fun major hmajor => .guard ?_
  refine (reads_directiveNumber hmajor.next).bind fun minor hminor => .guard ?_
  exact hminor

lemma reads_handleDirective (h : c.Within cs) : Reads cs Prod.snd (handleDirective c) := by
  unfold handleDirective
  refine (reads_tagHandle h.skipSpaces).bind fun handle hhandle => .guard ?_
  refine (reads_tagSuffix hhandle.skipSpaces).bind fun expansion hexpansion => .guard ?_
  exact hexpansion

lemma reads_directive (h : l.cursor.Within cs) : Reads cs cursor l.directive := by
  unfold directive
  refine (reads_dropPlace (by rwa [cursor_unwind])).bind fun l' hl' => ?_
  have hname : (l'.cursor.next.span isWordChar).2.Within cs := hl'.next.span _
  split
  next name c hspan =>
  rw [hspan] at hname
  refine .guard (.guard ?_)
  beta_reduce
  extract_lets finish
  have hfinish : ∀ found : Directive × Cursor, found.2.Within cs → Reads cs cursor (finish found) :=
    fun found hfound => .guard hfound.skipSpaces.skipComment.lineBreak
  split
  · exact (reads_version hname).bind hfinish
  · split
    · exact (reads_handleDirective hname).bind hfinish
    · exact Reads.bind (reads_ok (hname.skip _)) hfinish

lemma reads_separator (h : l.cursor.Within cs) (t : Token) : Reads cs cursor (l.separator t) := by
  unfold separator
  refine (reads_dropPlace (by rwa [cursor_unwind])).bind fun l' hl' => reads_ok ?_
  exact hl'.advance 3

lemma reads_openFlow (h : l.cursor.Within cs) (t : Token) : Reads cs cursor (l.openFlow t) :=
  (reads_keepPlace h).bind fun _ hl' => reads_ok hl'.next

lemma reads_closeFlow (h : l.cursor.Within cs) (t : Token) : Reads cs cursor (l.closeFlow t) :=
  (reads_dropPlace h).bind fun _ hl' => reads_ok hl'.next

lemma reads_flowEntry (h : l.cursor.Within cs) : Reads cs cursor l.flowEntry :=
  (reads_dropPlace h).bind fun _ hl' => reads_ok hl'.next

lemma reads_blockEntry (h : l.cursor.Within cs) : Reads cs cursor l.blockEntry := by
  unfold blockEntry
  refine .guard ((reads_dropPlace ?_).bind fun l' hl' => reads_ok hl'.next)
  split
  · rwa [cursor_openBlock]
  · exact h

lemma reads_explicitKey (h : l.cursor.Within cs) : Reads cs cursor l.explicitKey := by
  unfold explicitKey
  refine .guard ((reads_dropPlace ?_).bind fun l' hl' => reads_ok hl'.next)
  split
  · rwa [cursor_openBlock]
  · exact h

lemma reads_value (h : l.cursor.Within cs) : Reads cs cursor l.value := by
  unfold value
  split
  · next place hplace =>
    refine reads_ok (Cursor.Within.next ?_)
    split
    · rwa [cursor_openBlock]
    · exact h
  · refine .guard ((reads_dropPlace ?_).bind fun l' hl' => reads_ok hl'.next)
    split
    · rwa [cursor_openBlock]
    · exact h

lemma reads_name (h : l.cursor.Within cs) (make : String → Token) :
    Reads cs cursor (l.name make) := by
  unfold name
  refine (reads_keepPlace h).bind fun l' hl' => .guard (.guard ?_)
  exact hl'.next.span _

lemma reads_tag (h : l.cursor.Within cs) : Reads cs cursor l.tag := by
  unfold tag
  refine (reads_keepPlace h).bind fun l' hl' => ?_
  extract_lets c finish
  have hfinish : ∀ found : Token × Cursor, found.2.Within cs → Reads cs cursor (finish found) :=
    fun found hfound => .guard hfound
  split
  · refine (reads_tagSuffix (hl'.advance 2)).bind fun suffix hsuffix => .guard ?_
    exact Reads.bind (reads_ok hsuffix.next) hfinish
  · split
    · exact Reads.bind (reads_ok hl'.next) hfinish
    · split
      · refine (reads_tagHandle hl').bind fun handle hhandle => ?_
        refine (reads_tagSuffix hhandle).bind fun suffix hsuffix => ?_
        exact Reads.bind (reads_ok hsuffix) hfinish
      · refine (reads_tagSuffix hl'.next).bind fun suffix hsuffix => ?_
        exact Reads.bind (reads_ok hsuffix) hfinish

lemma reads_block (h : l.cursor.Within cs) (foldLines : Bool) : Reads cs cursor (l.block foldLines) := by
  unfold block
  refine (reads_dropPlace h).bind fun l' hl' => ?_
  exact (reads_blockScalar hl' _ _).bind fun result hresult => reads_ok hresult

lemma reads_quoted (h : l.cursor.Within cs) : Reads cs cursor l.quoted := by
  unfold quoted
  refine (reads_keepPlace h).bind fun l' hl' => ?_
  exact (reads_quotedScalar hl').bind fun result hresult => reads_ok hresult

lemma reads_plain (h : l.cursor.Within cs) : Reads cs cursor l.plain :=
  (reads_keepPlace h).bind fun _ hl' => reads_ok (within_plainScalar hl' _ _)

lemma reads_scan (h : l.cursor.Within cs) : Reads cs cursor l.scan := by
  unfold scan
  refine reads_ite (reads_directive h) ?_
  refine reads_ite (reads_separator h _) (reads_ite (reads_separator h _) ?_)
  refine reads_ite (reads_openFlow h _) (reads_ite (reads_openFlow h _) ?_)
  refine reads_ite (reads_closeFlow h _) (reads_ite (reads_closeFlow h _) ?_)
  refine reads_ite (reads_flowEntry h) (reads_ite (reads_blockEntry h) ?_)
  refine reads_ite (reads_explicitKey h) (reads_ite (reads_value h) ?_)
  refine reads_ite (reads_name h _) (reads_ite (reads_name h _) ?_)
  refine reads_ite (reads_tag h) (reads_ite (reads_block h _) (reads_ite (reads_block h _) ?_))
  exact reads_ite (reads_quoted h) (reads_ite (reads_plain h) reads_invalid)

lemma reads_advance (h : l.cursor.Within cs) : Reads cs cursor l.advance := by
  unfold advance
  refine (reads_dropStale (within_skipToToken h _)).bind fun l' hl' => ?_
  dsimp only
  split
  · exact reads_streamEnd (by rwa [cursor_unwind])
  · exact reads_scan (by rwa [cursor_unwind])

/-- Tokens are read one step at a time. -/
lemma run_succ (fuel : Nat) (l : Lexer) :
    run (fuel + 1) l =
      match l.advance with
      | .error failure => (l.settled, some failure)
      | .ok next =>
        if next.cursor.rest.isEmpty ∧ next.tokens.back? = some .streamEnd then
          (next.tokens.toList, none)
        else run fuel next := by rfl

/-- What ends the tokens is a fault of the text. -/
lemma tokenFault_of_run (h : l.cursor.Within cs) {fuel : Nat} {failure : Failure}
    (hrun : (run fuel l).2 = some failure) : TokenFault cs failure := by
  induction fuel generalizing l with
  | zero =>
    cases hrun
    exact .invalid
  | succ fuel ih =>
    have hadvance := reads_advance h
    rw [run_succ] at hrun
    split at hrun
    · next failure' hfailure =>
      rw [hfailure] at hadvance
      cases hrun
      exact hadvance
    · next next hnext =>
      rw [hnext] at hadvance
      split at hrun
      · cases hrun
      · exact ih hadvance hrun

end Lexer

/-- What ends the tokens of a text is a fault of it. -/
lemma tokenFault_of_ofText {text : Text} {failure : Failure}
    (h : (Token.ofText text).2 = some failure) :
    failure = invalid ∨ ∃ cs, text = .ofChars cs ∧ TokenFault cs failure := by
  unfold Token.ofText at h
  split at h
  · cases h
    exact Or.inl rfl
  · next cs hcs =>
    split at h
    · refine Or.inr ⟨cs, Text.eq_ofChars_of_chars? hcs, ?_⟩
      have hstart : Cursor.Within ⟨cs, 0, 0, 0⟩ cs := List.suffix_refl cs
      refine Lexer.tokenFault_of_run ?_ h
      split
      · exact hstart.next
      · exact hstart
    · cases h
      exact Or.inl rfl

end StockFlow.Yaml
