import StockFlow.Proofs.Json.Reading
import StockFlow.Yaml.Cursor
/-!
# Portable JSON texts

A JSON text is portable if it keeps to what both formats of documents have in common. Its code points
are characters that a YAML text may hold, and none of them ends a line inside a text. No tab stands
between the tokens. A number with an exponent has a point and the exponent a sign, and all numbers are
finite. No character is written as two escapes. A key stands on one line with its colon, which is no
more than 1024 characters away from its opening quote.
-/

namespace StockFlow

/-- The characters of a text, without its surrogates. -/
def Text.chars (t : Text) : List Char := t.filterMap CodePoint.char?

namespace Text

@[simp]
lemma chars_nil : chars [] = [] := rfl

@[simp]
lemma chars_cons (c : Char) (t : Text) : chars (.char c :: t) = c :: chars t := rfl

@[simp]
lemma chars_append (s t : Text) : chars (s ++ t) = chars s ++ chars t := List.filterMap_append

@[simp]
lemma chars_ofChars (cs : List Char) : chars (ofChars cs) = cs := by
  induction cs with
  | nil => rfl
  | cons c cs ih => exact congrArg (c :: ·) ih

/-- Whether every code point of a text is a character of a kind. -/
def Holds (p : Char → Bool) (t : Text) : Prop := ∀ c ∈ t, c.isCharWith p = true

@[simp]
lemma holds_nil {p : Char → Bool} : Text.Holds p [] := by simp [Holds]

@[simp]
lemma holds_cons {p : Char → Bool} {c : Char} {t : Text} :
    Text.Holds p (.char c :: t) ↔ p c = true ∧ t.Holds p := List.forall_mem_cons

@[simp]
lemma holds_append {p : Char → Bool} {s t : Text} :
    Text.Holds p (s ++ t) ↔ s.Holds p ∧ t.Holds p := List.forall_mem_append

lemma holds_ofChars {p : Char → Bool} {cs : List Char} (h : ∀ c ∈ cs, p c = true) :
    (ofChars cs).Holds p := by
  intro c hc
  obtain ⟨ch, hch, rfl⟩ := List.mem_map.mp hc
  exact h ch hch

/-- A text of characters of a kind is made of its characters. -/
lemma Holds.eq_ofChars {p : Char → Bool} {t : Text} (h : t.Holds p) :
    t = ofChars t.chars ∧ ∀ c ∈ t.chars, p c = true := by
  induction t with
  | nil => exact ⟨rfl, by simp⟩
  | cons c t ih =>
    obtain ⟨hc, ht⟩ := List.forall_mem_cons.mp h
    obtain ⟨heq, hp⟩ := ih ht
    cases c with
    | surrogate offset => cases hc
    | char c => exact ⟨congrArg (CodePoint.char c :: ·) heq, List.forall_mem_cons.mpr ⟨hc, hp⟩⟩

end Text

namespace Json

/-- A text that a YAML text may hold. -/
def isHeld (c : Char) : Bool := Yaml.isAllowed c && !Yaml.isBreak c

/-- White space without tabs. -/
def Space.IsPortable (s : Space) : Prop := .char '\t' ∉ s.text

/-- A name of a value that is no number. -/
def Word.IsPortable (w : Word) : Prop := ∀ x, w.value ≠ .float x

/-- A piece that is an escape, or a character that a YAML text may hold on one line. -/
def Piece.IsPortable : Piece → Prop
  | .raw c _ => c.isCharWith isHeld = true
  | _ => True

/-- Pieces that are portable, none of which are escapes for the halves of one character. -/
structure ArePortable (pieces : List Piece) : Prop where
  each : ∀ p ∈ pieces, p.IsPortable
  apart : pieces.IsChain fun p q => p.isPair q = false

/-- A number whose exponent, if it has one, has a sign and stands behind a point and digits. -/
def Numeral.IsPortable (n : Numeral) : Prop :=
  ∀ e, n.exponent? = some e → n.fraction ≠ [] ∧ e.sign?.isSome = true

/-- A key that stands on one line with its colon, and not too far away from it. -/
structure Label.IsPortable (l : Label) : Prop where
  key : ArePortable l.key
  before : ∀ c ∈ l.before.text, c = .char ' '
  after : l.after.IsPortable
  near : (quotedText l.key).length + l.before.text.length ≤ 1024

mutual

/-- A tree whose parts are portable. -/
def Tree.IsPortable : Tree → Prop
  | .word w => w.IsPortable
  | .number n => n.IsPortable
  | .string pieces => ArePortable pieces
  | .emptyList space => space.IsPortable
  | .list before items => before.IsPortable ∧ items.IsPortable
  | .emptyMap space => space.IsPortable
  | .map before pairs => before.IsPortable ∧ pairs.IsPortable

/-- Items whose parts are portable. -/
def Items.IsPortable : Items → Prop
  | .last item after => item.IsPortable ∧ after.IsPortable
  | .more item after before rest =>
    item.IsPortable ∧ after.IsPortable ∧ before.IsPortable ∧ rest.IsPortable

/-- Entries whose parts are portable. -/
def Pairs.IsPortable : Pairs → Prop
  | .last label value after => label.IsPortable ∧ value.IsPortable ∧ after.IsPortable
  | .more label value after before rest =>
    label.IsPortable ∧ value.IsPortable ∧ after.IsPortable ∧ before.IsPortable ∧ rest.IsPortable

end

/-- The text of a portable tree with portable white space around it. -/
def IsPortable (text : Text) : Prop :=
  ∃ (before : Space) (t : Tree) (after : Space), before.IsPortable ∧ t.IsPortable ∧
    after.IsPortable ∧ text = before.text ++ (t.text ++ after.text)

/-! ## Deciding portability -/

instance (s : Space) : Decidable s.IsPortable := inferInstanceAs (Decidable (_ ∉ s.text))

instance (w : Word) : Decidable w.IsPortable :=
  match hvalue : w.value with
  | .atom (.float x) => .isFalse fun h => h x hvalue
  | .atom .null | .atom (.bool _) | .atom (.int _) | .atom (.text _) | .atom (.bytes _)
  | .atom (.date _) | .atom (.moment _) | .list _ | .map _ | .set _ | .pair _ _ | .knot _ _
  | .strand _ => .isTrue fun _ h => by cases hvalue.symm.trans h

instance : DecidablePred Piece.IsPortable
  | .raw c _ => inferInstanceAs (Decidable (c.isCharWith isHeld = true))
  | .short _ _ _ => inferInstanceAs (Decidable True)
  | .code _ => inferInstanceAs (Decidable True)

instance (pieces : List Piece) : Decidable (ArePortable pieces) :=
  decidable_of_iff
    ((∀ p ∈ pieces, p.IsPortable) ∧ pieces.IsChain fun p q => p.isPair q = false)
    ⟨fun h => ⟨h.1, h.2⟩, fun h => ⟨h.each, h.apart⟩⟩

instance (n : Numeral) : Decidable n.IsPortable :=
  match hexponent : n.exponent? with
  | none => .isTrue fun _ h => by cases hexponent.symm.trans h
  | some e =>
    decidable_of_iff (n.fraction ≠ [] ∧ e.sign?.isSome = true)
      ⟨fun h e' he' => by cases hexponent.symm.trans he'; exact h, fun h => h e hexponent⟩

instance (l : Label) : Decidable l.IsPortable :=
  decidable_of_iff
    (ArePortable l.key ∧ (∀ c ∈ l.before.text, c = .char ' ') ∧ l.after.IsPortable ∧
      (quotedText l.key).length + l.before.text.length ≤ 1024)
    ⟨fun h => ⟨h.1, h.2.1, h.2.2.1, h.2.2.2⟩, fun h => ⟨h.key, h.before, h.after, h.near⟩⟩

mutual

/-- Whether the parts of a tree are portable. -/
def Tree.decidePortable : (t : Tree) → Decidable t.IsPortable
  | .word w => inferInstanceAs (Decidable w.IsPortable)
  | .number n => inferInstanceAs (Decidable n.IsPortable)
  | .string pieces => inferInstanceAs (Decidable (ArePortable pieces))
  | .emptyList space => inferInstanceAs (Decidable space.IsPortable)
  | .list _ items => @instDecidableAnd _ _ _ items.decidePortable
  | .emptyMap space => inferInstanceAs (Decidable space.IsPortable)
  | .map _ pairs => @instDecidableAnd _ _ _ pairs.decidePortable

/-- Whether the parts of items are portable. -/
def Items.decidePortable : (items : Items) → Decidable items.IsPortable
  | .last item _ => @instDecidableAnd _ _ item.decidePortable _
  | .more item _ _ rest =>
    @instDecidableAnd _ _ item.decidePortable
      (@instDecidableAnd _ _ _ (@instDecidableAnd _ _ _ rest.decidePortable))

/-- Whether the parts of entries are portable. -/
def Pairs.decidePortable : (pairs : Pairs) → Decidable pairs.IsPortable
  | .last _ value _ =>
    @instDecidableAnd _ _ _ (@instDecidableAnd _ _ value.decidePortable _)
  | .more _ value _ _ rest =>
    @instDecidableAnd _ _ _ (@instDecidableAnd _ _ value.decidePortable
      (@instDecidableAnd _ _ _ (@instDecidableAnd _ _ _ rest.decidePortable)))

end

instance : DecidablePred Tree.IsPortable := Tree.decidePortable

end Json

end StockFlow
