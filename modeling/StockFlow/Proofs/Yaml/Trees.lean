import StockFlow.Proofs.Yaml.Tokens
/-!
# Tokens of syntax trees

A portable JSON text is cut into the tokens of its syntax tree, which has no other white space than
spaces and line ends between them (`Lexer.tokens_of_isPortable`). The lexer follows the tree, by
recursion on it.
-/

namespace StockFlow

/-! ## The tokens of a tree -/

namespace Json

open Yaml (Token)

mutual

/-- The tokens of a value. -/
def Tree.tokens : Tree → List Token
  | .word w => [.scalar w.text true]
  | .number n => [.scalar n.text true]
  | .string pieces => [.scalar (points pieces) false]
  | .emptyList _ => [.flowSequenceStart, .flowSequenceEnd]
  | .list _ items => .flowSequenceStart :: items.tokens
  | .emptyMap _ => [.flowMappingStart, .flowMappingEnd]
  | .map _ pairs => .flowMappingStart :: pairs.tokens

/-- The tokens of items, with the closing bracket. -/
def Items.tokens : Items → List Token
  | .last item _ => item.tokens ++ [.flowSequenceEnd]
  | .more item _ _ rest => item.tokens ++ .flowEntry :: rest.tokens

/-- The tokens of entries, with the closing brace. -/
def Pairs.tokens : Pairs → List Token
  | .last label value _ =>
    [.key, .scalar (points label.key) false, .value] ++ (value.tokens ++ [.flowMappingEnd])
  | .more label value _ _ rest =>
    [.key, .scalar (points label.key) false, .value] ++ (value.tokens ++ .flowEntry :: rest.tokens)

end

end Json

namespace Yaml

open Json (Tree Items Pairs Space Word Numeral)

namespace Lexer

/-- Portable white space is white space of texts of any format. -/
lemma isPad_of_isPortable {s : Space} (h : s.IsPortable) :
    ∀ ch ∈ s.text.chars, isPad ch = true := by
  intro ch hch
  obtain ⟨c, hc, hchar⟩ := List.mem_filterMap.mp hch
  cases c with
  | surrogate offset => cases hchar
  | char ch' =>
    cases hchar
    have hblank : Json.isSpace ch = true := s.blank _ hc
    have htab : ch ≠ '\t' := by
      rintro rfl
      exact h hc
    simpa [Json.isSpace, isPad, htab] using hblank

lemma beginsPlain_numeral (n : Numeral) : BeginsPlain n.chars := by
  obtain ⟨d, ds, hwhole⟩ := List.exists_cons_of_ne_nil n.nonempty
  have hd := n.whole_decimal d (by simp [hwhole])
  rw [Numeral.chars, hwhole]
  split
  · exact ⟨'-', _, rfl, .inr ⟨rfl, d, _, rfl, hd⟩⟩
  · exact ⟨d, _, rfl, .inl (Bool.or_eq_true_iff.mpr (.inr hd))⟩

lemma exists_chars_word {w : Word} (hw : w.IsPortable) : ∃ cs, w.text = .ofChars cs ∧
    BeginsPlain cs ∧ ∀ ch ∈ cs, isSolid ch = true := by
  obtain ⟨text, value, named⟩ := w
  simp only [Json.names, List.mem_cons, List.not_mem_nil, or_false, Prod.mk.injEq] at named
  rcases named with ⟨rfl, rfl⟩ | ⟨rfl, rfl⟩ | ⟨rfl, rfl⟩ | ⟨rfl, rfl⟩ | ⟨rfl, rfl⟩ | ⟨rfl, rfl⟩
  · exact ⟨"null".toList, rfl, ⟨_, _, rfl, .inl (by decide)⟩,
      List.all_eq_true.mp (by decide)⟩
  · exact ⟨"true".toList, rfl, ⟨_, _, rfl, .inl (by decide)⟩,
      List.all_eq_true.mp (by decide)⟩
  · exact ⟨"false".toList, rfl, ⟨_, _, rfl, .inl (by decide)⟩,
      List.all_eq_true.mp (by decide)⟩
  all_goals exact absurd rfl (hw _)

lemma endsScalar_of_ne_zero {level : Nat} {ch : Char} (hlevel : level ≠ 0)
    (hch : ch = ',' ∨ ch = ']' ∨ ch = '\x7d') (rest : List Char) :
    EndsScalar (level != 0) (ch :: rest) := by
  rintro _ _ heq
  cases heq
  exact ⟨by simpa using hlevel, hch⟩

mutual

/-- The tokens of a value are read, with some of the white space behind it. -/
theorem exists_emits_tree {l : Lexer} {pad after tail : List Char} (t : Tree) (ht : t.IsPortable)
    (hflow : l.IsFlow)
    (h : l.cursor.rest = pad ++ (t.text.chars ++ (after ++ tail)))
    (hpad : ∀ ch ∈ pad, isPad ch = true) (hafter : ∀ ch ∈ after, isPad ch = true)
    (htail : EndsScalar (l.level != 0) tail) :
    ∃ l', l.Emits t.tokens l' ∧ l'.level = l.level ∧
      ∃ pad', l'.cursor.rest = pad' ++ tail ∧ ∀ ch ∈ pad', isPad ch = true := by
  cases t with
  | word w =>
    obtain ⟨cs, hcs, hbegins, hsolid⟩ := exists_chars_word ht
    rw [Tree.text, hcs, Text.chars_ofChars] at h
    rw [Tree.tokens, hcs]
    exact exists_emits_plain hbegins hsolid hflow h hpad hafter htail
  | number n =>
    rw [Tree.text, Numeral.text, Text.chars_ofChars] at h
    exact exists_emits_plain (beginsPlain_numeral n) (isSolid_of_mem_chars n) hflow h hpad hafter
      htail
  | string pieces =>
    obtain ⟨l', hemits, hlevel, hrest, -⟩ := exists_emits_quoted ht hflow h hpad
    exact ⟨l', hemits, hlevel, after, hrest, hafter⟩
  | emptyList space =>
    have hspace : space.IsPortable := ht
    have htext : (Tree.emptyList space).text.chars ++ (after ++ tail) =
        '[' :: (space.text.chars ++ ']' :: (after ++ tail)) := by simp [Tree.text]
    rw [htext] at h
    obtain ⟨l₁, hemits₁, hlevel₁, hrest₁, -⟩ := exists_emits_openFlow hflow h hpad (.inl ⟨rfl, rfl⟩)
    obtain ⟨l₂, hemits₂, hlevel₂, hrest₂⟩ := exists_emits_closeFlow hemits₁.flow hrest₁
      (isPad_of_isPortable hspace) (.inl ⟨rfl, rfl⟩)
    exact ⟨l₂, hemits₁.trans hemits₂, by omega, after, hrest₂, hafter⟩
  | list before items =>
    obtain ⟨hbefore, hitems⟩ := ht
    have htext : (Tree.list before items).text.chars ++ (after ++ tail) =
        '[' :: (before.text.chars ++ (items.text.chars ++ (after ++ tail))) := by simp [Tree.text]
    rw [htext] at h
    obtain ⟨l₁, hemits₁, hlevel₁, hrest₁, -⟩ := exists_emits_openFlow hflow h hpad (.inl ⟨rfl, rfl⟩)
    obtain ⟨l₂, hemits₂, hlevel₂, hrest₂⟩ := exists_emits_items items hitems hemits₁.flow
      (by omega) hrest₁ (isPad_of_isPortable hbefore)
    exact ⟨l₂, hemits₁.trans hemits₂, by omega, after, hrest₂, hafter⟩
  | emptyMap space =>
    have hspace : space.IsPortable := ht
    have htext : (Tree.emptyMap space).text.chars ++ (after ++ tail) =
        '\x7b' :: (space.text.chars ++ '\x7d' :: (after ++ tail)) := by simp [Tree.text]
    rw [htext] at h
    obtain ⟨l₁, hemits₁, hlevel₁, hrest₁, -⟩ := exists_emits_openFlow hflow h hpad (.inr ⟨rfl, rfl⟩)
    obtain ⟨l₂, hemits₂, hlevel₂, hrest₂⟩ := exists_emits_closeFlow hemits₁.flow hrest₁
      (isPad_of_isPortable hspace) (.inr ⟨rfl, rfl⟩)
    exact ⟨l₂, hemits₁.trans hemits₂, by omega, after, hrest₂, hafter⟩
  | map before pairs =>
    obtain ⟨hbefore, hpairs⟩ := ht
    have htext : (Json.Tree.map before pairs).text.chars ++ (after ++ tail) =
        '\x7b' :: (before.text.chars ++ (pairs.text.chars ++ (after ++ tail))) := by
      simp [Tree.text]
    rw [htext] at h
    obtain ⟨l₁, hemits₁, hlevel₁, hrest₁, hkey₁⟩ :=
      exists_emits_openFlow hflow h hpad (.inr ⟨rfl, rfl⟩)
    obtain ⟨l₂, hemits₂, hlevel₂, hrest₂⟩ := exists_emits_pairs pairs hpairs hemits₁.flow
      (by omega) hkey₁ hrest₁ (isPad_of_isPortable hbefore)
    exact ⟨l₂, hemits₁.trans hemits₂, by omega, after, hrest₂, hafter⟩

/-- The tokens of items are read. -/
theorem exists_emits_items {l : Lexer} {pad rest : List Char} (items : Items)
    (hitems : items.IsPortable) (hflow : l.IsFlow) (hlevel : l.level ≠ 0)
    (h : l.cursor.rest = pad ++ (items.text.chars ++ rest))
    (hpad : ∀ ch ∈ pad, isPad ch = true) :
    ∃ l', l.Emits items.tokens l' ∧ l'.level = l.level - 1 ∧ l'.cursor.rest = rest := by
  cases items with
  | last item after =>
    obtain ⟨hitem, hafter⟩ := hitems
    have htext : (Items.last item after).text.chars ++ rest =
        item.text.chars ++ (after.text.chars ++ ']' :: rest) := by simp [Items.text]
    rw [htext] at h
    obtain ⟨l₁, hemits₁, hlevel₁, pad₁, hrest₁, hpad₁⟩ := exists_emits_tree item hitem hflow h hpad
      (isPad_of_isPortable hafter) (endsScalar_of_ne_zero hlevel (by simp) rest)
    obtain ⟨l₂, hemits₂, hlevel₂, hrest₂⟩ := exists_emits_closeFlow hemits₁.flow hrest₁ hpad₁
      (.inl ⟨rfl, rfl⟩)
    exact ⟨l₂, hemits₁.trans hemits₂, by omega, hrest₂⟩
  | more item after before others =>
    obtain ⟨hitem, hafter, hbefore, hothers⟩ := hitems
    have htext : (Items.more item after before others).text.chars ++ rest =
        item.text.chars ++ (after.text.chars ++ ',' ::
          (before.text.chars ++ (others.text.chars ++ rest))) := by simp [Items.text]
    rw [htext] at h
    obtain ⟨l₁, hemits₁, hlevel₁, pad₁, hrest₁, hpad₁⟩ := exists_emits_tree item hitem hflow h hpad
      (isPad_of_isPortable hafter) (endsScalar_of_ne_zero hlevel (by simp) _)
    obtain ⟨l₂, hemits₂, hlevel₂, hrest₂, -⟩ := exists_emits_comma hemits₁.flow hrest₁ hpad₁
    obtain ⟨l₃, hemits₃, hlevel₃, hrest₃⟩ := exists_emits_items others hothers hemits₂.flow
      (by omega) hrest₂ (isPad_of_isPortable hbefore)
    exact ⟨l₃, hemits₁.trans (hemits₂.trans hemits₃), by omega, hrest₃⟩

/-- The tokens of entries are read. -/
theorem exists_emits_pairs {l : Lexer} {pad rest : List Char} (pairs : Pairs)
    (hpairs : pairs.IsPortable) (hflow : l.IsFlow) (hlevel : l.level ≠ 0)
    (hkey : l.keyAllowed = true)
    (h : l.cursor.rest = pad ++ (pairs.text.chars ++ rest)) (hpad : ∀ ch ∈ pad, isPad ch = true) :
    ∃ l', l.Emits pairs.tokens l' ∧ l'.level = l.level - 1 ∧ l'.cursor.rest = rest := by
  cases pairs with
  | last label value after =>
    obtain ⟨hlabel, hvalue, hafter⟩ := hpairs
    have htext : (Pairs.last label value after).text.chars ++ rest = label.text.chars ++
        (value.text.chars ++ (after.text.chars ++ '\x7d' :: rest)) := by simp [Pairs.text]
    rw [htext] at h
    obtain ⟨l₁, hemits₁, hlevel₁, hrest₁⟩ := exists_emits_label hlabel hflow hlevel hkey h hpad
    obtain ⟨l₂, hemits₂, hlevel₂, pad₂, hrest₂, hpad₂⟩ := exists_emits_tree value hvalue hemits₁.flow
      hrest₁ (isPad_of_isPortable hlabel.after) (isPad_of_isPortable hafter)
      (endsScalar_of_ne_zero (by omega) (by simp) rest)
    obtain ⟨l₃, hemits₃, hlevel₃, hrest₃⟩ := exists_emits_closeFlow hemits₂.flow hrest₂ hpad₂
      (.inr ⟨rfl, rfl⟩)
    exact ⟨l₃, hemits₁.trans (hemits₂.trans hemits₃), by omega, hrest₃⟩
  | more label value after before others =>
    obtain ⟨hlabel, hvalue, hafter, hbefore, hothers⟩ := hpairs
    have htext : (Pairs.more label value after before others).text.chars ++ rest =
        label.text.chars ++ (value.text.chars ++ (after.text.chars ++ ',' ::
          (before.text.chars ++ (others.text.chars ++ rest)))) := by simp [Pairs.text]
    rw [htext] at h
    obtain ⟨l₁, hemits₁, hlevel₁, hrest₁⟩ := exists_emits_label hlabel hflow hlevel hkey h hpad
    obtain ⟨l₂, hemits₂, hlevel₂, pad₂, hrest₂, hpad₂⟩ := exists_emits_tree value hvalue hemits₁.flow
      hrest₁ (isPad_of_isPortable hlabel.after) (isPad_of_isPortable hafter)
      (endsScalar_of_ne_zero (by omega) (by simp) _)
    obtain ⟨l₃, hemits₃, hlevel₃, hrest₃, hkey₃⟩ := exists_emits_comma hemits₂.flow hrest₂ hpad₂
    obtain ⟨l₄, hemits₄, hlevel₄, hrest₄⟩ := exists_emits_pairs others hothers hemits₃.flow
      (by omega) hkey₃ hrest₃ (isPad_of_isPortable hbefore)
    exact ⟨l₄, hemits₁.trans (hemits₂.trans (hemits₃.trans hemits₄)), by omega, hrest₄⟩

end

/-- The end of the text is read, and is the last token. -/
lemma run_pad {l : Lexer} {pad : List Char} {fuel : Nat} (hflow : l.IsFlow)
    (h : l.cursor.rest = pad) (hpad : ∀ ch ∈ pad, isPad ch = true) (hfuel : fuel ≠ 0) :
    run fuel l = (l.tokens.toList ++ [.streamEnd], none) := by
  obtain ⟨fuel, rfl⟩ := Nat.exists_eq_succ_of_ne_zero hfuel
  obtain ⟨l₁, hstands, hcursor, hadvance⟩ :=
    exists_advance_eq hflow (h.trans (List.append_nil pad).symm) hpad Halts.nil
  rw [if_pos (by rfl), streamEnd, unwind_eq hstands.flow, dropPlace_eq hstands.flow] at hadvance
  have hrest : l₁.cursor.rest.isEmpty = true := by rw [hcursor]; rfl
  have hlast : (l₁.tokens.push Token.streamEnd).back? = some Token.streamEnd := by simp
  rw [run_succ, hadvance]
  refine (if_pos ⟨hrest, hlast⟩).trans ?_
  rw [← hstands.tokens, ← Array.toList_push]
  rfl

/-! ## The whole text -/

lemma isAllowed_of_isHeld {ch : Char} (h : Json.isHeld ch = true) : isAllowed ch = true :=
  (Bool.and_eq_true_iff.mp h).1

lemma isAllowed_of_isSolid {ch : Char} (h : isSolid ch = true) : isAllowed ch = true := by
  have := toNat_of_isSolid h
  exact isAllowed_of_isHeld (isHeld_of_ascii (by omega) (by omega))

lemma holds_space {s : Space} (h : s.IsPortable) : s.text.Holds isAllowed := by
  intro c hc
  cases c with
  | surrogate offset => cases s.blank _ hc
  | char ch =>
    have hpad := isPad_of_isPortable h ch (List.mem_filterMap.mpr ⟨_, hc, rfl⟩)
    simp only [isPad, Bool.or_eq_true, beq_iff_eq] at hpad
    rcases hpad with (rfl | rfl) | rfl <;> decide

lemma holds_quoted {pieces : List Json.Piece} (h : Json.ArePortable pieces) :
    (Json.quotedText pieces).Holds isAllowed := by
  have hpiece : ∀ p ∈ pieces, p.text.Holds isAllowed := by
    intro p hp
    have hportable := h.each p hp
    cases p with
    | raw c plain =>
      cases c with
      | surrogate offset => cases hportable
      | char ch => exact Text.holds_cons.mpr ⟨isAllowed_of_isHeld hportable, Text.holds_nil⟩
    | short letter ch escapes =>
      obtain ⟨-, hheld⟩ := quotedEscape?_of_shortEscape? escapes
      exact Text.holds_cons.mpr ⟨by decide, Text.holds_cons.mpr
        ⟨isAllowed_of_isHeld hheld, Text.holds_nil⟩⟩
    | code q =>
      obtain ⟨cs, hcs, -, hheld, -⟩ := exists_chars_quad q
      rw [Json.Piece.text, hcs]
      exact Text.holds_cons.mpr ⟨by decide, Text.holds_cons.mpr ⟨by decide,
        Text.holds_ofChars fun ch hch => isAllowed_of_isHeld (hheld ch hch)⟩⟩
  have hpieces : Text.Holds isAllowed (pieces.flatMap Json.Piece.text) := by
    intro c hc
    obtain ⟨p, hp, hmem⟩ := List.mem_flatMap.mp hc
    exact hpiece p hp c hmem
  simp only [Json.quotedText, Json.closedText, Text.holds_cons, Text.holds_append, Text.holds_nil]
  exact ⟨by decide, hpieces, by decide, trivial⟩

lemma holds_label {label : Json.Label} (h : label.IsPortable) : label.text.Holds isAllowed := by
  have hbefore : label.before.IsPortable := by
    intro htab
    cases h.before _ htab
  simp only [Json.Label.text, Text.holds_append, Text.holds_cons]
  exact ⟨holds_quoted h.key, holds_space hbefore, by decide, holds_space h.after⟩

mutual

/-- A portable value is written with what a YAML text may hold. -/
lemma holds_tree (t : Tree) (h : t.IsPortable) : t.text.Holds isAllowed := by
  cases t with
  | word w =>
    obtain ⟨cs, hcs, -, hsolid⟩ := exists_chars_word h
    rw [Tree.text, hcs]
    exact Text.holds_ofChars fun ch hch => isAllowed_of_isSolid (hsolid ch hch)
  | number n =>
    exact Text.holds_ofChars fun ch hch => isAllowed_of_isSolid (isSolid_of_mem_chars n ch hch)
  | string pieces => exact holds_quoted h
  | emptyList space =>
    simp only [Tree.text, Text.holds_cons, Text.holds_append, Text.holds_nil]
    exact ⟨by decide, holds_space h, by decide, trivial⟩
  | list before items =>
    simp only [Tree.text, Text.holds_cons, Text.holds_append]
    exact ⟨by decide, holds_space h.1, holds_items items h.2⟩
  | emptyMap space =>
    simp only [Tree.text, Text.holds_cons, Text.holds_append, Text.holds_nil]
    exact ⟨by decide, holds_space h, by decide, trivial⟩
  | map before pairs =>
    simp only [Tree.text, Text.holds_cons, Text.holds_append]
    exact ⟨by decide, holds_space h.1, holds_pairs pairs h.2⟩

lemma holds_items (items : Items) (h : items.IsPortable) : items.text.Holds isAllowed := by
  cases items with
  | last item after =>
    simp only [Items.text, Text.holds_cons, Text.holds_append, Text.holds_nil]
    exact ⟨holds_tree item h.1, holds_space h.2, by decide, trivial⟩
  | more item after before rest =>
    obtain ⟨hitem, hafter, hbefore, hrest⟩ := h
    simp only [Items.text, Text.holds_cons, Text.holds_append]
    exact ⟨holds_tree item hitem, holds_space hafter, by decide, holds_space hbefore,
      holds_items rest hrest⟩

lemma holds_pairs (pairs : Pairs) (h : pairs.IsPortable) : pairs.text.Holds isAllowed := by
  cases pairs with
  | last label value after =>
    obtain ⟨hlabel, hvalue, hafter⟩ := h
    simp only [Pairs.text, Text.holds_cons, Text.holds_append, Text.holds_nil]
    exact ⟨holds_label hlabel, holds_tree value hvalue, holds_space hafter, by decide, trivial⟩
  | more label value after before rest =>
    obtain ⟨hlabel, hvalue, hafter, hbefore, hrest⟩ := h
    simp only [Pairs.text, Text.holds_cons, Text.holds_append]
    exact ⟨holds_label hlabel, holds_tree value hvalue, holds_space hafter, by decide,
      holds_space hbefore, holds_pairs rest hrest⟩

end

/-- A portable text is cut into the tokens of its tree. -/
theorem tokens_of_isPortable {before after : Space} {t : Tree} (hbefore : before.IsPortable)
    (ht : t.IsPortable) (hafter : after.IsPortable) :
    Token.ofText (before.text ++ (t.text ++ after.text)) = (t.tokens ++ [.streamEnd], none) := by
  have hholds : Text.Holds isAllowed (before.text ++ (t.text ++ after.text)) := by
    rw [Text.holds_append, Text.holds_append]
    exact ⟨holds_space hbefore, holds_tree t ht, holds_space hafter⟩
  obtain ⟨heq, hallowed⟩ := hholds.eq_ofChars
  have hchars : Text.chars (before.text ++ (t.text ++ after.text)) =
      before.text.chars ++ (t.text.chars ++ (after.text.chars ++ [])) := by simp
  generalize Text.chars (before.text ++ (t.text ++ after.text)) = cs at heq hallowed hchars
  have hmark : (({ rest := cs } : Cursor).current == '\uFEFF') = false := by
    refine Cursor.current_of_halts (p := (· == '\uFEFF')) hchars ?_ (by decide)
    obtain ⟨c, cs', htext, hbegins⟩ := t.exists_text_eq_cons
    cases hspace : before.text.chars with
    | nil =>
      rw [htext]
      refine Halts.cons ?_ _
      simp only [Json.beginsValue, Bool.and_eq_true, bne_iff_ne] at hbegins
      simpa using hbegins.2
    | cons ch pad =>
      refine Halts.cons ?_ _
      have hpad := isPad_of_isPortable hbefore ch (by simp [hspace])
      rw [beq_eq_false_iff_ne]
      rintro rfl
      cases hpad
  rw [heq, Token.ofText, Text.chars?_ofChars]
  dsimp only
  rw [if_pos (List.all_eq_true.mpr hallowed), if_neg (by simpa using hmark)]
  obtain ⟨l', ⟨⟨n, hn, hrun⟩, htokens, hflow⟩, -, pad', hrest, hpad'⟩ :=
    exists_emits_tree (l := { cursor := { rest := cs } }) t ht ⟨rfl, rfl, by simp⟩ hchars
      (isPad_of_isPortable hbefore) (isPad_of_isPortable hafter) (by rintro _ _ ⟨⟩)
  obtain ⟨fuel, hfuel⟩ : ∃ fuel, cs.length + 1 = (fuel + 1) + n := ⟨cs.length - n, by
    have : n + l'.cursor.rest.length ≤ cs.length := hn
    omega⟩
  rw [hfuel, hrun, run_pad hflow (hrest.trans (List.append_nil pad')) hpad' (by simp), htokens]
  rfl

end Lexer

end Yaml

end StockFlow
