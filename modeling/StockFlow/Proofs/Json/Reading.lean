import StockFlow.Proofs.Json.Numerals
/-!
# Reading JSON texts

The texts that are read are those of the syntax trees with white space around them, and what is read
is the value of the tree (`parse_eq_ok_iff`). Every function of the reader reads what a part of a tree
is written as, by recursion on the tree, and whatever it reads is such a part, by induction on the
fuel.
-/

namespace StockFlow.Json

variable {rest : Text}

/-! ## Names -/

lemma readName?_append (w : Word) (rest : Text) :
    readName? (w.text ++ rest) = some (w.value, rest) := by
  obtain ⟨text, value, named⟩ := w
  simp only [names, List.mem_cons, Prod.mk.injEq, List.not_mem_nil, or_false] at named
  rcases named with ⟨rfl, rfl⟩ | ⟨rfl, rfl⟩ | ⟨rfl, rfl⟩ | ⟨rfl, rfl⟩ | ⟨rfl, rfl⟩ | ⟨rfl, rfl⟩
  all_goals rfl

/-- Whether a value may begin with a character. -/
def beginsValue (c : Char) : Bool := !isSpace c && c != ']' && c != '\uFEFF'

lemma isSpace_eq_false_of_beginsValue {c : Char} (h : beginsValue c = true) :
    isSpace c = false := by
  simp only [beginsValue, Bool.and_eq_true, Bool.not_eq_true'] at h
  exact h.1.1

/-- A name begins with two characters that are no digits. -/
lemma Word.exists_text_eq_cons (w : Word) : ∃ c c' cs, w.text = .char c :: .char c' :: cs ∧
    (beginsValue c = true ∧ c ≠ '"' ∧ c ≠ '[' ∧ c ≠ '\x7b') ∧
    c.isDigit = false ∧ c'.isDigit = false := by
  obtain ⟨text, value, named⟩ := w
  simp only [names, List.mem_cons, Prod.mk.injEq, List.not_mem_nil, or_false] at named
  rcases named with ⟨rfl, rfl⟩ | ⟨rfl, rfl⟩ | ⟨rfl, rfl⟩ | ⟨rfl, rfl⟩ | ⟨rfl, rfl⟩ | ⟨rfl, rfl⟩
  all_goals exact ⟨_, _, _, rfl, by decide, by decide, by decide⟩

/-- Whatever the reader of names reads is a name. -/
lemma exists_word_of_readName? {cs : Text} {d : Datum} (h : readName? cs = some (d, rest)) :
    ∃ w : Word, cs = w.text ++ rest ∧ w.value = d := by
  obtain ⟨⟨name, value⟩, hmem, hentry⟩ := List.exists_of_findSome?_eq_some h
  dsimp only at hentry
  split at hentry
  · next hprefix =>
    cases hentry
    obtain ⟨rest', rfl⟩ := List.isPrefixOf_iff_prefix.mp hprefix
    exact ⟨⟨name, d, hmem⟩, by rw [List.drop_left], rfl⟩
  · cases hentry

lemma readName?_numeral (n : Numeral) (rest : Text) : readName? (n.text ++ rest) = none := by
  by_contra hne
  obtain ⟨⟨d, rest'⟩, hsome⟩ := Option.ne_none_iff_exists'.mp hne
  obtain ⟨w, hw, -⟩ := exists_word_of_readName? hsome
  obtain ⟨c, c', cs, hcs, -, hc, hc'⟩ := w.exists_text_eq_cons
  obtain ⟨d, ds, hd, hds⟩ := n.exists_unsignedText_eq_cons
  rw [n.text_eq, hcs, hds] at hw
  split at hw
  · simp only [List.cons_append, List.cons.injEq, CodePoint.char.injEq] at hw
    rw [← hw.2.1, hd] at hc'
    cases hc'
  · simp only [List.cons_append, List.cons.injEq, CodePoint.char.injEq] at hw
    rw [← hw.1, hd] at hc
    cases hc

/-! ## Values -/

/-- What a number begins with. -/
lemma Numeral.exists_text_eq_cons (n : Numeral) : ∃ c cs, n.text = .char c :: cs ∧
    beginsValue c = true ∧ c ≠ '"' ∧ c ≠ '[' ∧ c ≠ '\x7b' := by
  obtain ⟨d, ds, hd, hds⟩ := n.exists_unsignedText_eq_cons
  rw [n.text_eq]
  split
  · exact ⟨'-', _, rfl, by decide⟩
  · have hne : ∀ c, c.isDigit = false → d ≠ c := by
      rintro c hc rfl
      rw [hd] at hc
      cases hc
    refine ⟨d, ds, hds, ?_, hne _ (by decide), hne _ (by decide), hne _ (by decide)⟩
    simp [beginsValue, isSpace, hne]

/-- A value begins with a character that is no white space. -/
lemma Tree.exists_text_eq_cons (t : Tree) :
    ∃ c cs, t.text = .char c :: cs ∧ beginsValue c = true := by
  cases t with
  | word w =>
    obtain ⟨c, c', cs, hcs, ⟨hbegins, -⟩, -⟩ := w.exists_text_eq_cons
    exact ⟨c, _, hcs, hbegins⟩
  | number n =>
    obtain ⟨c, cs, hcs, hbegins, -⟩ := n.exists_text_eq_cons
    exact ⟨c, cs, hcs, hbegins⟩
  | string pieces => exact ⟨'"', _, rfl, by decide⟩
  | emptyList space => exact ⟨'[', _, rfl, by decide⟩
  | list before items => exact ⟨'[', _, rfl, by decide⟩
  | emptyMap space => exact ⟨'\x7b', _, rfl, by decide⟩
  | map before pairs => exact ⟨'\x7b', _, rfl, by decide⟩


lemma Tree.stops_isSpace (t : Tree) (rest : Text) : Stops isSpace (t.text ++ rest) := by
  obtain ⟨c, cs, hcs, hbegins⟩ := t.exists_text_eq_cons
  rw [hcs]
  exact Stops.cons (isSpace_eq_false_of_beginsValue hbegins) _

/-- Items begin with a value. -/
lemma Items.exists_text_eq_cons (items : Items) :
    ∃ c cs, items.text = .char c :: cs ∧ beginsValue c = true := by
  cases items with
  | last item after =>
    obtain ⟨c, cs, hcs, hbegins⟩ := item.exists_text_eq_cons
    exact ⟨c, _, by rw [Items.text, hcs]; rfl, hbegins⟩
  | more item after before rest =>
    obtain ⟨c, cs, hcs, hbegins⟩ := item.exists_text_eq_cons
    exact ⟨c, _, by rw [Items.text, hcs]; rfl, hbegins⟩

lemma Items.stops_isSpace (items : Items) (rest : Text) : Stops isSpace (items.text ++ rest) := by
  obtain ⟨c, cs, hcs, hbegins⟩ := items.exists_text_eq_cons
  rw [hcs]
  exact Stops.cons (isSpace_eq_false_of_beginsValue hbegins) _

/-- White space is none of the characters of another kind. -/
lemma Stops.space {p : Char → Bool} (hp : ∀ c, isSpace c = true → p c = false) (s : Space)
    (h : Stops p rest) : Stops p (s.text ++ rest) := by
  obtain ⟨text, blank⟩ := s
  cases text with
  | nil => exact h
  | cons c cs =>
    cases c with
    | surrogate offset =>
      rintro c' cs' heq
      cases heq
      rfl
    | char c => exact Stops.cons (hp c (blank _ List.mem_cons_self)) _

/-- White space continues no number. -/
lemma continuesNumber_of_isSpace (c : Char) (h : isSpace c = true) : continuesNumber c = false := by
  simp only [isSpace, Bool.or_eq_true, beq_iff_eq] at h
  rcases h with ((rfl | rfl) | rfl) | rfl <;> decide

/-- What begins with none of the marks of texts and collections is a name or a number. -/
lemma readValue_of_plain {c : Char} (h : c ≠ '"' ∧ c ≠ '[' ∧ c ≠ '\x7b') (fuel : Nat) (cs : Text) :
    readValue (fuel + 1) (.char c :: cs) =
      match readName? (.char c :: cs) with
      | some result => .ok result
      | none => readNumber (.char c :: cs) := by
  obtain ⟨hquote, hbracket, hbrace⟩ := h
  unfold readValue
  split
  · next heq =>
    cases heq
    exact absurd rfl hquote
  · next heq =>
    cases heq
    exact absurd rfl hbracket
  · next heq =>
    cases heq
    exact absurd rfl hbrace
  · rfl

/-- A value takes at least one character. -/
lemma Tree.length_text_pos (t : Tree) : 0 < t.text.length := by
  obtain ⟨c, cs, hcs, -⟩ := t.exists_text_eq_cons
  simp [hcs]

/-- Entries begin with a quote. -/
lemma Pairs.exists_text_eq_cons (pairs : Pairs) : ∃ cs, pairs.text = .char '"' :: cs := by
  cases pairs with
  | last label value after => exact ⟨_, rfl⟩
  | more label value after before rest => exact ⟨_, rfl⟩

mutual

/-- The reader of values reads a tree that no character continues. -/
theorem Tree.readValue_append (fuel : Nat) (rest : Text) (h : Stops continuesNumber rest) :
    ∀ t : Tree, 2 * t.text.length ≤ fuel + 1 →
      readValue (fuel + 1) (t.text ++ rest) = .ok (t.value, rest)
  | .word w, _ => by
    obtain ⟨c, c', cs, hcs, ⟨-, hplain⟩, -⟩ := w.exists_text_eq_cons
    have hname := readName?_append w rest
    rw [Tree.text]
    rw [hcs, List.cons_append] at hname ⊢
    rw [readValue_of_plain hplain, hname]
    rfl
  | .number n, _ => by
    obtain ⟨c, cs, hcs, -, hplain⟩ := n.exists_text_eq_cons
    have hname := readName?_numeral n rest
    have hnumber := readNumber_text_append n h
    rw [Tree.text]
    rw [hcs, List.cons_append] at hname hnumber ⊢
    rw [readValue_of_plain hplain, hname]
    exact hnumber
  | .string pieces, _ => by
    rw [Tree.text, quotedText, List.cons_append, readValue, readText_closedText]
    rfl
  | .emptyList space, _ => by
    rw [Tree.text, List.cons_append, readValue, List.append_assoc, List.singleton_append,
      skipSpaces_append space (Stops.cons (by decide) _)]
    rfl
  | .list before items, hfuel => by
    obtain ⟨c, cs, hcs, hbegins⟩ := items.exists_text_eq_cons
    have hspace : isSpace c = false ∧ c ≠ ']' := by
      simp_all [beginsValue]
    have hread := Items.readItems_append fuel rest items
      (by simp [Tree.text] at hfuel; omega)
    rw [hcs, List.cons_append] at hread
    rw [Tree.text, List.cons_append, readValue, List.append_assoc, hcs, List.cons_append,
      skipSpaces_append before (Stops.cons hspace.1 _)]
    split
    · next heq =>
      cases heq
      exact absurd rfl hspace.2
    · exact Outcome.bind_eq_ok_iff.mpr ⟨_, hread, rfl⟩
  | .emptyMap space, hfuel => by
    rw [Tree.text, List.cons_append, readValue, List.append_assoc, List.singleton_append,
      skipSpaces_append space (Stops.cons (by decide) _)]
    rfl
  | .map before pairs, hfuel => by
    obtain ⟨cs, hcs⟩ := pairs.exists_text_eq_cons
    have hread := Pairs.readPairs_append fuel rest pairs
      (by simp [Tree.text] at hfuel; omega)
    rw [hcs, List.cons_append] at hread
    rw [Tree.text, List.cons_append, readValue, List.append_assoc, hcs, List.cons_append,
      skipSpaces_append before (Stops.cons (by decide) _)]
    exact Outcome.bind_eq_ok_iff.mpr ⟨_, hread, rfl⟩

/-- The reader of items reads items up to their bracket. -/
theorem Items.readItems_append (fuel : Nat) (rest : Text) :
    ∀ items : Items, 2 * items.text.length ≤ fuel →
      readItems fuel (items.text ++ rest) = .ok (items.values, rest)
  | .last item after, hfuel => by
    have hlength : 2 * item.text.length + 2 ≤ fuel := by simp [Items.text] at hfuel; omega
    obtain ⟨fuel, rfl⟩ : ∃ n, fuel = n + 2 := ⟨fuel - 2, by omega⟩
    have hread := Tree.readValue_append fuel (after.text ++ .char ']' :: rest)
      (Stops.space continuesNumber_of_isSpace after (Stops.cons (by decide) _)) item (by omega)
    have hskip : skipSpaces (after.text ++ .char ']' :: rest) = .char ']' :: rest :=
      skipSpaces_append after (Stops.cons (by decide) _)
    rw [Items.text, List.append_assoc, List.append_assoc, List.singleton_append, readItems]
    refine Outcome.bind_eq_ok_iff.mpr ⟨_, hread, ?_⟩
    dsimp only
    rw [hskip]
    rfl
  | .more item after before items, hfuel => by
    have hlength : 2 * item.text.length + 2 * items.text.length + 2 ≤ fuel := by
      simp [Items.text] at hfuel
      omega
    have hpos := item.length_text_pos
    obtain ⟨fuel, rfl⟩ : ∃ n, fuel = n + 2 := ⟨fuel - 2, by omega⟩
    have hread := Tree.readValue_append fuel
      (after.text ++ .char ',' :: (before.text ++ (items.text ++ rest)))
      (Stops.space continuesNumber_of_isSpace after (Stops.cons (by decide) _)) item (by omega)
    have hitems := Items.readItems_append (fuel + 1) rest items (by omega)
    rw [Items.text, List.append_assoc, List.append_assoc, List.cons_append, List.append_assoc,
      readItems]
    refine Outcome.bind_eq_ok_iff.mpr ⟨_, hread, ?_⟩
    dsimp only
    rw [skipSpaces_append after (Stops.cons (by decide) _)]
    refine Outcome.bind_eq_ok_iff.mpr ⟨(items.values, rest), ?_, rfl⟩
    rw [skipSpaces_append before (items.stops_isSpace rest)]
    exact hitems

/-- The reader of entries reads entries up to their brace. -/
theorem Pairs.readPairs_append (fuel : Nat) (rest : Text) :
    ∀ pairs : Pairs, 2 * pairs.text.length ≤ fuel →
      readPairs fuel (pairs.text ++ rest) = .ok (pairs.values, rest)
  | .last label value after, hfuel => by
    have hlength : 2 * value.text.length + 2 ≤ fuel := by simp [Pairs.text] at hfuel; omega
    obtain ⟨fuel, rfl⟩ : ∃ n, fuel = n + 2 := ⟨fuel - 2, by omega⟩
    have hread := Tree.readValue_append fuel (after.text ++ .char '\x7d' :: rest)
      (Stops.space continuesNumber_of_isSpace after (Stops.cons (by decide) _)) value (by omega)
    have hskip := skipSpaces_append label.after
      (value.stops_isSpace (after.text ++ .char '\x7d' :: rest))
    rw [Pairs.text, Label.text, quotedText]
    simp only [List.cons_append, List.append_assoc, List.nil_append]
    rw [readPairs]
    refine Outcome.bind_eq_ok_iff.mpr ⟨_, readText_closedText label.key _, ?_⟩
    dsimp only
    rw [skipSpaces_append label.before (Stops.cons (by decide) _)]
    refine Outcome.bind_eq_ok_iff.mpr ⟨_, (congrArg _ hskip).trans hread, ?_⟩
    dsimp only
    rw [skipSpaces_append after (Stops.cons (by decide) _)]
    rfl
  | .more label value after before pairs, hfuel => by
    have hlength : 2 * value.text.length + 2 * pairs.text.length + 2 ≤ fuel := by
      simp [Pairs.text] at hfuel
      omega
    have hpos := value.length_text_pos
    obtain ⟨cs, hcs⟩ := pairs.exists_text_eq_cons
    obtain ⟨fuel, rfl⟩ : ∃ n, fuel = n + 2 := ⟨fuel - 2, by omega⟩
    have hread := Tree.readValue_append fuel
      (after.text ++ .char ',' :: (before.text ++ (pairs.text ++ rest)))
      (Stops.space continuesNumber_of_isSpace after (Stops.cons (by decide) _)) value (by omega)
    have hpairs := Pairs.readPairs_append (fuel + 1) rest pairs (by omega)
    have hskip := skipSpaces_append label.after
      (value.stops_isSpace (after.text ++ .char ',' :: (before.text ++ (pairs.text ++ rest))))
    rw [Pairs.text, Label.text, quotedText]
    simp only [List.cons_append, List.append_assoc]
    rw [readPairs]
    refine Outcome.bind_eq_ok_iff.mpr ⟨_, readText_closedText label.key _, ?_⟩
    dsimp only
    rw [skipSpaces_append label.before (Stops.cons (by decide) _)]
    refine Outcome.bind_eq_ok_iff.mpr ⟨_, (congrArg _ hskip).trans hread, ?_⟩
    dsimp only
    rw [skipSpaces_append after (Stops.cons (by decide) _)]
    refine Outcome.bind_eq_ok_iff.mpr ⟨(pairs.values, rest), ?_, rfl⟩
    rw [skipSpaces_append before (by rw [hcs]; exact Stops.cons (by decide) _)]
    exact hpairs

end

/-- What is read with some fuel is a tree. -/
structure ReadsTrees (fuel : Nat) : Prop where
  value : ∀ {cs d rest}, readValue fuel cs = .ok (d, rest) →
    ∃ t : Tree, cs = t.text ++ rest ∧ t.value = d
  items : ∀ {cs values rest}, readItems fuel cs = .ok (values, rest) →
    ∃ items : Items, cs = items.text ++ rest ∧ items.values = values
  pairs : ∀ {cs values rest}, readPairs fuel cs = .ok (values, rest) →
    ∃ pairs : Pairs, cs = pairs.text ++ rest ∧ pairs.values = values

/-- A value is a text, a name, a number, or put together of values that are read with less fuel. -/
lemma ReadsTrees.value_succ {fuel : Nat} (h : ReadsTrees fuel) {cs rest : Text} {d : Datum}
    (hread : readValue (fuel + 1) cs = .ok (d, rest)) :
    ∃ t : Tree, cs = t.text ++ rest ∧ t.value = d := by
  unfold readValue at hread
  split at hread
  · obtain ⟨⟨s, rest'⟩, htext, hok⟩ := Outcome.bind_eq_ok_iff.mp hread
    cases hok
    obtain ⟨pieces, rfl, rfl⟩ := exists_pieces_of_readText htext
    exact ⟨.string pieces, rfl, rfl⟩
  · next cs =>
    obtain ⟨s, hs⟩ := exists_skipSpaces cs
    split at hread
    · next heq =>
      cases hread
      exact ⟨.emptyList s, by rw [hs, heq]; simp [Tree.text], rfl⟩
    · obtain ⟨⟨items, rest'⟩, hitems, hok⟩ := Outcome.bind_eq_ok_iff.mp hread
      cases hok
      obtain ⟨items, hcs, rfl⟩ := h.items hitems
      exact ⟨.list s items, by rw [hs, hcs]; simp [Tree.text], rfl⟩
  · next cs =>
    obtain ⟨s, hs⟩ := exists_skipSpaces cs
    split at hread
    · next heq =>
      cases hread
      exact ⟨.emptyMap s, by rw [hs, heq]; simp [Tree.text], rfl⟩
    · obtain ⟨⟨pairs, rest'⟩, hpairs, hok⟩ := Outcome.bind_eq_ok_iff.mp hread
      cases hok
      obtain ⟨pairs, hcs, rfl⟩ := h.pairs hpairs
      exact ⟨.map s pairs, by rw [hs, hcs]; simp [Tree.text], rfl⟩
  · split at hread
    · next hname =>
      cases hread
      obtain ⟨w, hcs, hvalue⟩ := exists_word_of_readName? hname
      exact ⟨.word w, hcs, hvalue⟩
    · obtain ⟨n, hcs, hvalue⟩ := exists_numeral_of_readNumber hread
      exact ⟨.number n, hcs, hvalue⟩

/-- Items are read with less fuel, the first one and the others. -/
lemma ReadsTrees.items_succ {fuel : Nat} (h : ReadsTrees fuel) {cs rest : Text}
    {values : List Datum} (hread : readItems (fuel + 1) cs = .ok (values, rest)) :
    ∃ items : Items, cs = items.text ++ rest ∧ items.values = values := by
  unfold readItems at hread
  obtain ⟨⟨item, cs'⟩, hitem, hread⟩ := Outcome.bind_eq_ok_iff.mp hread
  dsimp only at hread
  obtain ⟨item, rfl, rfl⟩ := h.value hitem
  obtain ⟨after, hafter⟩ := exists_skipSpaces cs'
  split at hread
  · next heq =>
    cases hread
    exact ⟨.last item after, by rw [hafter, heq]; simp [Items.text], rfl⟩
  · next more heq =>
    obtain ⟨⟨items, rest'⟩, hitems, hok⟩ := Outcome.bind_eq_ok_iff.mp hread
    cases hok
    obtain ⟨before, hbefore⟩ := exists_skipSpaces more
    obtain ⟨items, hcs, rfl⟩ := h.items hitems
    exact ⟨.more item after before items, by rw [hafter, heq, hbefore, hcs]; simp [Items.text], rfl⟩
  · cases hread

/-- Entries are read with less fuel, the first one and the others. -/
lemma ReadsTrees.pairs_succ {fuel : Nat} (h : ReadsTrees fuel) {cs rest : Text}
    {values : List (Atom × Datum)} (hread : readPairs (fuel + 1) cs = .ok (values, rest)) :
    ∃ pairs : Pairs, cs = pairs.text ++ rest ∧ pairs.values = values := by
  unfold readPairs at hread
  split at hread
  · obtain ⟨⟨key, behindKey⟩, hkey, hread⟩ := Outcome.bind_eq_ok_iff.mp hread
    dsimp only at hread
    obtain ⟨key, rfl, rfl⟩ := exists_pieces_of_readText hkey
    obtain ⟨beforeColon, hbeforeColon⟩ := exists_skipSpaces behindKey
    split at hread
    · next behindColon hcolon =>
      obtain ⟨⟨value, behindValue⟩, hvalue, hread⟩ := Outcome.bind_eq_ok_iff.mp hread
      dsimp only at hread
      obtain ⟨afterColon, hafterColon⟩ := exists_skipSpaces behindColon
      obtain ⟨value, hcolonValue, rfl⟩ := h.value hvalue
      obtain ⟨after, hafter⟩ := exists_skipSpaces behindValue
      let label : Label := ⟨key, beforeColon, afterColon⟩
      split at hread
      · next heq =>
        cases hread
        refine ⟨.last label value after, ?_, rfl⟩
        rw [hbeforeColon, hcolon, hafterColon, hcolonValue, hafter, heq]
        simp [Pairs.text, Label.text, quotedText, label]
      · next more heq =>
        obtain ⟨⟨pairs, rest'⟩, hpairs, hok⟩ := Outcome.bind_eq_ok_iff.mp hread
        cases hok
        obtain ⟨before, hbefore⟩ := exists_skipSpaces more
        obtain ⟨pairs, hcs, rfl⟩ := h.pairs hpairs
        refine ⟨.more label value after before pairs, ?_, rfl⟩
        rw [hbeforeColon, hcolon, hafterColon, hcolonValue, hafter, heq, hbefore, hcs]
        simp [Pairs.text, Label.text, quotedText, label]
      · cases hread
    · cases hread
  · cases hread

/-- Whatever is read is a tree. -/
lemma readsTrees (fuel : Nat) : ReadsTrees fuel := by
  induction fuel with
  | zero =>
    constructor
    · intro cs d rest h
      unfold readValue at h
      cases h
    · intro cs items rest h
      unfold readItems at h
      cases h
    · intro cs pairs rest h
      unfold readPairs at h
      cases h
  | succ fuel ih => exact ⟨ih.value_succ, ih.items_succ, ih.pairs_succ⟩

/-- A text is a JSON text of a value if it is the text of a tree of the value, with white space
around it. -/
theorem parse_eq_ok_iff {text : Text} {d : Datum} :
    parse text = .ok d ↔ ∃ (before : Space) (t : Tree) (after : Space),
      text = before.text ++ (t.text ++ after.text) ∧ t.value = d := by
  have hparse : parse text = .ok d ↔ readAll text = .ok d := by
    unfold parse
    split
    · next value hvalue => rw [hvalue]; simp
    · next hfault => rw [hfault]; simp
    · next hfault => rw [hfault]; simp
  rw [hparse]
  constructor
  · intro h
    unfold readAll at h
    split at h
    · cases h
    · obtain ⟨⟨value, rest⟩, hvalue, hok⟩ := Outcome.bind_eq_ok_iff.mp h
      dsimp only at hok
      obtain ⟨before, hbefore⟩ := exists_skipSpaces text
      obtain ⟨t, ht, rfl⟩ := (readsTrees _).value hvalue
      obtain ⟨after, hafter⟩ := exists_skipSpaces rest
      split at hok
      · next hend =>
        cases hok
        refine ⟨before, t, after, ?_, rfl⟩
        rw [hbefore, ht, hafter, hend, List.append_nil]
      · cases hok
  · rintro ⟨before, t, after, rfl, rfl⟩
    have hread := Tree.readValue_append
      (2 * (before.text ++ (t.text ++ after.text)).length + 1) after.text
      (by simpa using Stops.space continuesNumber_of_isSpace after Stops.nil) t (by simp; omega)
    unfold readAll
    split
    · next heq =>
      have hmark : Stops (· == '\uFEFF') (before.text ++ (t.text ++ after.text)) := by
        obtain ⟨c, cs, hcs, hbegins⟩ := t.exists_text_eq_cons
        refine Stops.space (fun c hc => ?_) before ?_
        · simp only [isSpace, Bool.or_eq_true, beq_iff_eq] at hc
          rcases hc with ((rfl | rfl) | rfl) | rfl <;> decide
        · rw [hcs]
          refine Stops.cons ?_ _
          simp_all [beginsValue]
      exact absurd (hmark _ _ heq) (by decide)
    · rw [skipSpaces_append before (t.stops_isSpace _)]
      refine Outcome.bind_eq_ok_iff.mpr ⟨_, hread, ?_⟩
      dsimp only
      have hafter := skipSpaces_append after Stops.nil
      rw [List.append_nil] at hafter
      rw [hafter]
      rfl

end StockFlow.Json
