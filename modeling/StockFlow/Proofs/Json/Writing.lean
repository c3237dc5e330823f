import Mathlib.Data.Nat.Digits.Defs
import StockFlow.Json.Writer
import StockFlow.Proofs.Json.Reading
/-!
# Writing JSON texts

The writer writes a value that JSON has as the text of a tree that stands for it
(`exists_tree_of_isJson`). A code point is written as one piece, a whole number as its digits without
needless zeros, and between the items of a collection stand a comma and the beginning of a line.
-/

namespace StockFlow

/-! ## Values that JSON has -/

/-- A value that JSON has: nothing but the absent value, truth values, whole numbers that are not too
long, finite numbers, texts, lists, and mappings whose keys are different texts. -/
inductive Datum.IsJson : Datum → Prop where
  | null : IsJson .null
  | bool (b : Bool) : IsJson (.bool b)
  | int (n : Int) (short : n.natAbs < Nat.pow 10 maxDigits) : IsJson (.int n)
  | float (x : Binary64) (finite : x.isFinite = true)
      (printed : Json.readNumber x.text = .ok (.float x, [])) : IsJson (.float x)
  | text (s : Text) : IsJson (.text s)
  | list (items : List Datum) (parts : ∀ item ∈ items, IsJson item) : IsJson (.list items)
  | map (entries : List (Atom × Datum)) (distinct : (entries.map Prod.fst).Nodup)
      (keyed : ∀ entry ∈ entries, ∃ key : Text, entry.1 = .text key)
      (parts : ∀ entry ∈ entries, IsJson entry.2) : IsJson (.map entries)

namespace Json

/-! ## Texts -/

/-- A control character is written with four hexadecimal digits, and is no half of a pair. -/
lemma hexQuad?_hexadecimal : ∀ n < 0x20,
    hexadecimal 4 n = ['0', '0', Nat.digitChar (n / 16), Nat.digitChar (n % 16)] ∧
      hexQuad? (.char '0') (.char '0') (.char (Nat.digitChar (n / 16)))
        (.char (Nat.digitChar (n % 16))) = some n ∧ isHighSurrogate n = false := by
  decide

/-- Every code point is written as a piece that stands for it and that is no half of a pair. -/
lemma exists_piece (c : CodePoint) :
    ∃ p : Piece, p.text = writePoint c ∧ p.point = c ∧ ∀ q, p.isPair q = false := by
  have hshort : ∀ letter c : Char, shortEscape? letter = some c →
      ∃ p : Piece, p.text = Text.ofChars ['\\', letter] ∧ p.point = .char c ∧
        ∀ q, p.isPair q = false :=
    fun letter c h => ⟨.short letter c h, rfl, rfl, fun _ => rfl⟩
  cases c with
  | surrogate offset =>
    have hnumber : 0x20 ≤ (CodePoint.surrogate offset).number := by
      simp only [CodePoint.number, CodePoint.firstSurrogate]
      omega
    exact ⟨.raw (.surrogate offset) ⟨by simp, by simp, hnumber⟩, rfl, rfl, fun _ => rfl⟩
  | char c =>
    unfold writePoint writeChar
    dsimp only
    split
    · next h => exact h ▸ hshort '"' '"' (by decide)
    split
    · next h => exact h ▸ hshort '\\' '\\' (by decide)
    split
    · next h => exact h ▸ hshort 'n' '\n' (by decide)
    split
    · next h => exact h ▸ hshort 'r' '\r' (by decide)
    split
    · next h => exact h ▸ hshort 't' '\t' (by decide)
    split
    · next h => exact h ▸ hshort 'b' '\x08' (by decide)
    split
    · next h => exact h ▸ hshort 'f' '\x0c' (by decide)
    split
    · next h =>
      obtain ⟨hdigits, hhex, hhigh⟩ := hexQuad?_hexadecimal c.toNat h
      refine ⟨.code ⟨_, _, _, _, c.toNat, hhex⟩, ?_, ?_, ?_⟩
      · rw [hdigits]
        rfl
      · exact CodePoint.ofNumber_number (.char c)
      · rintro (_ | _ | _)
        · rfl
        · rfl
        · simp [Piece.isPair, hhigh]
    · next hquote hslash _ _ _ _ _ hcontrol =>
      refine ⟨.raw (.char c) ⟨?_, ?_, ?_⟩, rfl, rfl, fun _ => rfl⟩
      · simpa using hquote
      · simpa using hslash
      · simpa [CodePoint.number] using hcontrol

/-- A text is written as pieces that stand for it. -/
lemma exists_pieces (s : Text) : ∃ pieces, quotedText pieces = writeText s ∧ points pieces = s := by
  induction s with
  | nil => exact ⟨[], rfl, rfl⟩
  | cons c s ih =>
    obtain ⟨pieces, hpieces, hs⟩ := ih
    obtain ⟨p, hp, hc, hpair⟩ := exists_piece c
    have htail : closedText pieces = s.flatMap writePoint ++ [.char '"'] :=
      (List.cons.inj hpieces).2
    refine ⟨p :: pieces, ?_, ?_⟩
    · rw [quotedText, closedText_cons, htail, hp, writeText, List.flatMap_cons, List.append_assoc]
    · rw [points_cons fun q _ _ => hpair q, hc, hs]

/-! ## Numbers -/

lemma digitsValue_eq (cs : List Char) : digitsValue cs = Nat.ofDigitChars 10 cs 0 := by
  unfold digitsValue positional Nat.ofDigitChars
  rw [List.foldl_map]
  rfl

/-- The digits of a number begin with zero only if it is zero. -/
lemma toDigits_eq_of_head?_eq (n : Nat) :
    (Nat.toDigits 10 n).head? = some '0' → Nat.toDigits 10 n = ['0'] := by
  induction n using Nat.strongRecOn with
  | ind n ih =>
    rw [Nat.toDigits_eq_if (by decide)]
    split
    · intro h
      simpa using h
    · next hn =>
      intro h
      rw [List.head?_append_of_ne_nil _ Nat.toDigits_ne_nil] at h
      have hzero := ih (n / 10) (by omega) h
      have hvalue : Nat.ofDigitChars 10 (Nat.toDigits 10 (n / 10)) 0 = n / 10 :=
        Nat.ofDigitChars_ten_toDigits
      rw [hzero] at hvalue
      have : Nat.ofDigitChars 10 ['0'] 0 = 0 := by decide
      omega

/-- A number has no more digits than whole numerals may have if it is below the power of ten. -/
lemma length_toDigits_le_iff {n : Nat} :
    (Nat.toDigits 10 n).length ≤ maxDigits ↔ n < Nat.pow 10 maxDigits := by
  have hall : ∀ k, 0 < k → ((Nat.toDigits 10 n).length ≤ k ↔ n < Nat.pow 10 k) :=
    fun _ hk => Nat.length_toDigits_le_iff (by decide) hk
  exact hall maxDigits (by decide)

lemma digitsValue_toDigits (n : Nat) : digitsValue (Nat.toDigits 10 n) = n := by
  rw [digitsValue_eq, Nat.ofDigitChars_ten_toDigits]

lemma isDigit_of_mem_toDigits {n : Nat} : ∀ c ∈ Nat.toDigits 10 n, c.isDigit = true :=
  fun _ hc => Nat.isDigit_of_mem_toDigits (by decide) (by decide) hc

/-- The characters of a whole number. -/
lemma toList_toString_int (n : Int) :
    (toString n).toList = (if n < 0 then ['-'] else []) ++ Nat.toDigits 10 n.natAbs := by
  change n.repr.toList = _
  cases n with
  | ofNat m => 
    rw [if_neg (by simp)]
    simp [Int.repr, Nat.repr_eq_ofList_toDigits]
  | negSucc m => 
    rw [if_pos (Int.negSucc_lt_zero m)]
    simp [Int.repr, Nat.repr_eq_ofList_toDigits]

/-- A whole number that is not too long is written as a number that stands for it. -/
lemma exists_numeral_of_int {n : Int} (h : n.natAbs < Nat.pow 10 maxDigits) :
    ∃ m : Numeral, writeInt n = .ok m.text ∧ m.value = .int n := by
  refine ⟨⟨decide (n < 0), Nat.toDigits 10 n.natAbs, [], none, Nat.toDigits_ne_nil,
    isDigit_of_mem_toDigits, toDigits_eq_of_head?_eq _, by simp,
    fun _ _ => length_toDigits_le_iff.mpr h⟩, ?_, ?_⟩
  · unfold writeInt intText?
    rw [if_pos h]
    dsimp only
    unfold Numeral.text Numeral.chars Text.ofString
    rw [toList_toString_int]
    simp [fractionChars, exponentChars]
  · simp only [Numeral.value, List.isEmpty_nil, Option.isNone_none, and_self, if_true,
      digitsValue_toDigits, decide_eq_true_eq]
    congr 2
    split <;> omega

/-! ## Values -/

lemma join_cons_cons (separator s t : Text) (rest : List Text) :
    Text.join separator (s :: t :: rest) = s ++ (separator ++ Text.join separator (t :: rest)) := by
  simp [Text.join, List.intercalate, List.intersperse]

/-- The items of trees with the same white space between any two. -/
def Items.ofTrees (between last : Space) : Tree → List Tree → Items
  | item, [] => .last item last
  | item, next :: rest => .more item .none between (ofTrees between last next rest)

/-- The entries of labelled trees with the same white space between any two. -/
def Pairs.ofTrees (between last : Space) : Label × Tree → List (Label × Tree) → Pairs
  | pair, [] => .last pair.1 pair.2 last
  | pair, next :: rest => .more pair.1 pair.2 .none between (ofTrees between last next rest)

/-- How a labelled tree is written. -/
def pairText (pair : Label × Tree) : Text := pair.1.text ++ pair.2.text

/-- What a labelled tree stands for. -/
def pairValue (pair : Label × Tree) : Atom × Datum := (.text (points pair.1.key), pair.2.value)

variable (between last : Space)

lemma Items.values_ofTrees (item : Tree) (rest : List Tree) :
    (Items.ofTrees between last item rest).values = (item :: rest).map Tree.value := by
  induction rest generalizing item with
  | nil => rfl
  | cons next rest ih =>
    rw [Items.ofTrees, Items.values, ih, List.map_cons, List.map_cons, List.map_cons]

lemma Items.text_ofTrees (item : Tree) (rest : List Tree) :
    (Items.ofTrees between last item rest).text =
      Text.join (.char ',' :: between.text) ((item :: rest).map Tree.text) ++
        (last.text ++ [.char ']']) := by
  induction rest generalizing item with
  | nil => simp [Items.ofTrees, Items.text, Text.join, List.intercalate]
  | cons next rest ih =>
    rw [Items.ofTrees, Items.text, ih]
    simp [join_cons_cons, Space.none]

lemma Pairs.values_ofTrees (pair : Label × Tree) (rest : List (Label × Tree)) :
    (Pairs.ofTrees between last pair rest).values = (pair :: rest).map pairValue := by
  induction rest generalizing pair with
  | nil => rfl
  | cons next rest ih =>
    rw [Pairs.ofTrees, Pairs.values, ih, List.map_cons, List.map_cons, List.map_cons]
    rfl

lemma Pairs.text_ofTrees (pair : Label × Tree) (rest : List (Label × Tree)) :
    (Pairs.ofTrees between last pair rest).text =
      Text.join (.char ',' :: between.text) ((pair :: rest).map pairText) ++
        (last.text ++ [.char '\x7d']) := by
  induction rest generalizing pair with
  | nil => simp [Pairs.ofTrees, Pairs.text, pairText, Text.join, List.intercalate]
  | cons next rest ih =>
    rw [Pairs.ofTrees, Pairs.text, ih]
    simp [join_cons_cons, Space.none, pairText]

omit between last

/-- The beginning of a line is white space. -/
lemma exists_newLine (indent : Option Nat) (depth : Nat) :
    ∃ s : Space, newLine indent depth = s.text := by
  refine ⟨⟨newLine indent depth, ?_⟩, rfl⟩
  unfold newLine
  cases indent with
  | none => simp
  | some width =>
    intro c hc
    rcases List.mem_cons.mp hc with rfl | hc
    · rfl
    · rw [List.eq_of_mem_replicate hc]
      rfl

/-- Between two items stands a comma with white space behind it. -/
lemma exists_separator (indent : Option Nat) (depth : Nat) :
    ∃ s : Space, separator indent ++ newLine indent depth = .char ',' :: s.text := by
  cases indent with
  | none => exact ⟨⟨[.char ' '], by simp [CodePoint.isCharWith, isSpace]⟩, rfl⟩
  | some width =>
    obtain ⟨s, hs⟩ := exists_newLine (some width) depth
    exact ⟨s, by rw [hs]; rfl⟩

/-- The items of a list between brackets are written as a list. -/
lemma exists_list (indent : Option Nat) (depth : Nat) (trees : List Tree) :
    ∃ t : Tree, t.text = bracketed indent depth '[' ']' (trees.map Tree.text) ∧
      t.value = .list (trees.map Tree.value) := by
  cases trees with
  | nil => exact ⟨.emptyList .none, rfl, rfl⟩
  | cons item rest =>
    obtain ⟨first, hfirst⟩ := exists_newLine indent (depth + 1)
    obtain ⟨last, hlast⟩ := exists_newLine indent depth
    obtain ⟨between, hbetween⟩ := exists_separator indent (depth + 1)
    refine ⟨.list first (.ofTrees between last item rest), ?_, ?_⟩
    · rw [Tree.text, Items.text_ofTrees, bracketed, if_neg (by simp), hbetween, hfirst, hlast]
      simp only [List.append_assoc]
    · rw [Tree.value, Items.values_ofTrees]

/-- The entries of a mapping between braces are written as a mapping. -/
lemma exists_map (indent : Option Nat) (depth : Nat) (pairs : List (Label × Tree)) :
    ∃ t : Tree, t.text = bracketed indent depth '\x7b' '\x7d' (pairs.map pairText) ∧
      t.value = .map (Entries.ofPairs (pairs.map pairValue)) := by
  cases pairs with
  | nil => exact ⟨.emptyMap .none, rfl, rfl⟩
  | cons pair rest =>
    obtain ⟨first, hfirst⟩ := exists_newLine indent (depth + 1)
    obtain ⟨last, hlast⟩ := exists_newLine indent depth
    obtain ⟨between, hbetween⟩ := exists_separator indent (depth + 1)
    refine ⟨.map first (.ofTrees between last pair rest), ?_, ?_⟩
    · rw [Tree.text, Pairs.text_ofTrees, bracketed, if_neg (by simp), hbetween, hfirst, hlast]
      simp only [List.append_assoc]
    · rw [Tree.value, Pairs.values_ofTrees]

/-- Whatever is written as trees is written as items. -/
lemma exists_writeItems {indent : Option Nat} {depth : Nat} {items : List Datum}
    (h : ∀ item ∈ items, ∃ t : Tree, write indent depth item = .ok t.text ∧ t.value = item) :
    ∃ trees : List Tree, writeItems indent depth items = .ok (trees.map Tree.text) ∧
      trees.map Tree.value = items := by
  induction items with
  | nil => exact ⟨[], rfl, rfl⟩
  | cons item items ih =>
    obtain ⟨⟨t, ht, hvalue⟩, hrest⟩ := List.forall_mem_cons.mp h
    obtain ⟨trees, htrees, hvalues⟩ := ih hrest
    refine ⟨t :: trees, ?_, by rw [List.map_cons, hvalue, hvalues]⟩
    rw [writeItems]
    exact Outcome.bind_eq_ok_iff.mpr ⟨_, ht, Outcome.bind_eq_ok_iff.mpr ⟨_, htrees, rfl⟩⟩

/-- Under keys that are texts, whatever is written as trees is written as entries. -/
lemma exists_writeEntries {indent : Option Nat} {depth : Nat} {entries : List (Atom × Datum)}
    (h : ∀ entry ∈ entries, ∃ (key : Text) (t : Tree), entry = (.text key, t.value) ∧
      write indent depth entry.2 = .ok t.text) :
    ∃ pairs : List (Label × Tree), writeEntries indent depth entries = .ok (pairs.map pairText) ∧
      pairs.map pairValue = entries := by
  induction entries with
  | nil => exact ⟨[], rfl, rfl⟩
  | cons entry entries ih =>
    obtain ⟨⟨key, t, rfl, ht⟩, hrest⟩ := List.forall_mem_cons.mp h
    obtain ⟨pairs, hpairs, hvalues⟩ := ih hrest
    obtain ⟨pieces, hpieces, hkey⟩ := exists_pieces key
    let label : Label := ⟨pieces, .none, ⟨[.char ' '], by simp [CodePoint.isCharWith, isSpace]⟩⟩
    refine ⟨(label, t) :: pairs, ?_, ?_⟩
    · rw [writeEntries]
      refine Outcome.bind_eq_ok_iff.mpr ⟨writeText key, rfl, ?_⟩
      refine Outcome.bind_eq_ok_iff.mpr ⟨_, ht, Outcome.bind_eq_ok_iff.mpr ⟨_, hpairs, ?_⟩⟩
      have hlabel : label.text = writeText key ++ Text.ofString ": " := by
        rw [Label.text, hpieces]
        rfl
      rw [List.map_cons, pairText, hlabel]
      rfl
    · rw [List.map_cons, hvalues, pairValue, hkey]

/-- Entries under different texts are all kept. -/
lemma ofPairs_eq_self {entries : List (Atom × Datum)} (hdistinct : (entries.map Prod.fst).Nodup)
    (hkeyed : ∀ entry ∈ entries, ∃ key : Text, entry.1 = .text key) :
    Entries.ofPairs entries = entries := by
  have hinsert : ∀ (before : Entries) (key : Text) (value : Datum),
      Atom.text key ∉ before.map Prod.fst →
      before.insert (.text key) value = before ++ [(.text key, value)] := by
    intro before key value hnew
    induction before with
    | nil => rfl
    | cons entry before ih =>
      rw [List.map_cons, List.mem_cons, not_or] at hnew
      have hkey : ¬entry.1.sameKey (.text key) = true := by
        rw [Atom.sameKey_text_iff]
        exact fun heq => hnew.1 heq.symm
      rw [Entries.insert, if_neg hkey, ih hnew.2, List.cons_append]
  have hfold : ∀ before : Entries, (before.map Prod.fst ++ entries.map Prod.fst).Nodup →
      entries.foldl (fun entries pair => entries.insert pair.1 pair.2) before =
        before ++ entries := by
    clear hdistinct
    induction entries with
    | nil => simp
    | cons entry entries ih =>
      intro before hdistinct
      obtain ⟨⟨key, hkey⟩, hkeyed⟩ := List.forall_mem_cons.mp hkeyed
      have hnew : Atom.text key ∉ before.map Prod.fst := by
        rw [← hkey]
        exact fun hmem =>
          (List.nodup_append.mp hdistinct).2.2 _ hmem _ List.mem_cons_self rfl
      rw [List.foldl_cons, hkey, hinsert _ _ _ hnew, ← hkey, ih hkeyed]
      · rw [List.append_assoc, List.singleton_append]
      · simpa using hdistinct
  exact hfold [] hdistinct

/-- **Values are written as their trees.**  A value that JSON has is written as the text of a tree
that stands for it, whatever the indent and at whatever depth. -/
theorem exists_tree_of_isJson {d : Datum} (h : d.IsJson) (indent : Option Nat) (depth : Nat) :
    ∃ t : Tree, write indent depth d = .ok t.text ∧ t.value = d := by
  induction h generalizing depth with
  | null => exact ⟨.word ⟨"null", .null, by simp [names]⟩, rfl, rfl⟩
  | bool b =>
    cases b with
    | true => exact ⟨.word ⟨"true", .bool true, by simp [names]⟩, rfl, rfl⟩
    | false => exact ⟨.word ⟨"false", .bool false, by simp [names]⟩, rfl, rfl⟩
  | int n short =>
    obtain ⟨m, hm, hvalue⟩ := exists_numeral_of_int short
    exact ⟨.number m, hm, hvalue⟩
  | float x finite printed =>
    obtain ⟨m, hm, hvalue⟩ := exists_numeral_of_readNumber printed
    rw [List.append_nil] at hm
    refine ⟨.number m, ?_, hvalue⟩
    rw [write, writeAtom, Tree.text, ← hm]
    cases x with
    | nan => cases finite
    | infinity negative => cases finite
    | finite negative mantissa exponent canonical => rfl
  | text s =>
    obtain ⟨pieces, hpieces, hs⟩ := exists_pieces s
    exact ⟨.string pieces, congrArg Except.ok hpieces.symm, congrArg Datum.text hs⟩
  | list items parts ih =>
    obtain ⟨trees, htrees, hvalues⟩ := exists_writeItems fun item hitem => ih item hitem (depth + 1)
    obtain ⟨t, ht, hvalue⟩ := exists_list indent depth trees
    refine ⟨t, ?_, by rw [hvalue, hvalues]⟩
    rw [write, ht]
    exact Outcome.bind_eq_ok_iff.mpr ⟨_, htrees, rfl⟩
  | map entries distinct keyed parts ih =>
    have hentries : ∀ entry ∈ entries, ∃ (key : Text) (t : Tree), entry = (.text key, t.value) ∧
        write indent (depth + 1) entry.2 = .ok t.text := by
      intro entry hentry
      obtain ⟨key, hkey⟩ := keyed entry hentry
      obtain ⟨t, ht, hvalue⟩ := ih entry hentry (depth + 1)
      exact ⟨key, t, Prod.ext hkey hvalue.symm, ht⟩
    obtain ⟨pairs, hpairs, hvalues⟩ := exists_writeEntries hentries
    obtain ⟨t, ht, hvalue⟩ := exists_map indent depth pairs
    refine ⟨t, ?_, ?_⟩
    · rw [write, ht]
      exact Outcome.bind_eq_ok_iff.mpr ⟨_, hpairs, rfl⟩
    · rw [hvalue, hvalues, ofPairs_eq_self distinct keyed]

end Json

end StockFlow
