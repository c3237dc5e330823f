import Mathlib.Data.List.Chain
import Mathlib.Data.Nat.Digits.Defs
import StockFlow.Numeral
/-!
# Whole numerals

The grammar of whole numerals speaks of the characters as a whole: an optional sign, and then decimal
digits of any script, where underscores stand only between digits and never side by side
(`IsWholeNumeral`). The reader goes through the characters one by one and counts the digits at the end.
Both accept the same characters and find the same number in them (`wholeNumeral?_eq_some_iff`).
-/

namespace StockFlow

/-! ## Underscores -/

/-- Whether no underscore stands at an end or beside another one. -/
structure IsGrouped (cs : List Char) : Prop where
  head : cs.head? ≠ some '_'
  last : cs.getLast? ≠ some '_'
  single : cs.IsChain fun c d => c ≠ '_' ∨ d ≠ '_'

namespace IsGrouped

variable {cs : List Char} {c : Char}

/-- What stands in front of a character that is no underscore joins its group. -/
lemma cons_iff (hc : c ≠ '_') (hcs : cs.head? ≠ some '_') : IsGrouped (c :: cs) ↔ IsGrouped cs := by
  have hlast : (c :: cs).getLast? ≠ some '_' ↔ cs.getLast? ≠ some '_' := by
    rw [List.getLast?_cons]
    cases cs.getLast? <;> simp [hc]
  constructor
  · rintro ⟨-, hend, hsingle⟩
    exact ⟨hcs, hlast.mp hend, (List.isChain_cons.mp hsingle).2⟩
  · rintro ⟨-, hend, hsingle⟩
    exact ⟨by simpa using hc, hlast.mpr hend, List.isChain_cons.mpr ⟨fun _ _ => Or.inl hc, hsingle⟩⟩

/-- A character with an underscore behind it is a group of its own, and others have to follow. -/
lemma cons_underscore_iff (hc : c ≠ '_') : IsGrouped (c :: '_' :: cs) ↔ cs ≠ [] ∧ IsGrouped cs := by
  have hlast : (c :: '_' :: cs).getLast? ≠ some '_' ↔ cs ≠ [] ∧ cs.getLast? ≠ some '_' := by
    rw [List.getLast?_cons_cons, List.getLast?_cons]
    cases cs with
    | nil => simp
    | cons d ds => simp [List.getLast?_cons]
  constructor
  · rintro ⟨-, hend, hsingle⟩
    obtain ⟨hne, hend⟩ := hlast.mp hend
    obtain ⟨hnext, hsingle⟩ := List.isChain_cons.mp (List.isChain_cons.mp hsingle).2
    exact ⟨hne, fun hhead => (hnext _ hhead).elim (· rfl) (· rfl), hend, hsingle⟩
  · rintro ⟨hne, hhead, hend, hsingle⟩
    have hbehind : List.IsChain (fun c d => c ≠ '_' ∨ d ≠ '_') ('_' :: cs) := by
      refine List.isChain_cons.mpr ⟨fun d hd => Or.inr ?_, hsingle⟩
      rintro rfl
      exact hhead hd
    exact ⟨by simpa using hc, hlast.mpr ⟨hne, hend⟩,
      List.isChain_cons.mpr ⟨fun _ _ => Or.inl hc, hbehind⟩⟩

/-- There is something besides underscores. -/
lemma filter_ne_nil (h : IsGrouped cs) (hne : cs ≠ []) : cs.filter (· != '_') ≠ [] := by
  obtain ⟨d, ds, rfl⟩ := List.exists_cons_of_ne_nil hne
  have hd : d ≠ '_' := by simpa using h.head
  simp [hd]

/-- Characters without underscores are a single group. -/
lemma of_notMem (h : '_' ∉ cs) : IsGrouped cs := by
  refine ⟨fun hhead => h (List.mem_of_head? hhead), fun hlast => h (List.mem_of_getLast? hlast), ?_⟩
  induction cs with
  | nil => exact .nil
  | cons c cs ih =>
    obtain ⟨hc, hcs⟩ := not_or.mp (mt List.mem_cons.mpr h)
    exact List.isChain_cons.mpr ⟨fun _ _ => Or.inl (Ne.symm hc), ih hcs⟩

end IsGrouped

/-! ## Digits -/

lemma ne_underscore_of_digitValue? {c : Char} {d : ℕ} (h : digitValue? c = some d) : c ≠ '_' := by
  rintro rfl
  cases h

/-- Whether characters are decimal digits with given values, at least one of them, and single underscores
between digits. -/
structure SpellsDigits (cs : List Char) (digits : List ℕ) : Prop where
  nonempty : digits ≠ []
  grouped : IsGrouped cs
  values : (cs.filter (· != '_')).map digitValue? = digits.map some

/-- No digit of any script is white space. -/
lemma isBlank_eq_false_of_digitValue? {c : Char} {d : ℕ} (h : digitValue? c = some d) :
    isBlank c = false := by
  have hall : digitZeros.all (fun z => (List.range 10).all fun k => !isBlank (Char.ofNat (z + k))) =
      true := by
    decide +kernel
  obtain ⟨z, hfind, -⟩ := Option.map_eq_some_iff.mp h
  obtain ⟨hfirst, hlast⟩ : z ≤ c.toNat ∧ c.toNat ≤ z + 9 := by simpa using List.find?_some hfind
  have hrun := List.all_eq_true.mp hall z (List.mem_of_find?_eq_some hfind)
  have hdigit := List.all_eq_true.mp hrun (c.toNat - z) (List.mem_range.mpr (by omega))
  rwa [Nat.add_sub_cancel' hfirst, Char.ofNat_toNat, Bool.not_eq_true'] at hdigit

namespace SpellsDigits

variable {cs : List Char} {c : Char} {digits : List ℕ}

lemma ne_nil (h : SpellsDigits cs digits) : cs ≠ [] := by
  rintro rfl
  exact h.nonempty (List.map_eq_nil_iff.mp h.values.symm)

/-- The characters are digits and underscores. -/
lemma isSome_digitValue? (h : SpellsDigits cs digits) (hc : c ∈ cs) :
    c = '_' ∨ (digitValue? c).isSome := by
  refine or_iff_not_imp_left.mpr fun hbar => ?_
  have hmem : digitValue? c ∈ digits.map some := by
    rw [← h.values]
    exact List.mem_map_of_mem (List.mem_filter.mpr ⟨hc, by simpa using hbar⟩)
  obtain ⟨d, -, hd⟩ := List.mem_map.mp hmem
  rw [← hd]
  rfl

/-- A lone character spells its value. -/
lemma singleton_iff : SpellsDigits [c] digits ↔ ∃ d, digitValue? c = some d ∧ [d] = digits := by
  constructor
  · rintro ⟨-, ⟨hhead, -, -⟩, hvalues⟩
    have hc : c ≠ '_' := by simpa using hhead
    rw [List.filter_cons_of_pos (by simpa using hc)] at hvalues
    obtain ⟨d, ds, rfl, hd, hnil⟩ := List.map_eq_cons_iff.mp hvalues.symm
    exact ⟨d, hd.symm, by rw [List.map_eq_nil_iff.mp hnil]⟩
  · rintro ⟨d, hd, rfl⟩
    have hc := ne_underscore_of_digitValue? hd
    exact ⟨List.cons_ne_nil d [], .of_notMem (by simpa using hc.symm), by simp [hc, hd]⟩

/-- A digit in front of others spells its value and theirs, behind an underscore or not. -/
lemma cons_iff {behind : List Char} (hbehind : behind.filter (· != '_') = cs.filter (· != '_'))
    (hgrouped : c ≠ '_' → (IsGrouped (c :: behind) ↔ cs ≠ [] ∧ IsGrouped cs)) :
    SpellsDigits (c :: behind) digits ↔
      ∃ d, digitValue? c = some d ∧ ∃ ds, SpellsDigits cs ds ∧ d :: ds = digits := by
  constructor
  · rintro ⟨-, hbehindGrouped, hvalues⟩
    have hc : c ≠ '_' := by simpa using hbehindGrouped.head
    obtain ⟨hne, hcs⟩ := (hgrouped hc).mp hbehindGrouped
    rw [List.filter_cons_of_pos (by simpa using hc), hbehind] at hvalues
    obtain ⟨d, ds, rfl, hd, hds⟩ := List.map_eq_cons_iff.mp hvalues.symm
    refine ⟨d, hd.symm, ds, ⟨?_, hcs, hds.symm⟩, rfl⟩
    rintro rfl
    exact hcs.filter_ne_nil hne (List.map_eq_nil_iff.mp hds.symm)
  · rintro ⟨d, hd, ds, hds, rfl⟩
    have hc := ne_underscore_of_digitValue? hd
    refine ⟨List.cons_ne_nil d ds, (hgrouped hc).mpr ⟨hds.ne_nil, hds.grouped⟩, ?_⟩
    rw [List.filter_cons_of_pos (by simpa using hc), hbehind, List.map_cons, hd, hds.values,
      List.map_cons]

end SpellsDigits

/-- Reading digits with underscores finds the digits that are spelled. -/
lemma underscoredDigits?_eq_some_iff {cs : List Char} {digits : List ℕ} :
    underscoredDigits? cs = some digits ↔ SpellsDigits cs digits := by
  -- the reader takes a digit at a time, with the underscore behind it if there is one
  induction cs using underscoredDigits?.induct generalizing digits with
  | case1 =>
    constructor
    · intro h
      cases h
    · intro h
      exact absurd rfl h.ne_nil
  | case2 c => rw [underscoredDigits?, SpellsDigits.singleton_iff, Option.map_eq_some_iff]
  | case3 c rest ih =>
    have hspells : SpellsDigits (c :: '_' :: rest) digits ↔
        ∃ d, digitValue? c = some d ∧ ∃ ds, SpellsDigits rest ds ∧ d :: ds = digits :=
      SpellsDigits.cons_iff (List.filter_cons_of_neg (by simp)) IsGrouped.cons_underscore_iff
    rw [underscoredDigits?, hspells]
    simp only [Option.bind_eq_bind, Option.bind_eq_some_iff, Option.pure_def, Option.some.injEq, ih]
  | case4 c rest hne hbar ih =>
    have hhead : rest.head? ≠ some '_' := by
      intro hhead
      obtain ⟨more, hmore⟩ := List.head?_eq_some_iff.mp hhead
      exact hbar more hmore
    have hspells : SpellsDigits (c :: rest) digits ↔
        ∃ d, digitValue? c = some d ∧ ∃ ds, SpellsDigits rest ds ∧ d :: ds = digits :=
      SpellsDigits.cons_iff rfl fun hc =>
        (IsGrouped.cons_iff hc hhead).trans (and_iff_right hne).symm
    rw [underscoredDigits?, hspells]
    · simp only [Option.bind_eq_bind, Option.bind_eq_some_iff, Option.pure_def, Option.some.injEq, ih]
    · exact hne
    · exact hbar

/-! ## Signs -/

/-- The signs that may stand in front of digits, and the factors that they stand for. -/
inductive IsSign : List Char → ℤ → Prop
  | absent : IsSign [] 1
  | plus : IsSign ['+'] 1
  | minus : IsSign ['-'] (-1)

variable {cs : List Char}

/-- The value of what stands behind a sign is taken with its factor. -/
lemma IsSign.signed_eq {sign : List Char} {factor : ℤ} (h : IsSign sign factor) (value : ℤ) :
    (if decide (factor < 0) = true then -value else value) = factor * value := by
  cases h <;> simp

/-- Characters begin with a sign, maybe with none, and the rest is behind it. -/
lemma exists_isSign_append_eq (cs : List Char) : ∃ sign factor, IsSign sign factor ∧
    sign ++ (splitSign cs).2 = cs ∧ (splitSign cs).1 = decide (factor < 0) := by
  unfold splitSign
  split
  · exact ⟨['-'], -1, .minus, rfl, rfl⟩
  · exact ⟨['+'], 1, .plus, rfl, rfl⟩
  · exact ⟨[], 1, .absent, rfl, rfl⟩

/-- A sign in front of digits is split off. -/
lemma splitSign_append_of_spellsDigits {sign : List Char} {factor : ℤ} {digits : List ℕ}
    (hsign : IsSign sign factor) (hcs : SpellsDigits cs digits) :
    splitSign (sign ++ cs) = (decide (factor < 0), cs) := by
  have hminus : '-' ∉ cs := fun hmem => absurd (hcs.isSome_digitValue? hmem) (by decide)
  have hplus : '+' ∉ cs := fun hmem => absurd (hcs.isSome_digitValue? hmem) (by decide)
  cases hsign with
  | plus => rfl
  | minus => rfl
  | absent =>
    rw [List.nil_append]
    unfold splitSign
    split
    · exact absurd List.mem_cons_self hminus
    · exact absurd List.mem_cons_self hplus
    · rfl

/-! ## Whole numerals -/

/-- The positional value of digits can be found from the last one on as well. -/
lemma positional_eq_ofDigits (base : ℕ) (digits : List ℕ) :
    positional base digits = Nat.ofDigits base digits.reverse := by
  rw [Nat.ofDigits_eq_foldr, List.foldr_reverse]
  unfold positional
  simp only [Nat.cast_id, add_comm]

/-- Whether characters are a whole numeral, which is an optional sign and decimal digits of any script, at
most 4300 of them, maybe with single underscores between digits, and stand for a given number. -/
def IsWholeNumeral (cs : List Char) (n : ℤ) : Prop :=
  ∃ sign factor body digits, IsSign sign factor ∧ SpellsDigits body digits ∧ digits.length ≤ 4300 ∧
    cs = sign ++ body ∧ n = factor * (Nat.ofDigits 10 digits.reverse : ℕ)

/-- What is read as a whole number is a whole numeral, and every whole numeral is read as the number
that it stands for. -/
theorem wholeNumeral?_eq_some_iff {n : ℤ} : wholeNumeral? cs = some n ↔ IsWholeNumeral cs n := by
  constructor
  · intro h
    obtain ⟨sign, factor, hsign, hsplit, hnegative⟩ := exists_isSign_append_eq cs
    unfold wholeNumeral? at h
    dsimp only at h
    split at h
    · cases h
    · next digits hdigits =>
      split at h
      · cases h
      · next hlength =>
        refine ⟨sign, factor, _, digits, hsign, underscoredDigits?_eq_some_iff.mp hdigits,
          not_lt.mp hlength, hsplit.symm, ?_⟩
        rw [hnegative, hsign.signed_eq, positional_eq_ofDigits] at h
        exact (Option.some.inj h).symm
  · rintro ⟨sign, factor, body, digits, hsign, hbody, hlength, rfl, rfl⟩
    unfold wholeNumeral?
    rw [splitSign_append_of_spellsDigits hsign hbody]
    dsimp only
    rw [underscoredDigits?_eq_some_iff.mpr hbody]
    dsimp only
    have hshort : ¬maxDigits < digits.length := not_lt.mpr hlength
    rw [if_neg hshort, hsign.signed_eq, positional_eq_ofDigits]

/-- There is no white space in a whole numeral. -/
lemma IsWholeNumeral.isBlank_eq_false {n : ℤ} (h : IsWholeNumeral cs n) :
    ∀ c ∈ cs, isBlank c = false := by
  obtain ⟨sign, factor, body, digits, hsign, hbody, -, rfl, -⟩ := h
  refine List.forall_mem_append.mpr ⟨fun c hc => ?_, fun c hc => ?_⟩
  · cases hsign with
    | absent => cases hc
    | plus =>
      rw [List.mem_singleton.mp hc]
      rfl
    | minus =>
      rw [List.mem_singleton.mp hc]
      rfl
  · rcases hbody.isSome_digitValue? hc with rfl | hdigit
    · rfl
    · obtain ⟨d, hd⟩ := Option.isSome_iff_exists.mp hdigit
      exact isBlank_eq_false_of_digitValue? hd

end StockFlow
