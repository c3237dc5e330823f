import StockFlow.Text.Basic
/-!
# Blank characters

The characters that count as white space around a text: the twenty-nine characters that Unicode
calls white space or that separate files, groups, records and units of text. `Text.trim` removes
them from both ends. Six of them are the plain blanks, which also count where only ASCII does.
-/

namespace StockFlow

/-- Whether a character is white space. -/
def isBlank (c : Char) : Bool :=
  let n := c.toNat
  (0x09 ≤ n && n ≤ 0x0D) || (0x1C ≤ n && n ≤ 0x20) || n == 0x85 || n == 0xA0 || n == 0x1680 ||
    (0x2000 ≤ n && n ≤ 0x200A) || n == 0x2028 || n == 0x2029 || n == 0x202F || n == 0x205F ||
    n == 0x3000

/-- Whether a character is a space, a tab or one of the characters that end lines and pages. -/
def isPlainBlank (c : Char) : Bool :=
  let n := c.toNat
  (0x09 ≤ n && n ≤ 0x0D) || n == 0x20

/-- Whether a character is an ASCII character. -/
def isPlain (c : Char) : Bool := decide (c.toNat < 0x80)

/-! ## Trimming -/

/-- The elements without those of a kind at both ends. -/
def trimBy {α : Type} (p : α → Bool) (xs : List α) : List α :=
  ((xs.dropWhile p).reverse.dropWhile p).reverse

/-- Whether a code point is white space. -/
def CodePoint.isBlank : CodePoint → Bool := CodePoint.isCharWith StockFlow.isBlank

/-- The text without the white space at both ends. -/
def Text.trim (t : Text) : Text := trimBy CodePoint.isBlank t

/-- Elements of a kind in front go with those that are there already. -/
theorem dropWhile_append_of_all {α : Type} {p : α → Bool} {pad : List α}
    (h : ∀ x ∈ pad, p x = true) (xs : List α) : (pad ++ xs).dropWhile p = xs.dropWhile p := by
  induction pad with
  | nil => rfl
  | cons x pad ih =>
    have hx : p x = true := h x List.mem_cons_self
    have htail : ∀ y ∈ pad, p y = true := fun y hy => h y (List.mem_cons_of_mem x hy)
    rw [List.cons_append, List.dropWhile_cons_of_pos hx]
    exact ih htail

/-- Elements of the kind in front do not change what trimming leaves. -/
theorem trimBy_append_left {α : Type} {p : α → Bool} {pad : List α}
    (h : ∀ x ∈ pad, p x = true) (xs : List α) : trimBy p (pad ++ xs) = trimBy p xs := by
  unfold trimBy
  rw [dropWhile_append_of_all h]

/-- Elements of the kind behind do not change what trimming leaves. -/
theorem trimBy_append_right {α : Type} {p : α → Bool} {pad : List α}
    (h : ∀ x ∈ pad, p x = true) (xs : List α) : trimBy p (xs ++ pad) = trimBy p xs := by
  have hrev : ∀ x ∈ pad.reverse, p x = true := fun x hx => h x (List.mem_reverse.mp hx)
  unfold trimBy
  rw [List.dropWhile_append]
  split
  · next hempty =>
    have hxs : xs.dropWhile p = [] := List.isEmpty_iff.mp hempty
    have hpad : pad.dropWhile p = [] := by
      have := dropWhile_append_of_all h []
      simpa using this
    rw [hxs, hpad]
  · rw [List.reverse_append, dropWhile_append_of_all hrev]

/-- Nothing is trimmed where no element is of the kind. -/
theorem trimBy_eq_self {α : Type} {p : α → Bool} {xs : List α} (h : ∀ x ∈ xs, p x = false) :
    trimBy p xs = xs := by
  have hdrop : ∀ ys : List α, (∀ y ∈ ys, p y = false) → ys.dropWhile p = ys := by
    intro ys hys
    cases ys with
    | nil => rfl
    | cons y ys => exact List.dropWhile_cons_of_neg (by simp [hys y List.mem_cons_self])
  unfold trimBy
  rw [hdrop xs h, hdrop xs.reverse fun x hx => h x (List.mem_reverse.mp hx), List.reverse_reverse]

end StockFlow
