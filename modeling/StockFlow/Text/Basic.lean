/-!
# Texts

A text is a sequence of code points. Most code points are characters. The others are surrogates,
the numbers that some encodings write in pairs for a single character: an escape in a document can
name one of them by itself, so a text may hold surrogates, and such a text has no encoding in bytes.
A string stands for the text of its characters.
-/

namespace StockFlow

/-- A code point: a character, or the surrogate at a distance from the first one. -/
inductive CodePoint where
  | char (c : Char)
  | surrogate (offset : Fin 0x800)
deriving DecidableEq

namespace CodePoint

instance : Coe Char CodePoint := ⟨.char⟩

/-- The number of the first surrogate. -/
def firstSurrogate : Nat := 0xD800

/-- The number of a code point. -/
def number : CodePoint → Nat
  | .char c => c.toNat
  | .surrogate offset => firstSurrogate + offset.val

/-- The code point of a number. -/
def ofNumber (n : Nat) : CodePoint :=
  if h : firstSurrogate ≤ n ∧ n - firstSurrogate < 0x800 then .surrogate ⟨n - firstSurrogate, h.2⟩
  else .char (Char.ofNat n)

/-- The character that a code point is. -/
def char? : CodePoint → Option Char
  | .char c => some c
  | .surrogate _ => none

/-- Whether a code point is a character with a property. -/
def isCharWith (p : Char → Bool) : CodePoint → Bool
  | .char c => p c
  | .surrogate _ => false

/-- A character keeps its number and is found again by it. -/
theorem ofNumber_number (c : CodePoint) : ofNumber c.number = c := by
  cases c with
  | char c =>
    have hvalid := c.valid
    have hnat : c.toNat = c.val.toNat := rfl
    unfold ofNumber number
    rw [dif_neg, Char.ofNat_toNat]
    intro h
    simp only [firstSurrogate, hnat] at h
    simp only [UInt32.isValidChar, Nat.isValidChar] at hvalid
    omega
  | surrogate offset =>
    simp [ofNumber, number]

end CodePoint

/-- A text. -/
abbrev Text := List CodePoint

namespace Text

/-- Whether two texts are the same, code point by code point. -/
def same : Text → Text → Bool
  | [], [] => true
  | c :: s, d :: t => c = d && same s t
  | _, _ => false

/-- Two texts are the same if they are equal. -/
theorem same_iff (s t : Text) : s.same t = true ↔ s = t := by
  induction s generalizing t with
  | nil => cases t <;> simp [same]
  | cons c s ih => cases t <;> simp [same, ih]

-- Names are compared all the time, and comparing lists in general takes several times as long.
instance : DecidableEq Text := fun s t => decidable_of_iff _ (same_iff s t)

/-- The text of characters. -/
def ofChars (cs : List Char) : Text := cs.map .char

/-- The text of a string. -/
def ofString (s : String) : Text := ofChars s.toList

instance : Coe String Text := ⟨ofString⟩

/-- The characters of a text without surrogates. -/
def chars? : Text → Option (List Char)
  | [] => some []
  | .char c :: rest => (chars? rest).map (c :: ·)
  | .surrogate _ :: _ => none

/-- The bytes of a text without surrogates. -/
def utf8? (t : Text) : Option (List UInt8) :=
  t.chars?.map fun cs => (String.ofList cs).toUTF8.toList

/-- The texts one after the other with a separator between them. -/
def join (separator : Text) (parts : List Text) : Text := separator.intercalate parts

/-- Whether a text comes before another one or equals it, by the numbers of the code points. -/
def precedes (s t : Text) : Bool := !List.lex (t.map CodePoint.number) (s.map CodePoint.number)

/-- The characters of a text are those that it was made of. -/
theorem chars?_ofChars (cs : List Char) : (ofChars cs).chars? = some cs := by
  induction cs with
  | nil => rfl
  | cons c cs ih => simpa [ofChars, chars?] using ih

/-- A text is made of its characters, if it has no surrogates. -/
theorem eq_ofChars_of_chars? {t : Text} {cs : List Char} (h : t.chars? = some cs) :
    t = ofChars cs := by
  induction t generalizing cs with
  | nil => cases h; rfl
  | cons c t ih =>
    cases c with
    | surrogate offset => cases h
    | char c =>
      obtain ⟨cs', hcs', rfl⟩ := Option.map_eq_some_iff.mp h
      rw [ih hcs']
      rfl

end Text

end StockFlow
