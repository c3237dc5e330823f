import StockFlow.Numeral
/-!
# Value expressions

What is declared as the value of a node or a link: a number, the word for the rest of the source,
the word for what the target passes on, a percentage of the source, a numeral, a plugin call, or
several alternatives that multiply the sheet. `classify` tells them apart, and the readers beside it
convert those that stand for numbers.
-/

namespace StockFlow

/-- The kinds of value expressions. -/
inductive ExpressionKind where
  | number
  | rest
  | auto
  | percentage
  | numericString
  | alternatives
  | plugin
  | absent
  | unknown
deriving DecidableEq

/-- The name of a kind. -/
def ExpressionKind.name : ExpressionKind → String
  | .number => "number"
  | .rest => "rest"
  | .auto => "auto"
  | .percentage => "percentage"
  | .numericString => "numeric_string"
  | .alternatives => "alternatives"
  | .plugin => "plugin"
  | .absent => "absent"
  | .unknown => "unknown"

/-- The colour that asks for one of the palette. -/
def randomColor : Text := "random"

/-- The text that asks for the rest of the source. -/
def restWord : Text := "rest"

/-- The text that asks for what the target passes on. -/
def autoWord : Text := "auto"

/-- What separates alternatives. -/
def bar : CodePoint := .char '|'

/-- What stands behind a percentage. -/
def percentSign : CodePoint := .char '%'

/-- The kind of a text. -/
def classifyText (s : Text) : ExpressionKind :=
  let shown := s.trim
  if shown.contains bar then .alternatives
  else if shown = restWord then .rest
  else if shown = autoWord then .auto
  else if shown.getLast? = some percentSign then .percentage
  else if (parseNumber s).isSome then .numericString
  else .unknown

/-- The kind of a declared value. -/
def classify (d : Datum) : ExpressionKind :=
  match d with
  | .null => .absent
  | .int _ | .float _ => .number
  | .text s => classifyText s
  | d => if d.fields?.isSome then .plugin else .unknown

/-- The number before the percent sign. -/
def parsePercentage (s : Text) : Option Number :=
  let shown := s.trim
  if shown.getLast? = some percentSign then parseNumber shown.dropLast else none

/-- The parts of a text between bars. -/
def splitBars : Text → List Text
  | [] => [[]]
  | c :: cs =>
    if c = bar then [] :: splitBars cs
    else
      match splitBars cs with
      | [] => [[c]]
      | part :: parts => (c :: part) :: parts

/-- There is always at least one part. -/
theorem splitBars_ne_nil (cs : Text) : splitBars cs ≠ [] := by
  cases cs with
  | nil => simp [splitBars]
  | cons c cs =>
    unfold splitBars
    split
    · simp
    · split <;> simp

/-- No part holds a bar. -/
theorem bar_notMem_of_mem_splitBars {cs part : Text} (h : part ∈ splitBars cs) :
    bar ∉ part := by
  induction cs generalizing part with
  | nil =>
    have hpart : part = [] := by simpa [splitBars] using h
    simp [hpart]
  | cons c cs ih =>
    unfold splitBars at h
    split at h
    · rcases List.mem_cons.mp h with rfl | htail
      · exact List.not_mem_nil
      · exact ih htail
    · next hc =>
      have hbar : bar ≠ c := fun heq => hc heq.symm
      split at h
      · next hnil => exact absurd hnil (splitBars_ne_nil cs)
      · next first rest hsplit =>
        rcases List.mem_cons.mp h with rfl | htail
        · have hfirst : bar ∉ first := ih (hsplit ▸ List.mem_cons_self)
          simp [hbar, hfirst]
        · exact ih (hsplit ▸ List.mem_cons_of_mem first htail)

/-- The parts with bars between them are the text. -/
theorem intercalate_splitBars (cs : Text) : [bar].intercalate (splitBars cs) = cs := by
  induction cs with
  | nil => simp [splitBars, List.intercalate]
  | cons c cs ih =>
    unfold splitBars
    split
    · next hc =>
      obtain ⟨first, rest, hsplit⟩ := List.exists_cons_of_ne_nil (splitBars_ne_nil cs)
      rw [hsplit] at ih ⊢
      rw [hc, ← ih]
      simp [List.intercalate]
    · split
      · next hnil => exact absurd hnil (splitBars_ne_nil cs)
      · next first rest hsplit =>
        rw [hsplit] at ih
        rw [← ih]
        cases rest <;> simp [List.intercalate]

/-- The alternatives of a text, without the blanks around them. -/
def splitAlternatives (s : Text) : List Text := (splitBars s).map Text.trim

/-- The number that a number or a numeral stands for. -/
def toNumber : Datum → Option Number
  | .int n => some (.int n)
  | .float x => some (.float x)
  | .text s => parseNumber s
  | _ => none

end StockFlow
