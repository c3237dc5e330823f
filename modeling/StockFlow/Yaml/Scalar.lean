import StockFlow.Failure
import StockFlow.Json.Reader
import StockFlow.Yaml.Cursor
/-!
# Scalars of YAML texts

The contents of the four forms of scalars: plain scalars, scalars between single or double quotes,
and block scalars, literal or folded. Line breaks inside plain and quoted scalars are folded: a
single one is a space, and of several the first is dropped. Only an escape between double quotes can
put a surrogate into a scalar. Every loop passes over a character in each round, so the number of
characters that remain bounds it.
-/

namespace StockFlow.Yaml

/-- The failure of a text that is no YAML. -/
def invalid : Failure := .load .invalidYaml

/-- The text of a line break followed by empty lines, when lines are folded. -/
def folded (lineBreak breaks : List Char) : List Char :=
  if lineBreak ≠ ['\n'] then lineBreak ++ breaks
  else if breaks.isEmpty then [' ']
  else breaks

/-! ## Plain scalars -/

/-- Whether a plain scalar ends before the characters. -/
def endsPlain (inFlow : Bool) (c : Char) (following : Char) : Bool :=
  isBlankOrEnd c ||
    (c == ':' && (isBlankOrEnd following ||
      (inFlow && (following == ',' || following == '[' || following == ']' ||
        following == '\x7b' || following == '\x7d')))) ||
    (inFlow && (c == ',' || c == '?' || c == '[' || c == ']' || c == '\x7b' || c == '\x7d'))

/-- The characters of a plain scalar without blanks at the beginning. -/
def plainChars (inFlow : Bool) : List Char → List Char
  | [] => []
  | c :: rest =>
    if endsPlain inFlow c (rest.headD '\x00') then [] else c :: plainChars inFlow rest

/-- The empty lines at the cursor; nothing if a separator of documents is met. -/
def plainBreaks : (fuel : Nat) → Cursor → Option (List Char) × Cursor
  | 0, c => (some [], c)
  | fuel + 1, c =>
    if c.current = ' ' then plainBreaks fuel c.next
    else if isBreak c.current then
      let (b, c) := c.lineBreak
      if c.atSeparator then (none, c)
      else
        let (breaks?, c) := plainBreaks fuel c
        (breaks?.map (b ++ ·), c)
    else (some [], c)

/-- The blanks after a part of a plain scalar: their text, the cursor behind them, and whether they
hold a line break. -/
def plainSpaces (fuel : Nat) (c : Cursor) : List Char × Cursor × Bool :=
  let (spaces, c) := c.span (· == ' ')
  if isBreak c.current then
    let (b, c) := c.lineBreak
    if c.atSeparator then ([], c, true)
    else
      match plainBreaks fuel c with
      | (none, c) => ([], c, true)
      | (some breaks, c) => (folded b breaks, c, true)
  else (spaces, c, false)

/-- The parts of a plain scalar from the cursor on, given the blanks in front of them. The last
result tells whether a new line has been begun. -/
def plainParts (inFlow : Bool) (indent : Int) :
    (fuel : Nat) → Cursor → (spaces : List Char) → (newLine : Bool) → List Char × Cursor × Bool
  | 0, c, _, newLine => ([], c, newLine)
  | fuel + 1, c, spaces, newLine =>
    if c.current = '#' then ([], c, newLine)
    else
      let chars := plainChars inFlow c.rest
      if chars.isEmpty then ([], c, newLine)
      else
        let (next, c, newLine) := plainSpaces (fuel + 1) (c.advance chars.length)
        if next.isEmpty ∨ c.current = '#' ∨ (¬inFlow ∧ (c.column : Int) < indent) then
          (spaces ++ chars, c, newLine)
        else
          let (text, c, newLine) := plainParts inFlow indent fuel c next newLine
          (spaces ++ (chars ++ text), c, newLine)

/-- A plain scalar, the cursor behind it, and whether a new line has been begun. -/
def plainScalar (inFlow : Bool) (indent : Int) (c : Cursor) : List Char × Cursor × Bool :=
  plainParts inFlow indent (c.rest.length + 1) c [] false

/-! ## Quoted scalars -/

/-- The character that a letter stands for after a backslash. -/
def quotedEscape? (c : Char) : Option Char :=
  match c with
  | '0' => some '\x00'
  | 'a' => some '\x07'
  | 'b' => some '\x08'
  | 't' => some '\t'
  | '\t' => some '\t'
  | 'n' => some '\n'
  | 'v' => some '\x0b'
  | 'f' => some '\x0c'
  | 'r' => some '\r'
  | 'e' => some '\x1b'
  | ' ' => some ' '
  | '"' => some '"'
  | '\\' => some '\\'
  | '/' => some '/'
  | 'N' => some '\u0085'
  | '_' => some '\u00a0'
  | 'L' => some '\u2028'
  | 'P' => some '\u2029'
  | _ => none

/-- The number of digits of an escape by number. -/
def escapeLength? (c : Char) : Option Nat :=
  match c with
  | 'x' => some 2
  | 'u' => some 4
  | 'U' => some 8
  | _ => none

/-- The number of hexadecimal digits. -/
def hexNumber? (cs : List Char) : Option Nat :=
  cs.foldlM (fun value c => (Json.hexValue? c).map fun d => 16 * value + d) 0

/-- The code point of an escape by number. A number beyond the last code point is refused, and one
that does not fit into a signed word of 32 bits is out of range. -/
def escapedPoint (code : Nat) : Except Failure CodePoint :=
  if 0x7FFFFFFF < code then .error .overflow
  else if 0x10FFFF < code then .error .badValue
  else .ok (.ofNumber code)

/-- The empty lines inside a quoted scalar, where no separator of documents may stand. -/
def quotedBreaks : (fuel : Nat) → Cursor → Except Failure (List Char × Cursor)
  | 0, c => .ok ([], c)
  | fuel + 1, c =>
    if c.atSeparator then .error invalid
    else
      let c := c.skip fun ch => ch == ' ' || ch == '\t'
      if isBreak c.current then do
        let (b, c) := c.lineBreak
        let (breaks, c) ← quotedBreaks fuel c
        return (b ++ breaks, c)
      else .ok ([], c)

/-- What stands at the cursor, behind a backslash. -/
def quotedEscape (fuel : Nat) (c : Cursor) : Except Failure (Text × Cursor) :=
  match quotedEscape? c.current with
  | some ch => .ok ([.char ch], c.next)
  | none =>
    match escapeLength? c.current with
    | some count =>
      let c := c.next
      let digits := c.rest.take count
      if digits.length < count then .error invalid
      else
        match hexNumber? digits with
        | none => .error invalid
        | some code => do return ([← escapedPoint code], c.advance count)
    | none =>
      if isBreak c.current then do
        let (_, c) := c.lineBreak
        let (breaks, c) ← quotedBreaks fuel c
        return (.ofChars breaks, c)
      else .error invalid

/-- The code points of a quoted scalar up to a blank or the closing quote. -/
def quotedChars (double : Bool) : (fuel : Nat) → Cursor → Except Failure (Text × Cursor)
  | 0, c => .ok ([], c)
  | fuel + 1, c => do
    let (run, c) := c.span fun ch => ch != '\'' && ch != '"' && ch != '\\' && !isBlankOrEnd ch
    let run := Text.ofChars run
    if ¬double ∧ c.current = '\'' ∧ c.peek 1 = '\'' then
      let (text, c) ← quotedChars double fuel (c.advance 2)
      return (run ++ .char '\'' :: text, c)
    else if (double ∧ c.current = '\'') ∨ (¬double ∧ (c.current = '"' ∨ c.current = '\\')) then
      let (text, rest) ← quotedChars double fuel c.next
      return (run ++ .char c.current :: text, rest)
    else if double ∧ c.current = '\\' then
      let (escaped, c) ← quotedEscape (fuel + 1) c.next
      let (text, c) ← quotedChars double fuel c
      return (run ++ (escaped ++ text), c)
    else return (run, c)

/-- The blanks inside a quoted scalar. -/
def quotedSpaces (fuel : Nat) (c : Cursor) : Except Failure (List Char × Cursor) :=
  let (spaces, c) := c.span fun ch => ch == ' ' || ch == '\t'
  if c.current = '\x00' then .error invalid
  else if isBreak c.current then
    let (b, c) := c.lineBreak
    match quotedBreaks fuel c with
    | .ok (breaks, c) => .ok (folded b breaks, c)
    | .error failure => .error failure
  else .ok (spaces, c)

/-- The parts of a quoted scalar up to its closing quote. -/
def quotedParts (quote : Char) : (fuel : Nat) → Cursor → Except Failure (Text × Cursor)
  | 0, _ => .error invalid
  | fuel + 1, c => do
    let (part, c) ← quotedChars (quote == '"') (fuel + 1) c
    if c.current = quote then return (part, c.next)
    else
      let (spaces, c) ← quotedSpaces (fuel + 1) c
      let (text, c) ← quotedParts quote fuel c
      return (part ++ (Text.ofChars spaces ++ text), c)

/-- A quoted scalar whose opening quote stands at the cursor, and the cursor behind it. -/
def quotedScalar (c : Cursor) : Except Failure (Text × Cursor) :=
  quotedParts c.current (c.rest.length + 1) c.next

/-! ## Block scalars -/

/-- What becomes of the line breaks at the end of a block scalar. -/
inductive Chomping where
  | clip
  | strip
  | keep
deriving DecidableEq

/-- The chomping that a sign asks for. -/
def chomping? (c : Char) : Option Chomping :=
  match c with
  | '+' => some .keep
  | '-' => some .strip
  | _ => none

/-- The indentation that a digit asks for; zero is none. -/
def increment? (c : Char) : Option Nat :=
  if '0' ≤ c ∧ c ≤ '9' then some (c.toNat - 48) else none

/-- The header of a block scalar: its chomping and its indentation, in either order. -/
def blockHeader (c : Cursor) : Except Failure (Chomping × Option Nat × Cursor) := do
  let (chomping, increment, c) :=
    match chomping? c.current with
    | some chomping =>
      match increment? c.next.current with
      | some n => (chomping, some n, c.advance 2)
      | none => (chomping, none, c.next)
    | none =>
      match increment? c.current with
      | some n =>
        match chomping? c.next.current with
        | some chomping => (chomping, some n, c.advance 2)
        | none => (.clip, some n, c.next)
      | none => (.clip, none, c)
  if increment = some 0 then throw invalid
  if !isSpaceOrEnd c.current then throw invalid
  let c := c.skipSpaces.skipComment
  if !isBreakOrEnd c.current then throw invalid
  return (chomping, increment, c.lineBreak.2)

/-- The empty lines before a block scalar without an indentation of its own, and the greatest
indentation among them and the first line. -/
def blockIndentation : (fuel : Nat) → Cursor → (deepest : Nat) → List Char × Nat × Cursor
  | 0, c, deepest => ([], deepest, c)
  | fuel + 1, c, deepest =>
    if c.current = ' ' then blockIndentation fuel c.next (max deepest c.next.column)
    else if isBreak c.current then
      let (b, c) := c.lineBreak
      let (breaks, deepest, c) := blockIndentation fuel c deepest
      (b ++ breaks, deepest, c)
    else ([], deepest, c)

/-- The cursor behind the indentation of a line. -/
def skipIndent (indent : Nat) (c : Cursor) : Cursor :=
  c.advance ((c.rest.take (indent - c.column)).takeWhile (· == ' ')).length

/-- The empty lines inside a block scalar. -/
def blockBreaks (indent : Nat) : (fuel : Nat) → Cursor → List Char × Cursor
  | 0, c => ([], c)
  | fuel + 1, c =>
    let c := skipIndent indent c
    if isBreak c.current then
      let (b, c) := c.lineBreak
      let (breaks, c) := blockBreaks indent fuel c
      (b ++ breaks, c)
    else ([], c)

/-- The lines of a block scalar, given the empty lines in front of them, with the last line break and
the empty lines behind it. -/
def blockLines (foldLines : Bool) (indent : Nat) :
    (fuel : Nat) → Cursor → (lineBreak breaks : List Char) →
    List Char × List Char × List Char × Cursor
  | 0, c, lineBreak, breaks => ([], lineBreak, breaks, c)
  | fuel + 1, c, lineBreak, breaks =>
    if c.column = indent ∧ c.current ≠ '\x00' then
      let startsBlank := c.current == ' ' || c.current == '\t'
      let (line, c) := c.span (!isBreakOrEnd ·)
      let (lineBreak, c) := c.lineBreak
      let (next, c) := blockBreaks indent (fuel + 1) c
      let nextBlank := c.current == ' ' || c.current == '\t'
      let between :=
        if c.column ≠ indent ∨ c.current = '\x00' then []
        else if foldLines && lineBreak == ['\n'] && !startsBlank && !nextBlank then
          (if next.isEmpty then [' '] else [])
        else lineBreak
      let (text, lineBreak, last, c) := blockLines foldLines indent fuel c lineBreak next
      (breaks ++ (line ++ (between ++ text)), lineBreak, last, c)
    else ([], lineBreak, breaks, c)

/-- A block scalar whose mark stands at the cursor, inside a block of the given indentation, and the
cursor behind it. -/
def blockScalar (foldLines : Bool) (blockIndent : Int) (c : Cursor) :
    Except Failure (List Char × Cursor) := do
  let (chomping, increment, c) ← blockHeader c.next
  let least := max 1 (blockIndent + 1).toNat
  let (breaks, indent, c) :=
    match increment with
    | none =>
      let (breaks, deepest, c) := blockIndentation (c.rest.length + 1) c 0
      (breaks, max least deepest, c)
    | some n =>
      let indent := least + n - 1
      let (breaks, c) := blockBreaks indent (c.rest.length + 1) c
      (breaks, indent, c)
  let (text, lineBreak, breaks, c) := blockLines foldLines indent (c.rest.length + 1) c [] breaks
  let text := if chomping = .strip then text else text ++ lineBreak
  let text := if chomping = .keep then text ++ breaks else text
  return (text, c)

end StockFlow.Yaml
