import StockFlow.Yaml.Scalar
/-!
# Tokens of YAML texts

A text is cut into tokens from left to right. Blocks are opened and closed by the columns at which
their entries begin. A key is not marked as one before the colon behind it is met, so every place
that may turn out to be the beginning of a key is kept, one for each level of nesting, and when the
colon comes the marks for the key, and for the mapping that it opens, are put in at that place. Such
a place is given up at the end of its line or after 1024 characters. A token at such a place is not
settled, since a mark may still come before it: when the text cannot be cut any further, only the
tokens before the first such place are known.
-/

namespace StockFlow.Yaml

/-- A directive before a document. -/
inductive Directive where
  | version (major minor : Nat)
  | tagHandle (handle expansion : String)
  | other
deriving DecidableEq

/-- A token. -/
inductive Token where
  | directive (directive : Directive)
  | documentStart
  | documentEnd
  | streamEnd
  | blockSequenceStart
  | blockMappingStart
  | blockEnd
  | flowSequenceStart
  | flowSequenceEnd
  | flowMappingStart
  | flowMappingEnd
  | blockEntry
  | flowEntry
  | key
  | value
  | alias (name : String)
  | anchor (name : String)
  | tag (handle : Option String) (suffix : String)
  | scalar (text : Text) (plain : Bool)
deriving DecidableEq

/-- A place where a key may begin: the number of the token there, whether a key must begin there, and
where the place is. -/
structure KeyPlace where
  token : Nat
  required : Bool
  index : Nat
  line : Nat
  column : Nat

/-- The state of cutting: the cursor, the tokens so far, the columns of the open blocks with the
innermost first, and the places of keys by level of nesting. -/
structure Lexer where
  cursor : Cursor
  tokens : Array Token := #[]
  level : Nat := 0
  indent : Int := -1
  outer : List Int := []
  keyAllowed : Bool := true
  places : List (Nat × KeyPlace) := []

namespace Lexer

/-- Appends a token. -/
def push (l : Lexer) (t : Token) : Lexer := { l with tokens := l.tokens.push t }

/-- Inserts a token before the one of a number. -/
def insertAt (l : Lexer) (position : Nat) (t : Token) : Lexer :=
  { l with tokens := l.tokens.insertIdxIfInBounds position t }

/-! ## Places of keys -/

/-- Whether a place lies on another line than the cursor or too far back. -/
def isStale (l : Lexer) (p : KeyPlace) : Bool :=
  p.line != l.cursor.line || p.index + 1024 < l.cursor.index

/-- Gives up the places that lie on another line or too far back. -/
def dropStale (l : Lexer) : Except Failure Lexer :=
  if l.places.any fun (_, p) => l.isStale p && p.required then .error invalid
  else .ok { l with places := l.places.filter fun (_, p) => !l.isStale p }

/-- The tokens before the first place where a key may still begin. -/
def settled (l : Lexer) : List Token :=
  let live := l.places.filter fun (_, p) => !l.isStale p
  l.tokens.toList.take (live.foldl (fun least (_, p) => min least p.token) l.tokens.size)

/-- Gives up the place of the present level. -/
def dropPlace (l : Lexer) : Except Failure Lexer :=
  if l.places.any fun (level, p) => level == l.level && p.required then .error invalid
  else .ok { l with places := l.places.filter fun (level, _) => level != l.level }

/-- Keeps the cursor as a place where a key may begin, if one may. -/
def keepPlace (l : Lexer) : Except Failure Lexer :=
  if l.keyAllowed then do
    let l ← l.dropPlace
    let place : KeyPlace :=
      { token := l.tokens.size
        required := l.level == 0 && l.indent == l.cursor.column
        index := l.cursor.index
        line := l.cursor.line
        column := l.cursor.column }
    return { l with places := (l.level, place) :: l.places }
  else .ok l

/-! ## Blocks -/

/-- Closes the blocks that lie to the right of a column. -/
def closeBlocks (column : Int) : List Int → Lexer → Lexer
  | [], l => l
  | indent :: outer, l =>
    if column < l.indent then
      closeBlocks column outer { l.push .blockEnd with indent, outer }
    else l

/-- Closes the blocks that lie to the right of a column, unless inside brackets. -/
def unwind (l : Lexer) (column : Int) : Lexer :=
  if l.level = 0 then closeBlocks column l.outer l else l

/-- Opens a block at a column that lies to the right of the present one. -/
def openBlock (l : Lexer) (column : Nat) (start : Token) (position : Nat) : Lexer :=
  if l.indent < column then
    { l.insertAt position start with indent := column, outer := l.indent :: l.outer }
  else l

/-! ## Single tokens -/

/-- Moves the cursor behind blanks, comments and line breaks. A new line allows a key, unless inside
brackets. -/
def skipToToken : (fuel : Nat) → Lexer → Lexer
  | 0, l => l
  | fuel + 1, l =>
    let c := l.cursor.skipSpaces.skipComment
    if isBreak c.current then
      skipToToken fuel
        { l with cursor := c.lineBreak.2, keyAllowed := l.keyAllowed || l.level == 0 }
    else { l with cursor := c }

/-- The end of the text, which closes all blocks. -/
def streamEnd (l : Lexer) : Except Failure Lexer := do
  let l ← (l.unwind (-1)).dropPlace
  return { l.push .streamEnd with keyAllowed := false, places := [] }

/-- A decimal number of a directive. -/
def directiveNumber (c : Cursor) : Except Failure (Nat × Cursor) :=
  let (digits, c) := c.span Char.isDigit
  if digits.isEmpty then .error invalid
  else if maxDigits < digits.length then .error .badValue
  else .ok (digitsValue digits, c)

/-- The parts of a tag at the cursor, with escapes by percent signs. -/
def tagText : (fuel : Nat) → Cursor → List Char → Except Failure (List Char × Cursor)
  | 0, c, text => .ok (text, c)
  | fuel + 1, c, text =>
    let (run, c) := c.span fun ch => isTagChar ch && ch != '%'
    let text := text ++ run
    if c.current = '%' then do
      let (bytes, c) ← tagBytes fuel c []
      match String.fromUTF8? ⟨bytes.toArray⟩ with
      | some s => tagText fuel c (text ++ s.toList)
      | none => throw invalid
    else .ok (text, c)
where
  /-- The bytes of neighbouring escapes. -/
  tagBytes : (fuel : Nat) → Cursor → List UInt8 → Except Failure (List UInt8 × Cursor)
    | 0, c, bytes => .ok (bytes, c)
    | fuel + 1, c, bytes =>
      if c.current = '%' then
        match Json.hexValue? (c.peek 1), Json.hexValue? (c.peek 2) with
        | some high, some low =>
          tagBytes fuel (c.advance 3) (bytes ++ [UInt8.ofNat (16 * high + low)])
        | _, _ => .error invalid
      else .ok (bytes, c)

/-- The part of a tag behind its handle, which is not empty. -/
def tagSuffix (c : Cursor) : Except Failure (String × Cursor) := do
  let (text, c) ← tagText (c.rest.length + 1) c []
  if text.isEmpty then throw invalid
  return (String.ofList text, c)

/-- A tag handle: an exclamation mark, or a word between two of them. -/
def tagHandle (c : Cursor) : Except Failure (String × Cursor) := do
  if c.current ≠ '!' then throw invalid
  let (word, c) := c.next.span isWordChar
  if c.current = '!' then return (String.ofList ('!' :: (word ++ ['!'])), c.next)
  if word.isEmpty ∧ c.current = ' ' then return ("!", c)
  throw invalid

/-- The numbers of a version directive. -/
def version (c : Cursor) : Except Failure (Directive × Cursor) := do
  let (major, c) ← directiveNumber c.skipSpaces
  if c.current ≠ '.' then throw invalid
  let (minor, c) ← directiveNumber c.next
  if !isSpaceOrEnd c.current then throw invalid
  return (.version major minor, c)

/-- The handle and the expansion of a tag directive. -/
def handleDirective (c : Cursor) : Except Failure (Directive × Cursor) := do
  let (handle, c) ← tagHandle c.skipSpaces
  if c.current ≠ ' ' then throw invalid
  let (expansion, c) ← tagSuffix c.skipSpaces
  if !isSpaceOrEnd c.current then throw invalid
  return (.tagHandle handle expansion, c)

/-- A directive whose mark stands at the cursor. -/
def directive (l : Lexer) : Except Failure Lexer := do
  let l ← (l.unwind (-1)).dropPlace
  let (name, c) := l.cursor.next.span isWordChar
  if name.isEmpty then throw invalid
  if !isSpaceOrEnd c.current then throw invalid
  let (found, c) ←
    if name = "YAML".toList then version c
    else if name = "TAG".toList then handleDirective c
    else pure (Directive.other, c.skip (!isBreakOrEnd ·))
  let c := c.skipSpaces.skipComment
  if !isBreakOrEnd c.current then throw invalid
  return { l.push (.directive found) with cursor := c.lineBreak.2, keyAllowed := false }

/-- A separator of documents. -/
def separator (l : Lexer) (t : Token) : Except Failure Lexer := do
  let l ← (l.unwind (-1)).dropPlace
  return { l.push t with cursor := l.cursor.advance 3, keyAllowed := false }

/-- An opening bracket or brace, which may begin a key. -/
def openFlow (l : Lexer) (t : Token) : Except Failure Lexer := do
  let l ← l.keepPlace
  return { l.push t with cursor := l.cursor.next, level := l.level + 1, keyAllowed := true }

/-- A closing bracket or brace. -/
def closeFlow (l : Lexer) (t : Token) : Except Failure Lexer := do
  let l ← l.dropPlace
  return { l.push t with cursor := l.cursor.next, level := l.level - 1, keyAllowed := false }

/-- A comma. -/
def flowEntry (l : Lexer) : Except Failure Lexer := do
  let l ← l.dropPlace
  return { l.push .flowEntry with cursor := l.cursor.next, keyAllowed := true }

/-- A dash in front of an item. -/
def blockEntry (l : Lexer) : Except Failure Lexer := do
  if l.level = 0 ∧ ¬l.keyAllowed then throw invalid
  let l :=
    if l.level = 0 then l.openBlock l.cursor.column .blockSequenceStart l.tokens.size else l
  let l ← l.dropPlace
  return { l.push .blockEntry with cursor := l.cursor.next, keyAllowed := true }

/-- A question mark in front of a key. -/
def explicitKey (l : Lexer) : Except Failure Lexer := do
  if l.level = 0 ∧ ¬l.keyAllowed then throw invalid
  let l :=
    if l.level = 0 then l.openBlock l.cursor.column .blockMappingStart l.tokens.size else l
  let l ← l.dropPlace
  return { l.push .key with cursor := l.cursor.next, keyAllowed := l.level == 0 }

/-- A colon behind a key. If the beginning of the key is known, its mark is put in there. -/
def value (l : Lexer) : Except Failure Lexer := do
  match l.places.lookup l.level with
  | some place =>
    let l := { l with places := l.places.filter fun (level, _) => level != l.level }
    let l := l.insertAt place.token .key
    let l := if l.level = 0 then l.openBlock place.column .blockMappingStart place.token else l
    return { l.push .value with cursor := l.cursor.next, keyAllowed := false }
  | none =>
    if l.level = 0 ∧ ¬l.keyAllowed then throw invalid
    let l :=
      if l.level = 0 then l.openBlock l.cursor.column .blockMappingStart l.tokens.size else l
    let l ← l.dropPlace
    return { l.push .value with cursor := l.cursor.next, keyAllowed := l.level == 0 }

/-- Whether a character may stand behind the name of an anchor or an alias. -/
def mayFollowName (c : Char) : Bool :=
  isBlankOrEnd c || ("?:,]%@`".toList).contains c || c == '\x7d'

/-- An anchor or an alias. -/
def name (l : Lexer) (make : String → Token) : Except Failure Lexer := do
  let l ← l.keepPlace
  let (word, c) := l.cursor.next.span isWordChar
  if word.isEmpty then throw invalid
  if !mayFollowName c.current then throw invalid
  return { l.push (make (String.ofList word)) with cursor := c, keyAllowed := false }

/-- Whether a tag has a handle of its own: an exclamation mark before the next blank. -/
def hasHandle (c : Cursor) : Bool :=
  (c.next.rest.takeWhile fun ch => !isSpaceOrEnd ch).contains '!'

/-- A tag. -/
def tag (l : Lexer) : Except Failure Lexer := do
  let l ← l.keepPlace
  let c := l.cursor
  let (found, c) ←
    if c.peek 1 = '<' then do
      let (suffix, c) ← tagSuffix (c.advance 2)
      if c.current ≠ '>' then throw invalid
      pure (Token.tag none suffix, c.next)
    else if isBlankOrEnd (c.peek 1) then pure (Token.tag none "!", c.next)
    else if hasHandle c then do
      let (handle, c) ← tagHandle c
      let (suffix, c) ← tagSuffix c
      pure (Token.tag (some handle) suffix, c)
    else do
      let (suffix, c) ← tagSuffix c.next
      pure (Token.tag (some "!") suffix, c)
  if !isSpaceOrEnd c.current then throw invalid
  return { l.push found with cursor := c, keyAllowed := false }

/-- A block scalar. -/
def block (l : Lexer) (foldLines : Bool) : Except Failure Lexer := do
  let l ← l.dropPlace
  let (text, c) ← blockScalar foldLines l.indent l.cursor
  return { l.push (.scalar (.ofChars text) false) with cursor := c, keyAllowed := true }

/-- A quoted scalar. -/
def quoted (l : Lexer) : Except Failure Lexer := do
  let l ← l.keepPlace
  let (text, c) ← quotedScalar l.cursor
  return { l.push (.scalar text false) with cursor := c, keyAllowed := false }

/-- A plain scalar. -/
def plain (l : Lexer) : Except Failure Lexer := do
  let l ← l.keepPlace
  let (text, c, newLine) := plainScalar (l.level != 0) (l.indent + 1) l.cursor
  return { l.push (.scalar (.ofChars text) true) with cursor := c, keyAllowed := newLine }

/-- The characters that begin no plain scalar. -/
def indicators : List Char := "-?:,[]\x7b\x7d#&*!|>'\"%@`".toList

/-- Whether a plain scalar begins at the cursor. -/
def atPlain (l : Lexer) : Bool :=
  let ch := l.cursor.current
  (!isBlankOrEnd ch && !indicators.contains ch) ||
    (!isBlankOrEnd (l.cursor.peek 1) && (ch == '-' || (l.level == 0 && (ch == '?' || ch == ':'))))

/-- Reads the next token, given that the cursor stands at it. -/
def scan (l : Lexer) : Except Failure Lexer :=
  let c := l.cursor
  let ch := c.current
  let spaced := isBlankOrEnd (c.peek 1)
  let inFlow := l.level != 0
  if ch = '%' ∧ c.column = 0 then l.directive
  else if c.column = 0 ∧ c.atMarks '-' then l.separator .documentStart
  else if c.column = 0 ∧ c.atMarks '.' then l.separator .documentEnd
  else if ch = '[' then l.openFlow .flowSequenceStart
  else if ch = '\x7b' then l.openFlow .flowMappingStart
  else if ch = ']' then l.closeFlow .flowSequenceEnd
  else if ch = '\x7d' then l.closeFlow .flowMappingEnd
  else if ch = ',' then l.flowEntry
  else if ch = '-' ∧ spaced then l.blockEntry
  else if ch = '?' ∧ (inFlow ∨ spaced) then l.explicitKey
  else if ch = ':' ∧ (inFlow ∨ spaced) then l.value
  else if ch = '*' then l.name .alias
  else if ch = '&' then l.name .anchor
  else if ch = '!' then l.tag
  else if ch = '|' ∧ ¬inFlow then l.block false
  else if ch = '>' ∧ ¬inFlow then l.block true
  else if ch = '\'' ∨ ch = '"' then l.quoted
  else if l.atPlain then l.plain
  else .error invalid

/-- Reads tokens up to the next one. -/
def advance (l : Lexer) : Except Failure Lexer := do
  let l ← (skipToToken (l.cursor.rest.length + 1) l).dropStale
  let l := l.unwind l.cursor.column
  if l.cursor.rest.isEmpty then l.streamEnd else l.scan

/-- Reads tokens to the end of the text, or to the first failure. -/
def run : (fuel : Nat) → Lexer → List Token × Option Failure
  | 0, l => (l.settled, some invalid)
  | fuel + 1, l =>
    match l.advance with
    | .error failure => (l.settled, some failure)
    | .ok next =>
      if next.cursor.rest.isEmpty ∧ next.tokens.back? = some .streamEnd then
        (next.tokens.toList, none)
      else run fuel next

end Lexer

/-- The tokens of a text, and the failure that ended them if one did. A byte order mark at the
beginning is passed over. -/
def Token.ofText (text : Text) : List Token × Option Failure :=
  match text.chars? with
  | none => ([], some invalid)
  | some cs =>
    if cs.all isAllowed then
      let cursor : Cursor := { rest := cs }
      let cursor := if cursor.current = '\uFEFF' then cursor.next else cursor
      Lexer.run (cs.length + 1) { cursor }
    else ([], some invalid)

end StockFlow.Yaml
