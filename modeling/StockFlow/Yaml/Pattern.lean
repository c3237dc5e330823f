/-!
# Patterns of texts

Regular patterns over characters, and whether a text has one. A text is matched by taking the
derivative of the pattern by each character in turn and asking at the end whether nothing more is
needed.
-/

namespace StockFlow.Yaml

/-- A regular pattern. -/
inductive Pattern where
  | never
  | nothing
  | one (p : Char → Bool)
  | both (first second : Pattern)
  | either (first second : Pattern)
  | many (p : Pattern)

namespace Pattern

/-- Whether the empty text has a pattern. -/
def acceptsNothing : Pattern → Bool
  | .never => false
  | .nothing => true
  | .one _ => false
  | .both a b => a.acceptsNothing && b.acceptsNothing
  | .either a b => a.acceptsNothing || b.acceptsNothing
  | .many _ => true

/-- One pattern after another, in its shortest form. -/
def followedBy : Pattern → Pattern → Pattern
  | .never, _ => .never
  | .nothing, b => b
  | a, b => .both a b

/-- One pattern or another, in its shortest form. -/
def orElse : Pattern → Pattern → Pattern
  | .never, b => b
  | a, .never => a
  | a, b => .either a b

/-- What is left of a pattern after a character. -/
def after (c : Char) : Pattern → Pattern
  | .never => .never
  | .nothing => .never
  | .one p => if p c then .nothing else .never
  | .both a b =>
    let first := (a.after c).followedBy b
    if a.acceptsNothing then first.orElse (b.after c) else first
  | .either a b => (a.after c).orElse (b.after c)
  | .many a => (a.after c).followedBy (.many a)

/-- Whether characters have a pattern. -/
def accepts (p : Pattern) (cs : List Char) : Bool :=
  (cs.foldl (fun p c => p.after c) p).acceptsNothing

/-- A single character. -/
def char (c : Char) : Pattern := .one (· == c)

/-- One of several characters. -/
def oneOf (cs : String) : Pattern := .one fun c => cs.toList.contains c

/-- A fixed text. -/
def word (s : String) : Pattern := s.toList.foldr (fun c p => .both (char c) p) .nothing

/-- One of several fixed texts. -/
def anyWord (words : List String) : Pattern := words.foldr (fun w p => .either (word w) p) .never

/-- A pattern or nothing. -/
def optional (p : Pattern) : Pattern := .either p .nothing

/-- A pattern at least once. -/
def some (p : Pattern) : Pattern := .both p (.many p)

/-- Several patterns one after the other. -/
def sequence (ps : List Pattern) : Pattern := ps.foldr .both .nothing

/-- One of several patterns. -/
def anyOf (ps : List Pattern) : Pattern := ps.foldr .either .never

end Pattern

end StockFlow.Yaml
