import StockFlow.Yaml.Pattern
import StockFlow.Yaml.Scalar
/-!
# The schema of YAML scalars

Which kind of value a scalar is. A scalar without a tag that is neither quoted nor a block is a
truth value, a number, a date, the absent value or one of two marks if it has the pattern of one,
and a text otherwise. Patterns are tried in a fixed order.
-/

namespace StockFlow.Yaml

/-- The kinds of values that tags name. -/
inductive Tag where
  | null
  | bool
  | int
  | float
  | timestamp
  | binary
  | str
  | seq
  | map
  | set
  | omap
  | pairs
  | merge
  | value
  | unknown
deriving DecidableEq

namespace Tag

/-- The beginning of the standard tags. -/
def standard : String := "tag:yaml.org,2002:"

/-- The kind that a tag names. -/
def ofText (s : String) : Tag :=
  let named : List (String × Tag) :=
    [("null", .null), ("bool", .bool), ("int", .int), ("float", .float),
     ("timestamp", .timestamp), ("binary", .binary), ("str", .str), ("seq", .seq), ("map", .map),
     ("set", .set), ("omap", .omap), ("pairs", .pairs), ("merge", .merge), ("value", .value)]
  (named.findSome? fun (name, tag) => if s = standard ++ name then some tag else none).getD .unknown

/-- Whether values of a kind have parts. -/
def isCollection : Tag → Bool
  | .seq | .map | .set | .omap | .pairs => true
  | _ => false

end Tag

open Pattern

/-! ## The patterns -/

/-- A decimal digit. -/
def digit : Pattern := oneOf "0123456789"

/-- Decimal digits and underscores, or none. -/
def digitsOrBars : Pattern := .many (oneOf "0123456789_")

/-- A sign or none. -/
def optionalSign : Pattern := optional (oneOf "-+")

/-- The parts of a number to the base sixty behind the first one. -/
def sixties : Pattern := some (sequence [char ':', optional (oneOf "012345"), digit])

/-- The exponent of a number or none. -/
def optionalExponent : Pattern := optional (sequence [oneOf "eE", oneOf "-+", some digit])

/-- The truth values. -/
def boolPattern : Pattern :=
  anyWord
    ["yes", "Yes", "YES", "no", "No", "NO", "true", "True", "TRUE", "false", "False", "FALSE",
     "on", "On", "ON", "off", "Off", "OFF"]

/-- Numbers with a point, and the numbers that are not finite. -/
def floatPattern : Pattern :=
  anyOf
    [sequence [optionalSign, digit, digitsOrBars, char '.', digitsOrBars, optionalExponent],
     sequence [char '.', digit, digitsOrBars, optionalExponent],
     sequence [optionalSign, digit, digitsOrBars, sixties, char '.', digitsOrBars],
     sequence [optionalSign, anyWord [".inf", ".Inf", ".INF"]],
     anyWord [".nan", ".NaN", ".NAN"]]

/-- Whole numbers to the bases two, eight, ten, sixteen and sixty. -/
def intPattern : Pattern :=
  .both optionalSign
    (anyOf
      [sequence [word "0b", some (oneOf "01_")],
       sequence [char '0', some (oneOf "01234567_")],
       anyOf [char '0', sequence [oneOf "123456789", digitsOrBars]],
       sequence [word "0x", some (oneOf "0123456789abcdefABCDEF_")],
       sequence [oneOf "123456789", digitsOrBars, sixties]])

/-- The absent value. -/
def nullPattern : Pattern := anyWord ["~", "null", "Null", "NULL", ""]

/-- Spaces and tabs. -/
def blanks : Pattern := .many (oneOf " \t")

/-- One digit or two. -/
def oneOrTwo : Pattern := .both digit (optional digit)

/-- Exactly two digits. -/
def two : Pattern := .both digit digit

/-- Dates, and dates with a time of day. -/
def timestampPattern : Pattern :=
  let year := sequence [digit, digit, digit, digit]
  let zone := .either (char 'Z') (sequence [oneOf "-+", oneOrTwo, optional (.both (char ':') two)])
  anyOf
    [sequence [year, char '-', two, char '-', two],
     sequence
       [year, char '-', oneOrTwo, char '-', oneOrTwo,
        .either (oneOf "Tt") (some (oneOf " \t")),
        oneOrTwo, char ':', two, char ':', two,
        optional (.both (char '.') (.many digit)),
        optional (.both blanks zone)]]

/-- The kinds with a pattern, in the order in which they are tried. The marks of tags, anchors and
aliases, standing alone, have a pattern but are of no known kind. -/
def implicitTags : List (Tag × Pattern) :=
  [(.bool, boolPattern), (.float, floatPattern), (.int, intPattern), (.merge, word "<<"),
   (.null, nullPattern), (.timestamp, timestampPattern), (.value, word "="),
   (.unknown, oneOf "!&*")]

/-- The characters that a pattern is compared with: a line feed at the end does not count, unless
there is nothing else. -/
def patternChars (cs : List Char) : List Char :=
  if cs.getLast? = Option.some '\n' ∧ cs ≠ ['\n'] then cs.dropLast else cs

/-- The kind of characters without a tag. -/
def implicitCharsTag (cs : List Char) : Tag :=
  let shown := patternChars cs
  (implicitTags.findSome? fun (tag, p) => if p.accepts shown then Option.some tag else none).getD .str

/-- The kind of a scalar without a tag. -/
def implicitTag (s : Text) : Tag :=
  match s.chars? with
  | Option.some cs => implicitCharsTag cs
  | none => .str

end StockFlow.Yaml
