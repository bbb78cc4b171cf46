/-
The characters of XML 1.0.

A document may hold tab, line feed, carriage return and every character from
the space on, apart from U+FFFE and U+FFFF.  Names begin with a letter, a low
line or a colon; further characters may be digits, hyphens, full stops and
combining marks as well.
-/

namespace NetconfWire.Xml

/-- A character that a document may hold. -/
def isChar (c : Char) : Bool :=
  c == '\t' || c == '\n' || c == '\r' ||
    (0x20 ≤ c.toNat && c.toNat ≠ 0xFFFE && c.toNat ≠ 0xFFFF)

/-- A blank of markup. -/
def isBlank (c : Char) : Bool :=
  c == ' ' || c == '\t' || c == '\n' || c == '\r'

/-- The code lies in one of the ranges. -/
def inRanges (ranges : List (Nat × Nat)) (n : Nat) : Bool :=
  ranges.any fun r => r.1 ≤ n && n ≤ r.2

/-- The codes with which a name may begin. -/
def nameStartRanges : List (Nat × Nat) :=
  [(0x3A, 0x3A), (0x41, 0x5A), (0x5F, 0x5F), (0x61, 0x7A), (0xC0, 0xD6), (0xD8, 0xF6),
   (0xF8, 0x2FF), (0x370, 0x37D), (0x37F, 0x1FFF), (0x200C, 0x200D), (0x2070, 0x218F),
   (0x2C00, 0x2FEF), (0x3001, 0xD7FF), (0xF900, 0xFDCF), (0xFDF0, 0xFFFD), (0x10000, 0xEFFFF)]

/-- The codes that may stand in a name but not begin it. -/
def nameInnerRanges : List (Nat × Nat) :=
  [(0x2D, 0x2E), (0x30, 0x39), (0xB7, 0xB7), (0x300, 0x36F), (0x203F, 0x2040)]

/-- A character with which a name may begin. -/
def isNameStart (c : Char) : Bool :=
  inRanges nameStartRanges c.toNat

/-- A character that may stand in a name. -/
def isNameChar (c : Char) : Bool :=
  isNameStart c || inRanges nameInnerRanges c.toNat

/-- A name. -/
def isName (s : List Char) : Bool :=
  s.head?.any isNameStart && s.all isNameChar

/-- A name without a colon. -/
def isPlainName (s : List Char) : Bool :=
  isName s && !s.contains ':'

/-- A letter of ASCII. -/
def isLetter (c : Char) : Bool :=
  ('a' ≤ c && c ≤ 'z') || ('A' ≤ c && c ≤ 'Z')

/-- A decimal digit of ASCII. -/
def isDigit (c : Char) : Bool :=
  '0' ≤ c && c ≤ '9'

/-- Line ends are a single line feed each: a carriage return becomes one, together with a line feed
that follows it. -/
def unifyLineEnds : List Char → List Char
  | '\r' :: '\n' :: rest => '\n' :: unifyLineEnds rest
  | '\r' :: rest => '\n' :: unifyLineEnds rest
  | c :: rest => c :: unifyLineEnds rest
  | [] => []

end NetconfWire.Xml
