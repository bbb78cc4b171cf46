/-
White space in Unicode text.

A character is blank when it is a space separator or one of the controls that
separate words, lines or records.  `strip` removes blanks from both ends.
-/

namespace NetconfWire.Text

/-- The code points of white space. -/
def blankCodes : List Nat :=
  [9, 10, 11, 12, 13, 28, 29, 30, 31, 32, 133, 160, 5760, 8192, 8193, 8194, 8195, 8196, 8197,
   8198, 8199, 8200, 8201, 8202, 8232, 8233, 8239, 8287, 12288]

/-- White space in the sense of Unicode. -/
def isBlank (c : Char) : Bool :=
  blankCodes.contains c.toNat

/-- The separator controls U+001C to U+001F: blank, but no padding of a number. -/
def isSeparatorControl (c : Char) : Bool :=
  28 ≤ c.toNat && c.toNat ≤ 31

/-- Removes the characters that satisfy `p` from both ends. -/
def trimBoth (p : Char → Bool) (s : List Char) : List Char :=
  ((s.dropWhile p).reverse.dropWhile p).reverse

/-- Removes white space from both ends. -/
def strip (s : List Char) : List Char :=
  trimBoth isBlank s

end NetconfWire.Text
