/-
Scanning markup from the left.

A scanner takes a result off the front of the characters left, or fails.  The
scanners here are the parts that all markup shares: blanks, fixed words, names,
and text up to a mark or between quotes.
-/
import NetconfWire.Text.Hex
import NetconfWire.Xml.Char

namespace NetconfWire.Xml

/-- Takes a result off the front of the characters left, or fails. -/
abbrev Scan := StateT (List Char) Option

/-- The characters before the first occurrence of `mark`, and those behind it. -/
def splitOnce (mark : List Char) : List Char → Option (List Char × List Char)
  | [] => none
  | c :: rest =>
    if mark.isPrefixOf (c :: rest) then some ([], (c :: rest).drop mark.length)
    else (splitOnce mark rest).map fun (before, behind) => (c :: before, behind)

namespace Scan

/-- The text stands at the front. -/
def sees (text : String) : Scan Bool := fun s =>
  some (text.toList.isPrefixOf s, s)

/-- Nothing is left. -/
def atEnd : Scan Bool := fun s =>
  some (s.isEmpty, s)

/-- Takes the text off if it stands at the front, and tells whether it did. -/
def tries (text : String) : Scan Bool := fun s =>
  if text.toList.isPrefixOf s then some (true, s.drop text.toList.length) else some (false, s)

/-- Takes the text off. -/
def word (text : String) : Scan Unit := fun s =>
  if text.toList.isPrefixOf s then some ((), s.drop text.toList.length) else none

/-- Takes off the longest run of characters that satisfy `p`. -/
def run (p : Char → Bool) : Scan (List Char) := fun s =>
  some (s.span p)

/-- Takes off a run of at least one character. -/
def someRun (p : Char → Bool) : Scan (List Char) := do
  let r ← run p
  if r.isEmpty then failure
  return r

/-- Takes off blanks, and tells whether there were any. -/
def blanks : Scan Bool := do
  return !(← run isBlank).isEmpty

/-- Takes off blanks, of which there must be one. -/
def gap : Scan Unit := do
  if !(← blanks) then failure

/-- The characters before `mark`, which is taken off as well. -/
def upTo (mark : String) : Scan (List Char) := fun s =>
  splitOnce mark.toList s

/-- A name, colons included. -/
def name : Scan String := do
  let r ← run isNameChar
  if !isName r then failure
  return String.ofList r

/-- The characters between two quotes of the same kind. -/
def quoted : Scan (List Char) := do
  if ← tries "\"" then upTo "\""
  else
    word "'"
    upTo "'"

/-- An equals sign, which may have blanks around it. -/
def equals : Scan Unit := do
  let _ ← blanks
  word "="
  let _ ← blanks

/-- Results of `step`, until it gives none; at most `fuel` of them. -/
def manyFrom {α : Type} (step : Scan (Option α)) : Nat → Scan (List α)
  | 0 => failure
  | fuel + 1 => do
    match ← step with
    | none => return []
    | some a => return a :: (← manyFrom step fuel)

/-- Results of `step`, until it gives none; each takes a character off, so that there are no more of
them than characters. -/
def many {α : Type} (step : Scan (Option α)) : Scan (List α) := fun s =>
  manyFrom step (s.length + 1) s

/-- A character given by its code in decimal or hexadecimal, after `&#`. -/
def characterCode : Scan Char := do
  let code ←
    if ← tries "x" then
      let digits ← someRun fun c => (Text.hexValue? c).isSome
      pure ((digits.filterMap Text.hexValue?).foldl (fun n d => 16 * n + d) 0)
    else
      let digits ← someRun isDigit
      pure (digits.foldl (fun n d => 10 * n + (d.toNat - 48)) 0)
  word ";"
  if code.isValidChar && isChar (Char.ofNat code) then return Char.ofNat code
  failure

/-- A reference to an entity by its name, after `&` or `%`. -/
def entityName : Scan String := do
  let n ← name
  word ";"
  return n

end Scan

end NetconfWire.Xml
