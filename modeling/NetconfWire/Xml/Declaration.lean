/-
The declaration with which a document may begin.

It gives the version, which is one of 1.0 or a later version of the same line,
and it may name an encoding and say whether the document stands alone.
-/
import NetconfWire.Text.Blank
import NetconfWire.Xml.Scan

namespace NetconfWire.Xml

/-- What a document declares of itself. -/
structure Declaration where
  encoding : Option String
  standalone : Bool
  deriving DecidableEq, Repr

namespace Declaration

/-- A version of the line 1. -/
def isVersion : List Char → Bool
  | '1' :: '.' :: minor => minor.all isDigit
  | _ => false

/-- A name that an encoding can have. -/
def isEncodingName (s : List Char) : Bool :=
  s.head?.any isLetter &&
    s.all fun c => isLetter c || isDigit c || c == '.' || c == '_' || c == '-'

/-- The encoding, if it is named here. -/
def encodingPart : Scan (Option String) := do
  if ← Scan.tries "encoding" then
    Scan.equals
    let e ← Scan.quoted
    if !isEncodingName e then failure
    return some (String.ofList e)
  else return none

/-- Whether the document stands alone, if that is said here. -/
def standalonePart : Scan Bool := do
  if ← Scan.tries "standalone" then
    Scan.equals
    let answer ← Scan.quoted
    if answer == "yes".toList then return true
    if answer == "no".toList then return false
    failure
  else return false

/-- Scans a declaration after its first word. -/
def scan : Scan Declaration := do
  Scan.gap
  Scan.word "version"
  Scan.equals
  if !isVersion (← Scan.quoted) then failure
  let spaced ← Scan.blanks
  if ← Scan.tries "?>" then return ⟨none, false⟩
  if !spaced then failure
  let encoding ← encodingPart
  let spaced ← if encoding.isSome then Scan.blanks else pure true
  if ← Scan.tries "?>" then return ⟨encoding, false⟩
  if !spaced then failure
  let standalone ← standalonePart
  let _ ← Scan.blanks
  Scan.word "?>"
  return ⟨encoding, standalone⟩

/-- Scans the declaration of a document that has one. -/
def scanIfThere : Scan (Option Declaration) := fun s =>
  match s with
  | '<' :: '?' :: 'x' :: 'm' :: 'l' :: c :: rest =>
    if isBlank c then (scan (c :: rest)).map fun (d, behind) => (some d, behind) else some (none, s)
  | _ => some (none, s)

/-- An encoding is named here in quotes of any kind. -/
def encodingFollows (s : List Char) : Bool :=
  let isQuote := fun c : Char => c == '"' || c == '\''
  "encoding".toList.isPrefixOf s &&
    match (s.drop 8).dropWhile Text.isBlank with
    | '=' :: rest =>
      match rest.dropWhile Text.isBlank with
      | c :: value => isQuote c && value.any isQuote
      | [] => false
    | _ => false

/-- An encoding is named before the next greater-than sign, after a blank with something before it;
`n` characters lie before this place, the last of them `previous`. -/
def encodingAhead (n : Nat) (previous : Char) : List Char → Bool
  | [] => false
  | c :: rest =>
    (2 ≤ n && Text.isBlank previous && encodingFollows (c :: rest)) ||
      (c != '>' && encodingAhead (n + 1) c rest)

/-- The text begins with what looks like a declaration that names an encoding. -/
def namesEncoding (s : List Char) : Bool :=
  "<?xml".toList.isPrefixOf s && encodingAhead 0 'l' (s.drop 5)

end Declaration

end NetconfWire.Xml
