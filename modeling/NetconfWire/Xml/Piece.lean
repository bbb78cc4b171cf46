/-
Pieces of markup.

The content of a document, or of an entity, is a row of pieces: tags, text,
references, comments and processing instructions.  Pieces are told apart by how
they begin, so that a row of characters is cut into pieces in one way only.
-/
import NetconfWire.Xml.Scan

namespace NetconfWire.Xml

/-- A piece of markup; attribute values stand as they were written. -/
inductive Piece
  | opening (name : String) (attributes : List (String × List Char)) (isEmpty : Bool)
  | closing (name : String)
  | text (s : List Char)
  /-- A character given by its code. -/
  | coded (c : Char)
  /-- A section of text without markup. -/
  | verbatim (s : List Char)
  | reference (entity : String)
  | comment
  | instruction (target : String)
  deriving DecidableEq, Repr

namespace Piece

/-- What follows the name in an opening tag: attributes, each after a blank, and the end of the tag,
which tells whether the element is empty. -/
def tagRest : Nat → Scan (List (String × List Char) × Bool)
  | 0 => failure
  | fuel + 1 => do
    let spaced ← Scan.blanks
    if ← Scan.tries ">" then return ([], false)
    if ← Scan.tries "/>" then return ([], true)
    if !spaced then failure
    let name ← Scan.name
    Scan.equals
    let value ← Scan.quoted
    if value.contains '<' then failure
    let (more, isEmpty) ← tagRest fuel
    return ((name, value) :: more, isEmpty)

/-- An opening tag, after its first character. -/
def opening? : Scan Piece := do
  let name ← Scan.name
  let (attributes, isEmpty) ← fun s => tagRest (s.length + 1) s
  return opening name attributes isEmpty

/-- A closing tag, after its first two characters. -/
def closing? : Scan Piece := do
  let name ← Scan.name
  let _ ← Scan.blanks
  Scan.word ">"
  return closing name

/-- A comment, after its opening; two hyphens stand only at its end. -/
def comment? : Scan Piece := do
  let _ ← Scan.upTo "--"
  Scan.word ">"
  return comment

/-- A processing instruction, after its first two characters; its target is not `xml`. -/
def instruction? : Scan Piece := do
  let target ← Scan.name
  if target.toLower == "xml" then failure
  if !(← Scan.tries "?>") then
    Scan.gap
    let _ ← Scan.upTo "?>"
  return instruction target

/-- A run of text, in which the end of a section of text does not occur. -/
def text? : Scan Piece := do
  let s ← Scan.someRun fun c => c != '<' && c != '&'
  if (splitOnce "]]>".toList s).isSome then failure
  return text s

/-- The piece at the front. -/
def scan : Scan Piece := do
  if ← Scan.tries "<!--" then comment?
  else if ← Scan.tries "<![CDATA[" then return verbatim (← Scan.upTo "]]>")
  else if ← Scan.tries "<?" then instruction?
  else if ← Scan.tries "</" then closing?
  else if ← Scan.tries "<" then opening?
  else if ← Scan.tries "&#" then return coded (← Scan.characterCode)
  else if ← Scan.tries "&" then return reference (← Scan.entityName)
  else text?

/-- The piece at the front of an attribute value or of the value of an entity, where only references
are markup. -/
def scanValue : Scan Piece := do
  if ← Scan.tries "&#" then return coded (← Scan.characterCode)
  else if ← Scan.tries "&" then return reference (← Scan.entityName)
  else return text (← Scan.someRun (· != '&'))

/-- Cuts characters into pieces, at most `fuel` of them. -/
def cut (front : Scan Piece) : Nat → List Char → Option (List Piece)
  | _, [] => some []
  | 0, _ :: _ => none
  | fuel + 1, s@(_ :: _) => do
    let (p, rest) ← front s
    return p :: (← cut front fuel rest)

/-- The pieces of content that the characters are made of. -/
def ofContent (s : List Char) : Option (List Piece) :=
  cut scan s.length s

/-- The pieces of a value that the characters are made of. -/
def ofValue (s : List Char) : Option (List Piece) :=
  cut scanValue s.length s

end Piece

end NetconfWire.Xml
