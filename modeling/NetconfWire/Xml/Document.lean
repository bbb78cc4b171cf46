/-
Reading documents.

A document is a declaration, comments and processing instructions, a document
type declaration and content, of which only the content must be there.  It may be
given as octets, whose coding is found out, or as text, which names no encoding.
How octets are decoded is a parameter; `Coding.characters?` is what it is by default.
-/
import NetconfWire.Fault.Basic
import NetconfWire.Xml.Coding
import NetconfWire.Xml.Tree

namespace NetconfWire.Xml

/-- Why a document cannot be read. -/
inductive DocumentFault
  /-- It is not well formed. -/
  | malformed
  /-- It is text that names an encoding. -/
  | namesEncoding
  /-- A value of this kind holds no document. -/
  | noDocument (kind : String)
  deriving DecidableEq, Repr

/-- What a document fault is to callers that have no better word for it. -/
def DocumentFault.toFault : DocumentFault → Fault
  | malformed => .malformedMarkup
  | namesEncoding => .declaresEncoding
  | noDocument kind => .notADocument kind

namespace Document

/-- Comments and processing instructions, and the remarks on them. -/
def asides : Scan (List Remark) := do
  let each ← Scan.many do
    let _ ← Scan.blanks
    if ← Scan.tries "<!--" then
      let _ ← Piece.comment?
      return some []
    else if ← Scan.tries "<?" then
      match ← Piece.instruction? with
      | .instruction target => return some (Remark.onTarget target)
      | _ => failure
    else return none
  return each.flatten

/-- What stands before the content, as a document type declaration. -/
def prolog (size : Nat) : Scan Dtd := do
  let declaration ← Declaration.scanIfThere
  let standalone := (declaration.map (·.standalone)).getD false
  let before ← asides
  let d : Dtd := { Dtd.none standalone (Thrift.allowance size) with remarks := before }
  if ← Scan.tries "<!DOCTYPE" then
    let (_, d) ← Dtd.scan d
    return d
  else return d

/-- The root element of the document with the given characters. -/
def ofChars (s : List Char) : Option Element := do
  if !s.all isChar then failure
  let s := unifyLineEnds s
  let (d, content) ← prolog s.length s
  Element.ofEvents d.remarks (← Event.ofContent d content)

/-- The root element of a document of octets. -/
def ofOctets (b : Octets) (decoding : Decoding := Coding.characters?) : Option Element :=
  (decoding b).bind ofChars

/-- Drops the marks that may stand before text. -/
def withoutMarks (s : List Char) : List Char :=
  let drop (marks : List Char) : List Char → List Char
    | [] => []
    | c :: rest => if marks.contains c then rest else c :: rest
  drop ['\uFEFF'] (drop ['\uFEFF', '\uFFFE'] s)

/-- The root element of a document of text. -/
def ofText (s : String) : Except DocumentFault Element :=
  if Declaration.namesEncoding s.toList then .error .namesEncoding
  else
    match ofChars (withoutMarks s.toList) with
    | some e => .ok e
    | none => .error .malformed

/-- The root element of the document that a value holds. -/
def read (given : Datum) (decoding : Decoding := Coding.characters?) :
    Except DocumentFault Element :=
  match given with
  | .text s => ofText s
  | .octets _ b =>
    match ofOctets b decoding with
    | some e => .ok e
    | none => .error .malformed
  | _ => .error (.noDocument given.kindName)

end Document

end NetconfWire.Xml
