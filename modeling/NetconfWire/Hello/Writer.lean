/-
Writing a `<hello>` as a document.

The document stands in the base namespace and has no white space between its
elements.  A capability must be text that XML can hold, ASCII octets, or null,
which is written as an empty tag; the session id must be convertible to an
integer.

* `Hello.write` gives the octets of the document.
-/
import NetconfWire.Hello.Basic
import NetconfWire.Text.Utf8
import NetconfWire.Xml.Char

namespace NetconfWire

/-- The namespace of the protocol. -/
def baseNamespace : String := "urn:ietf:params:xml:ns:netconf:base:1.0"

namespace Xml

/-- How a character of text is written. -/
def escapeChar (c : Char) : List Char :=
  if c == '&' then "&amp;".toList
  else if c == '<' then "&lt;".toList
  else if c == '>' then "&gt;".toList
  else if c == '\r' then "&#13;".toList
  else [c]

/-- How text is written. -/
def escape (s : List Char) : List Char :=
  s.flatMap escapeChar

/-- An element that holds text, or nothing at all. -/
def textElement (name : String) (content : Option (List Char)) : List Char :=
  match content with
  | some s => ("<" ++ name ++ ">").toList ++ escape s ++ ("</" ++ name ++ ">").toList
  | none => ("<" ++ name ++ "/>").toList

end Xml

namespace Hello

/-- The octets as ASCII characters. -/
def asciiText (b : Octets) : Except ContentFault (List Char) :=
  let s := b.map fun x => Char.ofNat x.toNat
  if s.all fun c => c.toNat < 128 && Xml.isChar c then .ok s else .error .characters

/-- What an element holds for a value; null stands for nothing. -/
def content (d : Datum) : Except ContentFault (Option (List Char)) :=
  match d with
  | .null => .ok none
  | .text s => if s.toList.all Xml.isChar then .ok (some s.toList) else .error .characters
  | .octets .view _ => .error (.notText d.kindName)
  | .octets _ b => (asciiText b).map some
  | _ => .error (.notText d.kindName)

/-- The integer that a value converts to. -/
def integerOf (d : Datum) : Except Fault Int :=
  match d with
  | .truth b => .ok (if b then 1 else 0)
  | .integer n => .ok n
  | .real x =>
    match x with
    | .nan => .error (.helloUnwritable .notANumber)
    | .infinite _ => .error .infiniteInteger
    | .finite .. => .ok (x.truncate?.getD 0)
  | .text s => (Numeral.ofText s).mapError fun why => .helloUnwritable (.numeral why)
  | .octets _ b => (Numeral.ofOctets b).mapError fun why => .helloUnwritable (.numeral why)
  | _ => .error (.helloUnwritable (.notNumeric d.kindName))

/-- The numeral of a session id; there is none when the session id counts as absent. -/
def sessionNumeral (d : Datum) : Except Fault (Option (List Char)) := do
  if d.isAbsent then return none
  let n ← integerOf d
  let digits ← (Numeral.write n).mapError fun why => Fault.helloUnwritable (.numeral why)
  return some digits

/-- The first line of the document. -/
def declaration : List Char :=
  "<?xml version='1.0' encoding='UTF-8'?>\n".toList

/-- The document with the given capabilities and session id. -/
def document (capabilities : List (Option (List Char))) (sessionId : Option (List Char)) :
    List Char :=
  declaration ++ ("<hello xmlns=\"" ++ baseNamespace ++ "\"><capabilities>").toList
    ++ capabilities.flatMap (Xml.textElement "capability")
    ++ "</capabilities>".toList
    ++ (match sessionId with
      | some digits => Xml.textElement "session-id" (some digits)
      | none => [])
    ++ "</hello>".toList

/-- Writes a message as a document. -/
def write (h : Hello) : Except Fault Octets := do
  if h.capabilities.isEmpty then throw .helloEmpty
  let capabilities ← (h.capabilities.mapM content).mapError Fault.helloUnwritable
  let sessionId ← sessionNumeral h.sessionId
  return Utf8.encode (document capabilities sessionId)

end Hello

end NetconfWire
