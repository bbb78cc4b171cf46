/-
Reading a `<hello>` from a document.

The root must be the `hello` element of the base namespace.  The capabilities
are the texts of the `capability` elements in its `capabilities` elements, the
session id is the integer in its first `session-id` element; white space around
them does not count.

* `Hello.read` gives the message that a document holds.
* `Hello.advertised` gives the capabilities of any document.
-/
import NetconfWire.Hello.Writer
import NetconfWire.Xml.Document

namespace NetconfWire.Hello

/-- An element name of the base namespace. -/
def baseTag (name : String) : Xml.Tag :=
  ⟨some baseNamespace, name⟩

/-- The text of an element without white space around it; no text is the empty text. -/
def trimmedText (e : Xml.Element) : List Char :=
  Text.strip (e.text?.getD [])

/-- The capabilities that a `hello` element advertises; other elements advertise none. -/
def advertised (root : Xml.Element) : List String :=
  if root.tag = baseTag "hello" then
    let lists := root.below (baseTag "capabilities")
    (lists.flatMap fun e => e.below (baseTag "capability")).map fun e =>
      String.ofList (trimmedText e)
  else []

/-- The session id of a `hello` element; null if there is none. -/
def sessionIdOf (root : Xml.Element) : Except HelloFlaw Datum :=
  match root.below (baseTag "session-id") with
  | [] => .ok .null
  | e :: _ =>
    match Numeral.ofText (String.ofList (trimmedText e)) with
    | .ok n => .ok (.integer n)
    | .error _ => .error (.badSessionId (e.text?.map String.ofList))

/-- The message that a root element stands for. -/
def ofElement (root : Xml.Element) : Except HelloFlaw Hello := do
  if root.tag ≠ baseTag "hello" then throw (.wrongRoot root.tag.written)
  let capabilities := advertised root
  if capabilities.isEmpty then throw .noCapability
  let sessionId ← sessionIdOf root
  return ofParts (capabilities.map Datum.text) sessionId

/-- Reads the message that a document holds. -/
def read (raw : Datum) (decoding : Xml.Decoding := Xml.Coding.characters?) : Except Fault Hello :=
  match Xml.Document.read raw decoding with
  | .ok root => (ofElement root).mapError fun why => .helloUnreadable raw why
  | .error .malformed => .error (.helloUnreadable raw .malformed)
  | .error .namesEncoding => .error (.helloUnreadable raw .declaresEncoding)
  | .error (.noDocument kind) => .error (.notADocument kind)

/-- The capabilities that a document advertises. -/
def advertisedIn (raw : Datum) (decoding : Xml.Decoding := Xml.Coding.characters?) :
    Except Fault (List String) :=
  ((Xml.Document.read raw decoding).mapError Xml.DocumentFault.toFault).map advertised

end NetconfWire.Hello
