/-
What can go wrong.

A fault is a cause with the facts that belong to it; its wording is found in
`Fault.report`.  Faults of framing mean that the position in the incoming
stream can no longer be trusted.
-/
import NetconfWire.Datum.Basic
import NetconfWire.Number.Numeral
import NetconfWire.Pattern.Reader
import NetconfWire.Text.Charset

namespace NetconfWire

/-- How a link, or a block of work around a session, fails. -/
inductive Trouble
  | failed
  | reset
  | brokenPipe
  | timedOut
  | refused
  deriving DecidableEq, Repr

/-- Why the content of a `<hello>` cannot be written. -/
inductive ContentFault
  /-- A value of this kind is no content of an element. -/
  | notText (kind : String)
  /-- The text has characters that no XML document holds. -/
  | characters
  /-- The session id is no number. -/
  | numeral (why : NumeralFault)
  /-- A value of this kind cannot become an integer. -/
  | notNumeric (kind : String)
  /-- The session id is a floating-point value that is not a number. -/
  | notANumber
  deriving DecidableEq, Repr

/-- Why a document is no acceptable `<hello>`. -/
inductive HelloFlaw
  | malformed
  /-- A document given as text declares an encoding. -/
  | declaresEncoding
  | wrongRoot (tag : String)
  | noCapability
  | badSessionId (text : Option String)
  deriving DecidableEq, Repr

/-- A fault. -/
inductive Fault
  | sessionClosed
  /-- A chunk header is no length; `decoded` octets were reassembled before it. -/
  | chunkHeader (offset : Nat) (header : Octets) (decoded : Nat)
  /-- A chunk announces more octets than the frame has left. -/
  | chunkOverrun (offset length available decoded : Nat)
  /-- The stream ended inside a frame. -/
  | frameIncomplete (buffered : Nat)
  /-- No boundary was found among more octets than the limit allows. -/
  | frameTooLarge (buffered limit : Nat)
  | helloEmpty
  | helloUnwritable (why : ContentFault)
  | helloUnreadable (raw : Datum) (why : HelloFlaw)
  | numeral (why : NumeralFault)
  /-- An infinity cannot become an integer. -/
  | infiniteInteger
  | versionUnknown (given : Datum)
  | payloadKind (given : Datum)
  | delimiterEmpty
  | windowTooNarrow
  | limitBelowWindow
  | notIterable (kind : String)
  /-- A value of this kind has no stable identity. -/
  | unfilable (kind : String)
  | charset (why : CharsetFault)
  | pattern (source : List Char) (why : PatternFault)
  | notAPattern
  /-- A pattern for text was applied to octets. -/
  | textPattern
  /-- A document that is not well formed, outside of the reading of a `<hello>`. -/
  | malformedMarkup
  /-- A value of this kind cannot hold a document. -/
  | notADocument (kind : String)
  /-- A document given as text declares an encoding. -/
  | declaresEncoding
  /-- A field that cannot be assigned. -/
  | fixedField
  /-- The class of an object was to become a value of this kind. -/
  | classField (kind : String)
  /-- A fault from outside: of the link or of the block of work around a session. -/
  | foreign (trouble : Trouble) (text : String)
  deriving Repr

end NetconfWire
