/-
What sessions exchange.

Messages are framed for the version of the session, and read from frames of that
version.  The messages of introduction are documents in frames like any other.
-/
import NetconfWire.Chunk.Reassembly
import NetconfWire.Hello.Reader
import NetconfWire.Session.Basic

namespace NetconfWire

/-- The note on how the reading of a chunked frame ended, if there is one. -/
def Chunk.Ending.note? (decoded : Nat) : Chunk.Ending → Option Note
  | .marker => none
  | .exhausted => some (.markerMissing decoded)

namespace Session

variable {κ : Type} [Link κ]

/-- Sends a payload in a frame. -/
def send (payload : Datum) : SessionTask κ Unit := do
  checkOpen
  note (.sending payload)
  let frame ← MonadExcept.ofExcept (Frame.ofPayload (.version (← get).version) payload)
  transmit frame

/-- Receives a base 1.0 frame and gives its message. -/
def receiveDelimited : SessionTask κ Octets :=
  onLine (Line.waitForOctets Frame.delimiter)

/-- Receives a base 1.1 frame and gives its message. -/
def receiveChunked : SessionTask κ Octets := do
  let (frame, _) ← onLine (Line.waitFor (Boundary.ofDelimiter Chunk.terminator))
  let (message, ending) ← MonadExcept.ofExcept (Chunk.decode frame)
  if let some n := ending.note? message.length then note n
  return message

/-- Receives a message. -/
def receive : SessionTask κ Octets := do
  checkOpen
  let message ← match (← get).version with
    | .base10 => receiveDelimited
    | .base11 => receiveChunked
  note (.received message)
  return message

/-- Notes how far the session has come after a message of introduction. -/
def updatePhase : SessionTask κ Unit :=
  modify fun s =>
    { s with phase := s.phase.afterHello s.localHello.isSome s.remoteHello.isSome }

/-- Introduces the session, by default with its own capabilities. -/
def sendHello (hello : Option Hello) : SessionTask κ Unit := do
  checkOpen
  let h := hello.getD (Hello.ofParts (← get).capabilities .null)
  let document ← MonadExcept.ofExcept h.write
  send (.octets .frozen document)
  modify fun s => { s with localHello := some h }
  updatePhase

/-- Receives the introduction of the peer. -/
def receiveHello : SessionTask κ Hello := do
  let message ← receive
  let h ← MonadExcept.ofExcept (Hello.read (.octets .frozen message))
  modify fun s => { s with remoteHello := some h }
  updatePhase
  return h

end Session

end NetconfWire
