/-
Sessions.

A session frames messages over a line.  It knows the version that it frames for,
the messages by which both peers introduced themselves, and how far it has come.
A closed session sends and receives nothing more.
-/
import NetconfWire.Frame.Envelope
import NetconfWire.Hello.Basic
import NetconfWire.Window.Line

namespace NetconfWire

/-- How far a session has come. -/
inductive Phase
  | uninitialized
  | helloExchanged
  | negotiated
  | closed
  deriving DecidableEq, Repr

namespace Phase

/-- The name of a phase. -/
def label : Phase → String
  | uninitialized => "uninitialized"
  | helloExchanged => "hello-exchanged"
  | negotiated => "negotiated"
  | closed => "closed"

/-- The phase after a message of introduction: a session whose peers have both introduced
themselves has exchanged them. -/
def afterHello (p : Phase) (sent received : Bool) : Phase :=
  match p with
  | uninitialized => if sent && received then helloExchanged else uninitialized
  | _ => p

/-- The phase after the choice of a version. -/
def afterChoice (p : Phase) : Phase :=
  match p with
  | closed => closed
  | _ => negotiated

end Phase

/-- A session. -/
structure Session (κ : Type) where
  line : Line κ
  /-- The capabilities that are advertised by default. -/
  capabilities : List Datum
  version : Version
  phase : Phase
  localHello : Option Hello
  remoteHello : Option Hello

/-- Work on a session, which keeps the changes made before a fault. -/
abbrev SessionTask (κ α : Type) := EStateM Fault (Session κ) α

namespace Session

variable {κ α : Type} [Link κ]

/-- A session that starts on a link. -/
def start (link : κ) (capabilities : Option Datum) (size limit : Int) :
    Except Fault (Session κ) := do
  let capabilities ← Hello.gatherCapabilities capabilities
  let window ← Window.make size limit
  return ⟨Line.fresh link window, capabilities, .base10, .uninitialized, none, none⟩

/-- The session is closed. -/
def isClosed (s : Session κ) : Bool :=
  s.phase == .closed

/-- Work on the line of a session. -/
def onLine (task : LineTask κ α) : SessionTask κ α := fun s =>
  match task s.line with
  | .ok a line => .ok a { s with line }
  | .error f line => .error f { s with line }

/-- Adds a note. -/
def note (n : Note) : SessionTask κ Unit :=
  modify fun s => { s with line := s.line.note n }

/-- Sends octets over the link. -/
def transmit (b : Octets) : SessionTask κ Unit := fun s =>
  match Link.send b s.line.link with
  | (.ok (), link) => .ok () { s with line := { s.line with link } }
  | (.error f, link) => .error f.fault { s with line := { s.line with link } }

/-- Closes the link. -/
def hangUp : SessionTask κ Unit := fun s =>
  match Link.close s.line.link with
  | (.ok (), link) => .ok () { s with line := { s.line with link } }
  | (.error f, link) => .error f.fault { s with line := { s.line with link } }

/-- A closed session refuses work. -/
def checkOpen : SessionTask κ Unit := do
  if (← get).isClosed then throw .sessionClosed

/-- Closes the session and its link; a session that is closed is left as it is. -/
def close : SessionTask κ Unit := do
  if (← get).isClosed then return
  modify fun s => { s with phase := .closed }
  note .closing
  hangUp

/-- Chooses the version that messages are framed for. -/
def setVersion (given : Datum) : SessionTask κ Unit := do
  let version ← MonadExcept.ofExcept (Frame.version given)
  note (.framing version)
  modify fun s => { s with version, phase := s.phase.afterChoice }

/-- Does some work and closes the session after it, also when the work fails; a failure to close
wins. -/
def within (body : SessionTask κ α) : SessionTask κ α := fun s =>
  match body s with
  | .ok a s' =>
    match close s' with
    | .ok _ s'' => .ok a s''
    | .error f s'' => .error f s''
  | .error e s' =>
    match close s' with
    | .ok _ s'' => .error e s''
    | .error f s'' => .error f s''

end Session

end NetconfWire
