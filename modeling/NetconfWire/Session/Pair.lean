/-
Two sessions that talk to each other.

They are joined by two pipes in memory, one for each direction.  After one of
them has worked, the other one finds its own ends of the pipes changed.
-/
import NetconfWire.Link.Pipe
import NetconfWire.Session.Exchange

namespace NetconfWire

/-- A session over two pipes. -/
abbrev PipedSession := Session (Joined Outlet Inlet)

/-- The two ends of a pair. -/
inductive Side
  | a
  | b
  deriving DecidableEq, Repr

/-- The settings of a session. -/
structure Settings where
  capabilities : Option Datum
  size : Int
  limit : Int

namespace Settings

/-- The settings by default. -/
def standard : Settings :=
  ⟨none, Window.defaultSize, Window.defaultLimit⟩

/-- Starts a session with these settings. -/
def start {κ : Type} [Link κ] (settings : Settings) (link : κ) : Except Fault (Session κ) :=
  Session.start link settings.capabilities settings.size settings.limit

end Settings

/-- Two sessions joined by pipes. -/
structure Pair where
  a : PipedSession
  b : PipedSession

namespace Pair

/-- Two sessions that start; a read gives at most a fragment. -/
def start (ofA ofB : Settings) (fragment : Option Nat) : Except Fault Pair := do
  let ends := Joined.of (Outlet.mk [] fragment false) (Inlet.mk [] false)
  return ⟨← ofA.start ends, ← ofB.start ends⟩

/-- The ends of the pipes at a session. -/
def link (s : PipedSession) : Joined Outlet Inlet :=
  s.line.link

/-- A session that finds its ends of the pipes as the other session has left them. -/
def catchUp (s other : PipedSession) : PipedSession :=
  let ends := link s
  let left := link other
  let ends := { ends with
    reader := { ends.reader with pending := left.writer.pending }
    writer := { ends.writer with pending := left.reader.pending } }
  { s with line := { s.line with link := ends } }

/-- The session at a side. -/
def session (p : Pair) : Side → PipedSession
  | .a => p.a
  | .b => p.b

/-- The pair after the session at a side has changed. -/
def after (p : Pair) (side : Side) (s : PipedSession) : Pair :=
  match side with
  | .a => ⟨s, catchUp p.b s⟩
  | .b => ⟨catchUp p.a s, s⟩

/-- The octets on the way from the first session to the second. -/
def forth (p : Pair) : Octets :=
  (link p.a).writer.pending

/-- The octets on the way from the second session to the first. -/
def back (p : Pair) : Octets :=
  (link p.b).writer.pending

end Pair

end NetconfWire
