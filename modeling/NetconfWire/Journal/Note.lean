/-
Notes on the progress of a session.

A session notes what it sends and receives, changes of its framing, and how a
frame or the stream ended.
-/
import NetconfWire.Fault.Report
import NetconfWire.Frame.Version

namespace NetconfWire

/-- The weight of a note. -/
inductive Weight
  | debug
  | info
  deriving DecidableEq, Repr

/-- A note. -/
structure Note where
  weight : Weight
  text : String
  deriving DecidableEq, Repr

namespace Note

/-- The stream ended while a frame was incomplete. -/
def streamEnded (buffered : Nat) : Note :=
  ⟨.info, Report.endOfStream (Fault.count buffered)⟩

/-- A chunked frame ended without its marker. -/
def markerMissing (decoded : Nat) : Note :=
  ⟨.debug, "Frame ended without an end-of-chunks marker after " ++ (Fault.count decoded).display
    ++ " octets"⟩

/-- A payload is about to be sent. -/
def sending (payload : Datum) : Note :=
  ⟨.debug, "Sending message: " ++ payload.display⟩

/-- A message was received. -/
def received (message : Octets) : Note :=
  ⟨.debug, "Received message: " ++ message.quoted⟩

/-- The framing changes. -/
def framing (version : Version) : Note :=
  ⟨.debug, "Updating framing mode to " ++ version.label⟩

/-- The session closes. -/
def closing : Note :=
  ⟨.debug, "Closing transport"⟩

end Note

end NetconfWire
