/-
The `<hello>` message that both peers send when a session starts.

It advertises the capabilities of its sender, in order, and has the session id
when a server sends it.  The values are kept as the caller gave them; they are
looked at when the message is written.
-/
import NetconfWire.Datum.Text
import NetconfWire.Fault.Basic

namespace NetconfWire

/-- A `<hello>` message. -/
structure Hello where
  capabilities : List Datum
  /-- The session id; null if there is none. -/
  sessionId : Datum
  deriving Repr

namespace Hello

/-- The capability of base 1.0. -/
def base10 : String := "urn:ietf:params:netconf:base:1.0"

/-- The capability of base 1.1. -/
def base11 : String := "urn:ietf:params:netconf:base:1.1"

/-- The capabilities that are advertised by default. -/
def defaultCapabilities : List String := [base10, base11]

/-- The capabilities that a value yields, or the default ones. -/
def gatherCapabilities (given : Option Datum) : Except Fault (List Datum) :=
  match given with
  | none => .ok (defaultCapabilities.map Datum.text)
  | some d =>
    match d.items? with
    | some items => .ok items
    | none => .error (.notIterable d.kindName)

/-- A message with the capabilities and the session id; a session id that counts as absent is
none. -/
def ofParts (capabilities : List Datum) (sessionId : Datum) : Hello :=
  ⟨capabilities, if sessionId.isAbsent then .null else sessionId⟩

/-- A message from what a caller gives. -/
def make (capabilities sessionId : Option Datum) : Except Fault Hello := do
  return ofParts (← gatherCapabilities capabilities) (sessionId.getD .null)

/-- The text of a message. -/
def display (h : Hello) : String :=
  "HelloMessage(capabilities=" ++ (Datum.list h.capabilities).quoted
    ++ ", session_id=" ++ h.sessionId.quoted ++ ")"

/-- Equality of messages. -/
def same (a b : Hello) : Bool :=
  Datum.sameItems a.capabilities b.capabilities && a.sessionId.same b.sessionId

/-- A message can be filed by its identity when all of its values can. -/
def checkFilable (h : Hello) : Except Fault Unit :=
  match (h.capabilities ++ [h.sessionId]).find? fun d => !d.isFilable with
  | some d => .error (.unfilable d.kindName)
  | none => .ok ()

/-- The fields that hold the values of a message. -/
def ownFields : List String := ["_capabilities", "_session_id"]

/-- The field that holds the class of an object. -/
def classField : String := "__class__"

/-- Assigns a value to a field of a message.  A message has no fields but those that hold its
values, and its class is not replaced by a value that is no class. -/
def assign (field : String) (value : Datum) : Except Fault Unit :=
  if ownFields.contains field then .ok ()
  else if field = classField then .error (.classField value.kindName)
  else .error .fixedField

end Hello

end NetconfWire
