/-
Links.

A session runs over a link, which receives and sends octets and can be closed.
Each of these may fail, and all of them may change the link.  A link that gives
no octets has come to its end, for this time at least.
-/
import NetconfWire.Fault.Basic

namespace NetconfWire

/-- A failure of a link. -/
structure LinkFault where
  trouble : Trouble
  text : String
  deriving DecidableEq, Repr

/-- The failure as a fault. -/
def LinkFault.fault (f : LinkFault) : Fault :=
  .foreign f.trouble f.text

/-- What a session needs of a link. -/
class Link (κ : Type) where
  /-- Gives some octets, when so many are asked for. -/
  receive : Int → κ → Except LinkFault Octets × κ
  /-- Sends all of the octets. -/
  send : Octets → κ → Except LinkFault Unit × κ
  close : κ → Except LinkFault Unit × κ

end NetconfWire
