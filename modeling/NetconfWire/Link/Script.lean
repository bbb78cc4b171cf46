/-
Links that follow a script.

A scripted link gives what its script says, one item a read: octets, nothing, or
a failure.  It keeps a record of what it was asked, so that the dealings of a
session with its link can be looked at.
-/
import NetconfWire.Link.Basic

namespace NetconfWire

/-- What a scripted link does at one read. -/
inductive ScriptedRead
  | gives (b : Octets)
  | nothing
  | fails (f : LinkFault)
  deriving DecidableEq, Repr

/-- What a link was asked to do. -/
inductive LinkCall
  | received (size : Int)
  | sent (b : Octets)
  | closed
  deriving DecidableEq, Repr

/-- A link with a script. -/
structure Script where
  /-- What the reads to come will give; after these, nothing. -/
  reads : List ScriptedRead
  /-- A read gives no more than it was asked for, and keeps the rest. -/
  metered : Bool
  /-- The failures of the sends to come; after these, none. -/
  sends : List (Option LinkFault)
  /-- The failure of every closing. -/
  closing : Option LinkFault
  isClosed : Bool
  /-- The calls so far, the latest first; a send that failed is not among them. -/
  calls : List LinkCall
  deriving Repr

namespace Script

/-- A link with the given script, on which nothing has happened. -/
def fresh (reads : List ScriptedRead) (metered : Bool) (sends : List (Option LinkFault))
    (closing : Option LinkFault) : Script :=
  ⟨reads, metered, sends, closing, false, []⟩

/-- The failure of a link that is used after it was closed. -/
def closedFault : LinkFault :=
  ⟨.failed, "socket is closed"⟩

/-- Reads the next item of the script. -/
def receive (size : Int) (k : Script) : Except LinkFault Octets × Script :=
  if k.isClosed then (.error closedFault, k)
  else
    let k := { k with calls := .received size :: k.calls }
    match k.reads with
    | [] => (.ok [], k)
    | .nothing :: later => (.ok [], { k with reads := later })
    | .fails f :: later => (.error f, { k with reads := later })
    | .gives b :: later =>
      let n := size.toNat
      if k.metered && n < b.length then
        (.ok (b.take n), { k with reads := .gives (b.drop n) :: later })
      else (.ok b, { k with reads := later })

/-- Sends, unless the script says otherwise. -/
def send (b : Octets) (k : Script) : Except LinkFault Unit × Script :=
  if k.isClosed then (.error closedFault, k)
  else
    let later := { k with sends := k.sends.tail }
    match k.sends.head?.join with
    | some f => (.error f, later)
    | none => (.ok (), { later with calls := .sent b :: k.calls })

/-- Closes the link; it is closed even if the closing fails. -/
def close (k : Script) : Except LinkFault Unit × Script :=
  let k := { k with isClosed := true, calls := .closed :: k.calls }
  match k.closing with
  | some f => (.error f, k)
  | none => (.ok (), k)

instance : Link Script where
  receive := receive
  send := send
  close := close

end Script

end NetconfWire
