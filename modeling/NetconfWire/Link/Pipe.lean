/-
Pipes in memory.

A pipe is a row of octets that were written and not yet read.  Its two ends know
the row and whether they are closed themselves.  A read gives what is pending,
but no more than it asks for, nor more than the size of a fragment where there
is one.
-/
import NetconfWire.Link.Joined

namespace NetconfWire

/-- The failure of a pipe that is used after its own end was closed. -/
def pipeClosedFault : LinkFault :=
  ⟨.failed, "pipe is closed"⟩

/-- The end of a pipe from which octets are read. -/
structure Outlet where
  pending : Octets
  fragment : Option Nat
  isClosed : Bool
  deriving DecidableEq, Repr

namespace Outlet

/-- Reads what is pending. -/
def read (size : Int) (o : Outlet) : Except LinkFault Octets × Outlet :=
  if o.isClosed then (.error pipeClosedFault, o)
  else
    let n := match o.fragment with
      | some f => min size.toNat f
      | none => size.toNat
    (.ok (o.pending.take n), { o with pending := o.pending.drop n })

instance : Reader Outlet where
  readsAtOnce _ := false
  read := read
  readAtOnce := read
  close o := (.ok (), { o with isClosed := true })

end Outlet

/-- The end of a pipe into which octets are written. -/
structure Inlet where
  pending : Octets
  isClosed : Bool
  deriving DecidableEq, Repr

namespace Inlet

/-- Adds octets to those pending. -/
def write (b : Octets) (i : Inlet) : Except LinkFault Unit × Inlet :=
  if i.isClosed then (.error pipeClosedFault, i)
  else (.ok (), { i with pending := i.pending ++ b })

instance : Writer Inlet where
  write := write
  flush i := (.ok (), i)
  close i := (.ok (), { i with isClosed := true })

end Inlet

end NetconfWire
