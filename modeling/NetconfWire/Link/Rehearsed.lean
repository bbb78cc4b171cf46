/-
Readers and writers whose failures are known beforehand.

A rehearsed reader holds the octets that it will give.  Each way of using it, and
of using a rehearsed writer, fails always or never.
-/
import NetconfWire.Link.Joined

namespace NetconfWire

/-- A reader with known failures. -/
structure RehearsedReader where
  ahead : Octets
  readsAtOnce : Bool
  readFault : Option LinkFault
  readAtOnceFault : Option LinkFault
  closeFault : Option LinkFault
  deriving Repr

namespace RehearsedReader

/-- The most octets that a read at once gives. -/
def atOnce : Int := 3

/-- Splits off the octets up to the place that `size` names, unless the read fails. -/
def take (fault : Option LinkFault) (size : Int) (r : RehearsedReader) :
    Except LinkFault Octets × RehearsedReader :=
  match fault with
  | some f => (.error f, r)
  | none =>
    let n := r.ahead.placeOf size
    (.ok (r.ahead.take n), { r with ahead := r.ahead.drop n })

instance : Reader RehearsedReader where
  readsAtOnce r := r.readsAtOnce
  read size r := take r.readFault size r
  readAtOnce size r := take r.readAtOnceFault (min size atOnce) r
  close r := (match r.closeFault with | some f => .error f | none => .ok (), r)

end RehearsedReader

/-- A writer with known failures. -/
structure RehearsedWriter where
  writeFault : Option LinkFault
  flushFault : Option LinkFault
  closeFault : Option LinkFault
  deriving Repr

namespace RehearsedWriter

/-- Fails if there is a failure. -/
def answer (fault : Option LinkFault) : Except LinkFault Unit :=
  match fault with
  | some f => .error f
  | none => .ok ()

instance : Writer RehearsedWriter where
  write _ w := (answer w.writeFault, w)
  flush w := (answer w.flushFault, w)
  close w := (answer w.closeFault, w)

end RehearsedWriter

end NetconfWire
