/-
A reader and a writer joined into one link.

Octets are received from the reader, by the way of reading that does not wait
for all of them if it has that.  What is sent is written and flushed.  Closing
closes the writer and then the reader, whether or not the writer could be
closed; if both fail, the failure of the reader is told.
-/
import NetconfWire.Link.Basic

namespace NetconfWire

/-- A source of octets. -/
class Reader (ρ : Type) where
  /-- There is a way of reading that gives what is there. -/
  readsAtOnce : ρ → Bool
  read : Int → ρ → Except LinkFault Octets × ρ
  readAtOnce : Int → ρ → Except LinkFault Octets × ρ
  close : ρ → Except LinkFault Unit × ρ

/-- A sink of octets. -/
class Writer (ω : Type) where
  write : Octets → ω → Except LinkFault Unit × ω
  flush : ω → Except LinkFault Unit × ω
  close : ω → Except LinkFault Unit × ω

/-- A call of a joined link to its reader or writer. -/
inductive JoinedCall
  | read (size : Int)
  | readAtOnce (size : Int)
  | write (b : Octets)
  | flush
  | closeWriter
  | closeReader
  deriving DecidableEq, Repr

/-- A reader and a writer as one link. -/
structure Joined (ρ ω : Type) where
  reader : ρ
  writer : ω
  /-- The calls so far, the latest first. -/
  calls : List JoinedCall

namespace Joined

variable {ρ ω : Type} [Reader ρ] [Writer ω]

/-- Joins a reader and a writer. -/
def of (reader : ρ) (writer : ω) : Joined ρ ω :=
  ⟨reader, writer, []⟩

/-- Receives from the reader. -/
def receive (size : Int) (j : Joined ρ ω) : Except LinkFault Octets × Joined ρ ω :=
  if Reader.readsAtOnce j.reader then
    let (outcome, reader) := Reader.readAtOnce size j.reader
    (outcome, { j with reader, calls := .readAtOnce size :: j.calls })
  else
    let (outcome, reader) := Reader.read size j.reader
    (outcome, { j with reader, calls := .read size :: j.calls })

/-- Writes the octets and flushes them. -/
def send (b : Octets) (j : Joined ρ ω) : Except LinkFault Unit × Joined ρ ω :=
  match Writer.write b j.writer with
  | (.error f, writer) => (.error f, { j with writer, calls := .write b :: j.calls })
  | (.ok (), writer) =>
    let (outcome, writer) := Writer.flush writer
    (outcome, { j with writer, calls := .flush :: .write b :: j.calls })

/-- Closes the writer and then the reader. -/
def close (j : Joined ρ ω) : Except LinkFault Unit × Joined ρ ω :=
  let (ofWriter, writer) := Writer.close j.writer
  let (ofReader, reader) := Reader.close j.reader
  let outcome := match ofReader with
    | .error f => .error f
    | .ok () => ofWriter
  (outcome, { reader, writer, calls := .closeReader :: .closeWriter :: j.calls })

instance : Link (Joined ρ ω) where
  receive := receive
  send := send
  close := close

end Joined

end NetconfWire
