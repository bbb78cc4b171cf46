/-
Reassembly of a chunked frame inside the buffer that holds it.

The payloads are moved to the front of the buffer, one after another, behind
the place where reading goes on.  Reading looks for the next chunk marker
wherever it stands; a marker followed by a number sign ends the frame.

* `reassemble` tells how many octets of payload lie at the front afterwards,
  whether the end-of-chunks marker was met, and what the buffer holds, also
  when a chunk is refused.
-/
import NetconfWire.Chunk.Basic
import NetconfWire.Fault.Basic

namespace NetconfWire.Chunk

/-- How the reading of a frame came to its end. -/
inductive Ending
  /-- At the end-of-chunks marker. -/
  | marker
  /-- At the end of the octets. -/
  | exhausted
  deriving DecidableEq, Repr

/-- The buffer after reassembly, and the number of octets of payload at its front. -/
structure Reassembly where
  buffer : Octets
  outcome : Except Fault (Nat × Ending)

/-- The length that a header announces; the number of digits is limited. -/
def readHeader (offset decoded : Nat) (h : Octets) : Except Fault Nat :=
  if !isLength h then .error (.chunkHeader offset h decoded)
  else if Numeral.digitLimit < h.length then .error (.numeral (.tooManyDigits h.length))
  else if maxLength < lengthOf h then .error (.chunkHeader offset h decoded)
  else .ok (lengthOf h)

/-- Puts `n` octets from `start` in the place of those from `target`. -/
def move (buffer : Octets) (target start n : Nat) : Octets :=
  buffer.take target ++ (buffer.drop start).take n ++ buffer.drop (target + n)

/-- The end of the line that begins at `place`, or of the octets up to `stop` if no line feed
follows. -/
def lineEnd (buffer : Octets) (place stop : Nat) : Nat :=
  match Octets.findBetween [0x0A] buffer place stop with
  | some k => place + k
  | none => stop

theorem le_lineEnd_or (buffer : Octets) (place stop : Nat) :
    place ≤ lineEnd buffer place stop ∨ lineEnd buffer place stop = stop := by
  simp only [lineEnd]
  split
  · left; omega
  · right; rfl

/-- Reassembles the chunks of the frame that ends at `stop`, from place `i` on; `decoded` octets of
payload already lie at the front. -/
def reassembleFrom (stop : Nat) (buffer : Octets) (decoded i : Nat) : Reassembly :=
  if i + 1 < stop then
    match Octets.findBetween marker buffer i stop with
    | none => ⟨buffer, .ok (decoded, .exhausted)⟩
    | some gap =>
      let offset := i + gap
      let endOfHeader := lineEnd buffer (offset + 2) stop
      let h := (buffer.take endOfHeader).drop (offset + 2)
      if h = [0x23] then ⟨buffer, .ok (decoded, .marker)⟩
      else
        match readHeader offset decoded h with
        | .error e => ⟨buffer, .error e⟩
        | .ok n =>
          let start := endOfHeader + 1
          if stop < start + n + terminator.length then
            ⟨buffer, .error (.chunkOverrun offset n (stop - terminator.length - start) decoded)⟩
          else reassembleFrom stop (move buffer decoded start n) (decoded + n) (start + n)
  else ⟨buffer, .ok (decoded, .exhausted)⟩
termination_by stop - i
decreasing_by
  have := le_lineEnd_or buffer (i + gap + 2) stop
  omega

/-- Reassembles the frame whose end lies at `stop`, by default at the end of the buffer. -/
def reassemble (buffer : Octets) (stop : Option Int) : Reassembly :=
  reassembleFrom ((stop.getD buffer.length).toNat) buffer 0 0

/-- The payload of a complete chunked frame, and how its reading ended. -/
def decode (frame : Octets) : Except Fault (Octets × Ending) :=
  let r := reassemble frame none
  r.outcome.map fun (n, ending) => (r.buffer.take n, ending)

end NetconfWire.Chunk
