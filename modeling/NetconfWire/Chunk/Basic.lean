/-
Chunks of a base 1.1 frame.

A chunk is a line feed, a number sign, the decimal count of its octets, a line
feed and the octets.  The frame ends with the end-of-chunks marker.
-/
import NetconfWire.Number.Numeral

namespace NetconfWire.Chunk

/-- The octets `\n#` that begin a chunk header and the end-of-chunks marker. -/
def marker : Octets :=
  [0x0A, 0x23]

/-- The end-of-chunks marker `\n##\n`. -/
def terminator : Octets :=
  [0x0A, 0x23, 0x23, 0x0A]

/-- The greatest length of a chunk. -/
def maxLength : Nat := 4294967295

/-- The header of a chunk with the given number of octets. -/
def header (length : Nat) : Octets :=
  marker ++ (Numeral.decimal length).map (fun c => c.toNat.toUInt8) ++ [0x0A]

/-- One chunk. -/
def encode (payload : Octets) : Octets :=
  header payload.length ++ payload

/-- A decimal digit of ASCII. -/
def isDigit (b : UInt8) : Bool :=
  0x30 ≤ b && b ≤ 0x39

/-- A row of one or more digits. -/
def isLength (h : Octets) : Bool :=
  !h.isEmpty && h.all isDigit

/-- The number that a row of digits stands for. -/
def lengthOf (h : Octets) : Nat :=
  Numeral.value (h.map fun b => b.toNat - 0x30)

end NetconfWire.Chunk
