/-
Boundary tests.

A boundary test looks at the octets held, of which it is told how many it has
seen before without a hit, and tells where the frame ends, with what else it has
found.  The place may be any integer: the window is cut as `Octets.placeOf`
says.

* `Boundary.ofDelimiter` finds the end of the first occurrence of a delimiter.
* `Boundary.ofPattern` finds the end of the first match of a pattern.
-/
import NetconfWire.Fault.Basic
import NetconfWire.Pattern.Match

namespace NetconfWire

/-- A boundary test. -/
abbrev Boundary (α : Type) :=
  Octets → Nat → Except Fault (Option (Int × α))

namespace Boundary

/-- The end of the first occurrence of `delimiter` that is not wholly among the first `searched`
octets.  A delimiter that was cut by a read starts fewer than its length before the octets that
were not searched. -/
def delimiterEnd (delimiter b : Octets) (searched : Int) : Option Nat :=
  let start := (searched - delimiter.length + 1).toNat
  (Octets.findBetween delimiter b start b.length).map fun k => start + k + delimiter.length

/-- A delimiter must have octets. -/
def checkDelimiter (delimiter : Octets) : Except Fault Unit :=
  if delimiter.isEmpty then .error .delimiterEmpty else .ok ()

/-- The frame ends with the first occurrence of `delimiter`. -/
def ofDelimiter (delimiter : Octets) : Boundary Unit := fun held searched =>
  .ok ((delimiterEnd delimiter held searched).map fun n => ((n : Int), ()))

/-- The frame ends with the first match of a pattern; what its groups captured is found. -/
def ofPattern (r : Regex) : Boundary (List (Option Octets)) := fun held _ =>
  .ok ((r.search held).map fun m => ((m.stop : Int), m.captures))

/-- A pattern for text is refused where octets are to be searched. -/
def ofTextPattern : Boundary (List (Option Octets)) := fun _ _ =>
  .error .textPattern

/-- No frame ends. -/
def never : Boundary Unit := fun _ _ =>
  .ok none

/-- The frame ends at a place that does not depend on the octets held. -/
def always (n : Int) : Boundary Unit := fun _ _ =>
  .ok (some (n, ()))

/-- The frame ends at the given place as soon as so many octets are held. -/
def ofLength (n : Int) : Boundary Unit := fun held _ =>
  .ok (if n ≤ held.length then some (n, ()) else none)

/-- The index after the first octet that satisfies `p`. -/
def endOfFirst (p : UInt8 → Bool) (b : Octets) : Option Nat :=
  (b.findIdx? p).map (· + 1)

/-- The frame ends with the first octet that satisfies `p`. -/
def ofOctet (p : UInt8 → Bool) : Boundary Unit := fun held _ =>
  .ok ((endOfFirst p held).map fun n => ((n : Int), ()))

/-- The frame ends with the first octet that satisfies `p` among those not yet searched. -/
def ofFreshOctet (p : UInt8 → Bool) : Boundary Unit := fun held searched =>
  .ok ((endOfFirst p (held.drop searched)).map fun n => ((searched + n : Int), ()))

end Boundary

end NetconfWire
