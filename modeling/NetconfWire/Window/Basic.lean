/-
The window on an incoming stream.

The window holds the octets that were received and not yet handed on.  Reading
asks for half of its initial size at a time; a limit tells how many octets it may
hold while the end of a frame is sought.
-/
import NetconfWire.Fault.Basic

namespace NetconfWire

/-- A window on an incoming stream. -/
structure Window where
  held : Octets
  /-- How many octets a read asks for. -/
  quantum : Nat
  limit : Nat
  deriving DecidableEq, Repr

namespace Window

/-- The initial size of a window by default. -/
def defaultSize : Nat := 8192

/-- The limit of a window by default. -/
def defaultLimit : Nat := 64 * 1024 * 1024

/-- The least initial size. -/
def leastSize : Nat := 2

/-- An empty window of the given initial size and limit. -/
def make (size limit : Int) : Except Fault Window :=
  if size < leastSize then .error .windowTooNarrow
  else if limit < size then .error .limitBelowWindow
  else .ok ⟨[], (size / 2).toNat, limit.toNat⟩

/-- A window with allowed sizes is empty, and a read asks for half of its initial size. -/
theorem make_eq_ok {size limit : Int} {w : Window} (h : make size limit = .ok w) :
    w.held = [] ∧ 0 < w.quantum ∧ (w.quantum : Int) = size / 2 ∧ (w.limit : Int) = limit := by
  have htwo : (leastSize : Int) = 2 := rfl
  rw [make] at h
  split at h
  · cases h
  · split at h
    · cases h
    · cases h
      refine ⟨rfl, ?_, ?_, ?_⟩
      · show 0 < (size / 2).toNat
        omega
      · show ((size / 2).toNat : Int) = size / 2
        omega
      · show (limit.toNat : Int) = limit
        omega

/-- Adds octets that were received. -/
def extend (w : Window) (b : Octets) : Window :=
  { w with held := w.held ++ b }

/-- Takes the octets up to the place that `stop` names off the window. -/
def cut (w : Window) (stop : Int) : Octets × Window :=
  let n := w.held.placeOf stop
  (w.held.take n, { w with held := w.held.drop n })

end Window

end NetconfWire
