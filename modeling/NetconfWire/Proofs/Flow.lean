/-
Links from which octets flow.

A link flows if its reads give the octets that lie ahead, in order and some at a
time, until none are left.  How many a read gives is left open, so that what is
shown of a flowing link holds however the stream is cut into reads.

* `Flow` — what reading from such a link does;
* scripted links that give octets flow, whether or not they keep to the size
  that was asked for, and so do the ends of pipes in memory.
-/
import Mathlib.Tactic.Common
import NetconfWire.Link.Pipe
import NetconfWire.Link.Script

namespace NetconfWire

/-- A kind of link from which octets flow. -/
class Flow (κ : Type) [Link κ] where
  /-- The octets that reads have yet to give. -/
  ahead : κ → Octets
  /-- Reads give the octets ahead and do not fail. -/
  Runs : κ → Prop
  receive_eq : ∀ {size : Int} {k : κ}, 0 < size → Runs k →
    ∃ b k', Link.receive size k = (.ok b, k') ∧ Runs k' ∧ ahead k = b ++ ahead k' ∧
      (b = [] → ahead k = [])

/-! ### Scripted links -/

/-- The octets of an item of a script. -/
def ScriptedRead.octets : ScriptedRead → Octets
  | .gives b => b
  | .nothing => []
  | .fails _ => []

namespace Script

/-- The octets that the script has yet to give. -/
def unread (k : Script) : Octets :=
  k.reads.flatMap ScriptedRead.octets

/-- The script gives octets only, some with every item. -/
def GivesOnly (k : Script) : Prop :=
  k.isClosed = false ∧ ∃ parts : List Octets, k.reads = parts.map .gives ∧ [] ∉ parts

/-- A script that gives parts of a stream. -/
theorem givesOnly_fresh {parts : List Octets} (h : [] ∉ parts) (metered : Bool)
    (sends : List (Option LinkFault)) (closing : Option LinkFault) :
    GivesOnly (fresh (parts.map .gives) metered sends closing) :=
  ⟨rfl, parts, rfl, h⟩

theorem unread_fresh (parts : List Octets) (metered : Bool) (sends : List (Option LinkFault))
    (closing : Option LinkFault) :
    unread (fresh (parts.map .gives) metered sends closing) = parts.flatten := by
  rw [unread, fresh, List.flatMap_map, List.flatMap_def]
  congr 1
  exact List.map_id' parts

theorem receive_givesOnly {size : Int} {k : Script} (hsize : 0 < size) (h : GivesOnly k) :
    ∃ b k', receive size k = (.ok b, k') ∧ GivesOnly k' ∧ unread k = b ++ unread k' ∧
      (b = [] → unread k = []) := by
  obtain ⟨hopen, parts, hreads, hparts⟩ := h
  rcases parts with _ | ⟨part, parts⟩
  · rw [List.map_nil] at hreads
    refine ⟨[], { k with calls := .received size :: k.calls }, ?_, ⟨hopen, [], hreads, hparts⟩, ?_,
      fun _ => ?_⟩
    · simp [receive, hopen, hreads]
    · rfl
    · rw [unread, hreads, List.flatMap_nil]
  · rw [List.map_cons] at hreads
    have hpart : part ≠ [] := fun h => hparts (by rw [h]; exact List.mem_cons_self)
    have hrest : [] ∉ parts := fun h => hparts (List.mem_cons_of_mem _ h)
    have hunread : unread k = part ++ parts.flatMap id := by
      rw [unread, hreads, List.flatMap_cons, List.flatMap_map]; rfl
    by_cases hcut : k.metered ∧ size.toNat < part.length
    · -- the item is longer than what was asked for: its rest stays in the script
      have hleft : part.drop size.toNat ≠ [] := by
        rw [Ne, List.drop_eq_nil_iff]; omega
      have htaken : part.take size.toNat ≠ [] := by
        rw [Ne, List.take_eq_nil_iff]
        rintro (h | h)
        · omega
        · exact hpart h
      refine ⟨part.take size.toNat,
        { k with calls := .received size :: k.calls
                 reads := .gives (part.drop size.toNat) :: parts.map .gives }, ?_,
        ⟨hopen, part.drop size.toNat :: parts, rfl, ?_⟩, ?_, fun h => absurd h htaken⟩
      · simp [receive, hopen, hreads, hcut.1, hcut.2]
      · rw [List.mem_cons, not_or]
        exact ⟨Ne.symm hleft, hrest⟩
      · rw [hunread, unread, List.flatMap_cons, List.flatMap_map, ← List.append_assoc]
        congr 1
        exact (List.take_append_drop _ _).symm
    · refine ⟨part, { k with calls := .received size :: k.calls, reads := parts.map .gives }, ?_,
        ⟨hopen, parts, rfl, hrest⟩, ?_, fun h => absurd h hpart⟩
      · rw [receive, if_neg (by simp [hopen])]
        simp only [hreads]
        rw [if_neg (by simpa using hcut)]
      · rw [hunread, unread, List.flatMap_map]; rfl

instance : Flow Script where
  ahead := unread
  Runs := GivesOnly
  receive_eq := receive_givesOnly

end Script

/-! ### Pipes in memory -/

/-- An open end gives a part of what is pending, of some octets unless a fragment has none. -/
theorem Outlet.read_of_open {size : Int} {o : Outlet} (hsize : 0 < size)
    (hopen : o.isClosed = false) (hfragment : ∀ f ∈ o.fragment, 0 < f) :
    ∃ n, 0 < n ∧
      o.read size = (.ok (o.pending.take n), { o with pending := o.pending.drop n }) := by
  obtain ⟨pending, fragment, closed⟩ := o
  subst hopen
  cases fragment with
  | none => exact ⟨size.toNat, by omega, rfl⟩
  | some f =>
    have hf := hfragment f rfl
    exact ⟨min size.toNat f, by omega, rfl⟩

namespace Joined

/-- The reading end is open, and a read gives at least one octet where some are pending. -/
def Pours (j : Joined Outlet Inlet) : Prop :=
  j.reader.isClosed = false ∧ ∀ f ∈ j.reader.fragment, 0 < f

theorem receive_pours {size : Int} {j : Joined Outlet Inlet} (hsize : 0 < size) (h : Pours j) :
    ∃ b j', receive size j = (.ok b, j') ∧ Pours j' ∧
      j.reader.pending = b ++ j'.reader.pending ∧ (b = [] → j.reader.pending = []) := by
  obtain ⟨hopen, hfragment⟩ := h
  obtain ⟨n, hn, hread⟩ := Outlet.read_of_open hsize hopen hfragment
  refine ⟨j.reader.pending.take n,
    { j with reader := { j.reader with pending := j.reader.pending.drop n }
             calls := .read size :: j.calls }, ?_, ⟨hopen, hfragment⟩, ?_, fun h => ?_⟩
  · show (let (outcome, reader) := Outlet.read size j.reader
          (outcome, ({ j with reader, calls := .read size :: j.calls } : Joined Outlet Inlet))) = _
    rw [hread]
  · exact (List.take_append_drop _ _).symm
  · rcases List.take_eq_nil_iff.mp h with h | h
    · omega
    · exact h

instance : Flow (Joined Outlet Inlet) where
  ahead j := j.reader.pending
  Runs := Pours
  receive_eq := receive_pours

end Joined

end NetconfWire
