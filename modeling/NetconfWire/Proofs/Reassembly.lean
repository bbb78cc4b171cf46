/-
What reassembly comes to.

Reassembly moves payloads to the front of the buffer that it reads, and has to come to what a
reader comes to that leaves the frame as it is and writes elsewhere.  That reader is
`gather`; what it should give is said apart from it:

* `gather_eq_iff` — every frame is read in one way, as chunks with gaps in front of them and
  a rest in which reading halts;
* `reassemble_refines` — reassembly has the outcome of such a reading of the octets up to the
  end of the frame, and puts the message in front of what the buffer held;
* `decode_row` — every legal chunking of a message is decoded to that message.
-/
import NetconfWire.Proofs.Gaps

namespace NetconfWire

/-- The number of octets that a refusal of a chunk says were reassembled before it. -/
def Fault.decoded? : Fault → Option Nat
  | chunkHeader _ _ decoded => some decoded
  | chunkOverrun _ _ _ decoded => some decoded
  | _ => none

namespace Chunk

/-! ### What a reader should give -/

/-- A frame consists of chunks with gaps in front of them, whose payloads make up the message, and
of a rest in which reading halts.  Behind a chunk there is room for the end-of-chunks marker. -/
def Reads (frame message : Octets) (outcome : Except Fault Ending) : Prop :=
  ∃ (cs : List Spaced) (rest : Octets), frame = cs.flatMap Spaced.octets ++ rest ∧
    message = rowMessage (cs.map Spaced.chunk) ∧ (cs = [] ∨ terminator.length ≤ rest.length) ∧
    Halts (cs.flatMap Spaced.octets).length message.length rest outcome

section Reads

variable {frame message : Octets} {outcome : Except Fault Ending}

/-- Every frame is read in one way. -/
theorem gather_eq_iff : gather frame = ⟨message, outcome⟩ ↔ Reads frame message outcome := by
  have hgather : ∀ {m o}, Reads frame m o → gather frame = ⟨m, o⟩ := by
    rintro m o ⟨cs, rest, hframe, rfl, hroom, hhalts⟩
    rw [← Nat.zero_add (List.length (List.flatMap _ _)), ← Nat.zero_add (rowMessage _).length]
      at hhalts
    show gatherFrom frame [] 0 = ⟨[] ++ rowMessage (cs.map Spaced.chunk), o⟩
    exact gatherFrom_of_spaced hframe hroom hhalts
  refine ⟨fun h => ?_, hgather⟩
  obtain ⟨cs, rest, o, hframe, hroom, hhalts⟩ := exists_halts 0 0 frame
  rw [Nat.zero_add, Nat.zero_add] at hhalts
  have hreads : Reads frame _ o := ⟨cs, rest, hframe, rfl, hroom, hhalts⟩
  obtain ⟨rfl, rfl⟩ := Gathering.mk.inj ((hgather hreads).symm.trans h)
  exact hreads

/-- Chunks are no shorter than their payloads. -/
theorem length_rowMessage_le (cs : List Spaced) :
    (rowMessage (cs.map Spaced.chunk)).length ≤ (cs.flatMap Spaced.octets).length := by
  induction cs with
  | nil => exact Nat.le_refl _
  | cons c cs ih =>
    have hchunk := c.chunk.length_octets
    rw [List.map_cons, rowMessage_cons, List.flatMap_cons, List.length_append, List.length_append,
      Spaced.octets, List.length_append]
    omega

theorem Reads.length_le (h : Reads frame message outcome) : message.length ≤ frame.length := by
  obtain ⟨cs, rest, rfl, rfl, -, -⟩ := h
  rw [List.length_append]
  exact (length_rowMessage_le cs).trans (Nat.le_add_right _ _)

/-- A refusal tells how many octets were reassembled before it. -/
theorem Halts.decoded?_eq {offset decoded n : Nat} {rest : Octets} {f : Fault}
    (h : Halts offset decoded rest (.error f)) (hn : f.decoded? = some n) : n = decoded := by
  cases h with
  | stopped hgap hline htail hstops =>
    cases hstops with
    | overrun hmark hread hroom =>
      cases hn
      rfl
    | refused hmark hread =>
      rcases readHeader_error hread with rfl | ⟨-, -, rfl⟩
      · cases hn
        rfl
      · cases hn

end Reads

/-! ### Reassembly -/

/-- **Reassembly refines a reader that changes nothing.**  It has the outcome of reading the octets up
to the end of the frame as they were, and afterwards the buffer holds the message and behind it what
it held there before, also when a chunk was refused.  So it keeps its length and the octets behind
the frame, on which nothing depends; and the octets that a refusal counts are the payloads of the
chunks in front of the header that was refused. -/
theorem reassemble_refines {buffer : Octets} {stop : Nat} (hstop : stop ≤ buffer.length) :
    ∃ message outcome, gather (buffer.take stop) = ⟨message, outcome⟩ ∧
      Reads (buffer.take stop) message outcome ∧
      reassemble buffer (some stop)
        = ⟨message ++ buffer.drop message.length, outcome.map (message.length, ·)⟩ ∧
      (reassemble buffer (some stop)).buffer.length = buffer.length ∧
      (reassemble buffer (some stop)).buffer.drop stop = buffer.drop stop ∧
      (∀ other : Octets, stop ≤ other.length → other.take stop = buffer.take stop →
        (reassemble other (some stop)).outcome = (reassemble buffer (some stop)).outcome) ∧
      ∀ f n, (reassemble buffer (some stop)).outcome = .error f → f.decoded? = some n →
        (reassemble buffer (some stop)).buffer.take n = message := by
  have hreassemble : ∀ b : Octets, stop ≤ b.length → reassemble b (some stop)
      = ⟨(gather (b.take stop)).message ++ b.drop (gather (b.take stop)).message.length,
        (gather (b.take stop)).outcome.map ((gather (b.take stop)).message.length, ·)⟩ := by
    intro b hb
    exact reassembleFrom_eq b [] hb (Nat.zero_le 0)
  obtain ⟨message, outcome, hgather⟩ : ∃ m o, gather (buffer.take stop) = ⟨m, o⟩ := ⟨_, _, rfl⟩
  have hreads := gather_eq_iff.mp hgather
  have hbuffer : reassemble buffer (some stop)
      = ⟨message ++ buffer.drop message.length, outcome.map (message.length, ·)⟩ := by
    rw [hreassemble buffer hstop, hgather]
  have hle : message.length ≤ stop := by
    have := hreads.length_le
    rw [List.length_take] at this
    omega
  refine ⟨message, outcome, hgather, hreads, hbuffer, ?_, ?_, ?_, ?_⟩
  · rw [hbuffer, List.length_append, List.length_drop]
    omega
  · rw [hbuffer]
    exact drop_moved hle
  · intro other hother hsame
    rw [hreassemble other hother, hsame, hgather, hbuffer]
  · intro f n hf hn
    rw [hbuffer] at hf ⊢
    obtain ⟨cs, rest, -, -, -, hhalts⟩ := hreads
    cases outcome with
    | ok ending => cases hf
    | error g =>
      cases hf
      rw [hhalts.decoded?_eq hn]
      exact List.take_left

/-- Behind a chunk with a hyphen in front of it the frame has a header that is no length; the buffer
goes on behind the frame. -/
theorem reassemble_refines_letter :
    10 ≤ ([0x2D] ++ encode [0x61] ++ [0x0A, 0x23, 0x78, 0x0A, 0x7A]).length ∧
    reassemble ([0x2D] ++ encode [0x61] ++ [0x0A, 0x23, 0x78, 0x0A, 0x7A]) (some 10)
      = ⟨[0x61, 0x0A, 0x23, 0x31, 0x0A, 0x61, 0x0A, 0x23, 0x78, 0x0A, 0x7A],
        .error (.chunkHeader 6 [0x78] 1)⟩ := by
  have hstop : 10 ≤ ([0x2D] ++ encode [0x61] ++ [0x0A, 0x23, 0x78, 0x0A, 0x7A]).length := by decide
  obtain ⟨message, outcome, hgather, -, hreassemble, -⟩ := reassemble_refines hstop
  let c : Spaced := ⟨[0x2D], Legal.ofPayload [0x61] (by decide), by decide⟩
  have hnone : ¬ marker <:+: ([] : Octets) := by decide
  have hfeed : (0x0A : UInt8) ∉ ([0x78] : Octets) := by decide
  have hstops : Stops 6 1 [0x78] [] (.error (.chunkHeader 6 [0x78] 1)) :=
    .refused (by decide) rfl
  have hreads : Reads (([0x2D] ++ encode [0x61] ++ [0x0A, 0x23, 0x78, 0x0A, 0x7A]).take 10) [0x61]
      (.error (.chunkHeader 6 [0x78] 1)) := by
    refine ⟨[c], marker ++ ([0x78] ++ [0x0A]), by decide, by decide, .inr (by decide), ?_⟩
    rw [show ([c].flatMap Spaced.octets).length = 6 by decide]
    exact .stopped hnone hfeed (.inr ⟨[], rfl⟩) hstops
  obtain ⟨rfl, rfl⟩ := Gathering.mk.inj (hgather.symm.trans (gather_eq_iff.mpr hreads))
  exact ⟨hstop, hreassemble⟩

/-! ### Legal chunkings -/

/-- **Every legal chunking decodes to its message.**  Chunks may be empty, their lengths may have
leading zeros, and their payloads may look like headers or like the end-of-chunks marker.  So two
chunkings decode to the same exactly if they carry the same message. -/
theorem decode_row (cs : List Legal) :
    decode (row cs) = .ok (rowMessage cs, .marker) ∧
    ∀ ds, decode (row ds) = decode (row cs) ↔ rowMessage ds = rowMessage cs := by
  have hdecode : ∀ ds, decode (row ds) = .ok (rowMessage ds, .marker) := by
    intro ds
    rw [decode_eq, gather_row]
    rfl
  refine ⟨hdecode cs, fun ds => ?_⟩
  rw [hdecode, hdecode, Except.ok.injEq, Prod.mk.injEq]
  exact and_iff_left rfl

end Chunk

end NetconfWire
