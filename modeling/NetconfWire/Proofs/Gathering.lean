/-
Reassembly as reading.

Reassembly moves payloads to the front of the buffer that it reads.  `gatherFrom`
reads octets that never change and collects the payloads apart from them;
`reassembleFrom_eq` says that both come to the same, since a payload is always
moved to places that were read before:

* the outcome is that of `gatherFrom`, on the octets up to the end of the frame;
* the buffer holds the message gathered, and behind it what it held before.
-/
import Mathlib.Tactic.Common
import NetconfWire.Chunk.Reassembly
import NetconfWire.Proofs.Occurrence

namespace NetconfWire.Chunk

/-- The message gathered from a frame, and how its reading ended. -/
structure Gathering where
  message : Octets
  outcome : Except Fault Ending

/-- Gathers the payloads of a frame from place `i` on, behind those gathered so far. -/
def gatherFrom (frame message : Octets) (i : Nat) : Gathering :=
  if i + 1 < frame.length then
    match Octets.find? marker (frame.drop i) with
    | none => ⟨message, .ok .exhausted⟩
    | some gap =>
      let offset := i + gap
      let endOfHeader := lineEnd frame (offset + 2) frame.length
      let h := (frame.take endOfHeader).drop (offset + 2)
      if h = [0x23] then ⟨message, .ok .marker⟩
      else
        match readHeader offset message.length h with
        | .error e => ⟨message, .error e⟩
        | .ok n =>
          let start := endOfHeader + 1
          if frame.length < start + n + terminator.length then
            ⟨message, .error (.chunkOverrun offset n (frame.length - terminator.length - start)
              message.length)⟩
          else gatherFrom frame (message ++ (frame.drop start).take n) (start + n)
  else ⟨message, .ok .exhausted⟩
termination_by frame.length - i
decreasing_by
  have := le_lineEnd_or frame (i + gap + 2) frame.length
  omega

/-- Gathers the payloads of a frame. -/
def gather (frame : Octets) : Gathering :=
  gatherFrom frame [] 0

/-! ### One step -/

/-- A line ends where the search for a line feed in the octets up to `stop` says. -/
theorem lineEnd_eq (buffer : Octets) (place stop : Nat) :
    lineEnd buffer place stop
      = ((Octets.find? [0x0A] ((buffer.take stop).drop place)).map (place + ·)).getD stop := by
  rw [lineEnd, Octets.findBetween]
  cases Octets.find? [0x0A] ((buffer.take stop).drop place) <;> rfl

/-- The first line feed ends a line. -/
theorem find?_lineFeed {line more : Octets} (h : 0x0A ∉ line) :
    Octets.find? [0x0A] (line ++ 0x0A :: more) = some line.length := by
  have hat : ∀ j, Octets.StandsAt [0x0A] (line ++ 0x0A :: more) j ↔
      (line ++ 0x0A :: more)[j]? = some 0x0A := by
    intro j
    rw [Octets.StandsAt, List.singleton_prefix_iff_head?_eq_some, List.head?_drop]
  refine Octets.find?_eq_some_iff.mpr ⟨?_, by simp, fun j hj hs => ?_⟩
  · rw [hat, List.getElem?_append_right (Nat.le_refl _), Nat.sub_self]
    rfl
  · rw [hat, List.getElem?_append_left hj] at hs
    exact h (List.mem_of_getElem? hs)

/-- Nothing follows a line, or the line feed that ends it does. -/
def EndsLine (tail : Octets) : Prop :=
  tail = [] ∨ ∃ more, tail = 0x0A :: more

/-- A line ends in front of its line feed, or where the octets end. -/
theorem lineEnd_of_drop {frame line tail : Octets} {place : Nat}
    (hdrop : frame.drop place = line ++ tail) (hplace : place ≤ frame.length) (hline : 0x0A ∉ line)
    (htail : EndsLine tail) : lineEnd frame place frame.length = place + line.length := by
  rw [lineEnd_eq, List.take_length, hdrop]
  rcases htail with rfl | ⟨more, rfl⟩
  · have hnone : Octets.find? [0x0A] line = none := by
      rw [Octets.find?_eq_none_iff_not_infix, List.singleton_infix_iff]
      exact hline
    have hlength := congrArg List.length hdrop
    rw [List.length_drop, List.append_nil] at hlength
    rw [List.append_nil, hnone]
    show frame.length = place + line.length
    omega
  · rw [find?_lineFeed hline]
    rfl

/-- A step from a place where a header line stands: the frame ends, the header is refused, the
frame has too few octets left, or a payload is gathered. -/
theorem gatherFrom_line {frame line tail : Octets} {i : Nat} (message : Octets)
    (hdrop : frame.drop i = marker ++ (line ++ tail)) (hline : 0x0A ∉ line)
    (htail : EndsLine tail) :
    gatherFrom frame message i
      = if line = [0x23] then ⟨message, .ok .marker⟩
        else
          match readHeader i message.length line with
          | .error e => ⟨message, .error e⟩
          | .ok n =>
            if tail.tail.length < n + terminator.length then
              ⟨message, .error (.chunkOverrun i n (tail.tail.length - terminator.length)
                message.length)⟩
            else gatherFrom frame (message ++ tail.tail.take n) (i + line.length + 3 + n) := by
  have hlength : frame.length = i + 2 + line.length + tail.length := by
    have := congrArg List.length hdrop
    simp only [List.length_drop, List.length_append, List.length_cons, marker,
      List.length_nil] at this
    omega
  have hgap : Octets.find? marker (frame.drop i) = some 0 := by
    refine Octets.find?_eq_some_iff.mpr ⟨?_, Nat.zero_le _, by omega⟩
    rw [Octets.StandsAt, List.drop_zero, hdrop]
    exact List.prefix_append _ _
  have hbehind : frame.drop (i + 2) = line ++ tail := by
    rw [← List.drop_drop, hdrop]
    rfl
  have hend : lineEnd frame (i + 2) frame.length = i + 2 + line.length :=
    lineEnd_of_drop hbehind (by omega) hline htail
  have hheader : (frame.take (i + 2 + line.length)).drop (i + 2) = line := by
    rw [List.drop_take, hbehind, Nat.add_sub_cancel_left, List.take_left]
  have hmore : frame.drop (i + 2 + line.length + 1) = tail.tail := by
    rw [← List.drop_drop, ← List.drop_drop, hbehind, List.drop_left, List.drop_one]
  have hshort : tail.tail.length = tail.length - 1 := List.length_tail
  rw [gatherFrom, if_pos (by omega), hgap]
  simp only [Nat.add_zero, hend, hheader, hmore]
  split
  · rfl
  · cases readHeader i message.length line with
    | error e => rfl
    | ok n =>
      have hfour : terminator.length = 4 := rfl
      have hroom : frame.length < i + line.length + 3 + n + terminator.length ↔
          tail.tail.length < n + terminator.length := by
        omega
      have havailable : frame.length - terminator.length - (i + 2 + line.length + 1)
          = tail.tail.length - terminator.length := by
        omega
      have hnext : i + 2 + line.length + 1 + n = i + line.length + 3 + n := by omega
      simp only [hnext, hroom, havailable]

/-- The same step where a line feed ends the header line. -/
theorem gatherFrom_header {frame line more : Octets} {i : Nat} (message : Octets)
    (hdrop : frame.drop i = marker ++ (line ++ 0x0A :: more)) (hline : 0x0A ∉ line) :
    gatherFrom frame message i
      = if line = [0x23] then ⟨message, .ok .marker⟩
        else
          match readHeader i message.length line with
          | .error e => ⟨message, .error e⟩
          | .ok n =>
            if more.length < n + terminator.length then
              ⟨message, .error (.chunkOverrun i n (more.length - terminator.length)
                message.length)⟩
            else gatherFrom frame (message ++ more.take n) (i + line.length + 3 + n) :=
  gatherFrom_line message hdrop hline (.inr ⟨more, rfl⟩)

/-- Where no marker is left, the octets come to their end. -/
theorem gatherFrom_exhausted {frame : Octets} {i : Nat} (message : Octets)
    (h : ¬ marker <:+: frame.drop i) : gatherFrom frame message i = ⟨message, .ok .exhausted⟩ := by
  rw [gatherFrom, Octets.find?_eq_none_iff_not_infix.mpr h]
  split <;> rfl

/-! ### Reading behind what was moved -/

theorem lineEnd_le (buffer : Octets) (place stop : Nat) : lineEnd buffer place stop ≤ stop := by
  rw [lineEnd_eq]
  cases hk : Octets.find? [0x0A] ((buffer.take stop).drop place) with
  | none => exact Nat.le_refl _
  | some k =>
    have hle := Octets.find?_le_length (by decide) hk
    rw [List.length_drop, List.length_take, List.length_singleton] at hle
    show place + k ≤ stop
    omega

/-- Two buffers that agree from a place on agree in every stretch behind it. -/
theorem drop_take_congr {b c : Octets} {i j stop : Nat} (h : b.drop i = c.drop i) (hij : i ≤ j) :
    (b.take stop).drop j = (c.take stop).drop j := by
  have hdrop : b.drop j = c.drop j := by
    rw [← Nat.add_sub_cancel' hij, ← List.drop_drop, h, List.drop_drop]
  rw [List.drop_take, List.drop_take, hdrop]

theorem lineEnd_congr {b c : Octets} {i j stop : Nat} (h : b.drop i = c.drop i) (hij : i ≤ j) :
    lineEnd b j stop = lineEnd c j stop := by
  rw [lineEnd_eq, lineEnd_eq, drop_take_congr h hij]

/-- Behind the message the buffer holds what it held before anything was moved. -/
theorem drop_moved {original message : Octets} {j : Nat} (hj : message.length ≤ j) :
    (message ++ original.drop message.length).drop j = original.drop j := by
  rw [List.drop_append, List.drop_of_length_le hj, List.drop_drop, Nat.add_sub_cancel' hj,
    List.nil_append]

theorem length_append_take {original : Octets} (message : Octets) {start n : Nat}
    (hend : start + n ≤ original.length) :
    (message ++ (original.drop start).take n).length = message.length + n := by
  rw [List.length_append, List.length_take, List.length_drop]
  omega

/-- A payload moved behind the message extends it, and leaves what follows as it was. -/
theorem move_eq {original message : Octets} {start n : Nat}
    (hle : message.length ≤ start) (hend : start + n ≤ original.length) :
    move (message ++ original.drop message.length) message.length start n
      = (message ++ (original.drop start).take n)
        ++ original.drop (message ++ (original.drop start).take n).length := by
  rw [move, List.take_left, drop_moved hle, drop_moved (Nat.le_add_right _ _),
    length_append_take message hend]

/-- Reassembly comes to what gathering from the octets as they were comes to; the buffer holds the
message gathered, and behind it what it held. -/
theorem reassembleFrom_eq (original message : Octets) {stop i : Nat}
    (hstop : stop ≤ original.length) (hi : message.length ≤ i) :
    reassembleFrom stop (message ++ original.drop message.length) message.length i
      = (let g := gatherFrom (original.take stop) message i
        ⟨g.message ++ original.drop g.message.length,
          g.outcome.map fun ending => (g.message.length, ending)⟩) := by
  have hlength : (original.take stop).length = stop := by
    rw [List.length_take, Nat.min_eq_left hstop]
  -- the induction is on the octets left to read: reading never returns to what was moved
  induction hn : stop - i using Nat.strongRecOn generalizing message i with
  | _ n ih =>
    have hsame : (message ++ original.drop message.length).drop i = original.drop i :=
      drop_moved hi
    rw [reassembleFrom, gatherFrom, hlength, Octets.findBetween, drop_take_congr hsame (Nat.le_refl i)]
    by_cases hmore : i + 1 < stop
    · rw [if_pos hmore, if_pos hmore]
      cases hgap : Octets.find? marker ((original.take stop).drop i) with
      | none => rfl
      | some gap =>
        -- the header lies ahead of what was moved, so both read the same line
        have hline : lineEnd (message ++ original.drop message.length) (i + gap + 2) stop
            = lineEnd (original.take stop) (i + gap + 2) stop := by
          rw [lineEnd_congr hsame (by omega), lineEnd_eq, lineEnd_eq, List.take_take, Nat.min_self]
        simp only [hline]
        set e := lineEnd (original.take stop) (i + gap + 2) stop with he
        have hle : e ≤ stop := lineEnd_le _ _ _
        have hplace : i + gap + 2 ≤ e ∨ e = stop := le_lineEnd_or _ _ _
        have hheader : ((message ++ original.drop message.length).take e).drop (i + gap + 2)
            = ((original.take stop).take e).drop (i + gap + 2) := by
          rw [drop_take_congr hsame (by omega), List.take_take, Nat.min_eq_left hle]
        rw [hheader]
        split
        · rfl
        · cases readHeader (i + gap) message.length
            (((original.take stop).take e).drop (i + gap + 2)) with
          | error f => rfl
          | ok n =>
            by_cases hover : stop < e + 1 + n + terminator.length
            · simp only [if_pos hover]
              rfl
            · simp only [if_neg hover]
              have hpayload : ((original.take stop).drop (e + 1)).take n
                  = (original.drop (e + 1)).take n := by
                rw [List.drop_take, List.take_take, Nat.min_eq_left (by omega)]
              have hlong : (message ++ (original.drop (e + 1)).take n).length
                  = message.length + n := length_append_take message (by omega)
              rw [move_eq (by omega) (by omega), hpayload]
              have hnext := @ih (stop - (e + 1 + n)) (by omega)
                (message ++ (original.drop (e + 1)).take n) (e + 1 + n) (by omega) rfl
              rw [hlong] at hnext ⊢
              exact hnext
    · rw [if_neg hmore, if_neg hmore]
      rfl

/-- Decoding a frame gathers it. -/
theorem decode_eq (frame : Octets) :
    decode frame = (gather frame).outcome.map fun ending => ((gather frame).message, ending) := by
  have h : reassemble frame none = ⟨(gather frame).message
      ++ frame.drop (gather frame).message.length,
      (gather frame).outcome.map fun ending => ((gather frame).message.length, ending)⟩ := by
    have := reassembleFrom_eq frame [] (Nat.le_refl frame.length) (Nat.le_refl 0)
    rwa [List.take_length] at this
  rw [decode, h]
  cases (gather frame).outcome with
  | error f => rfl
  | ok ending =>
    exact congrArg (fun message => Except.ok (message, ending)) List.take_left

end NetconfWire.Chunk
