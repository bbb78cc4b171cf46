/-
Passes of reassembly.

Reassembly goes through a frame in passes.  Each of them seeks a marker, and the line feed
that ends the header behind it; then it leaves off, or moves the payload of a chunk to the
front and makes way for the next pass.  Up to the end of a frame none of these searches is
in vain: the end-of-chunks marker lies ahead of every pass, and nothing is moved onto it.

* `Passes.underway` — what holds wherever a pass begins;
* `Passes.exists_header` — hence every pass finds a marker and the end of its header;
* `Passes.exists_last` — so the last one leaves off at a header, which ends the frame or is
  refused;
* `reassemble_headed` — reassembly never comes to the end of the octets without their
  marker, and a session that receives never notes that it did.
-/
import NetconfWire.Proofs.Refusals

namespace NetconfWire

namespace Chunk

/-- The header line behind a marker. -/
def headerAt (buffer : Octets) (offset stop : Nat) : Octets :=
  (buffer.take (lineEnd buffer (offset + 2) stop)).drop (offset + 2)

/-- The passes of the reassembly of a frame: what the buffer holds, how many octets lie decoded at
its front and where reading goes on when the pass begins. -/
inductive Passes (stop : Nat) (buffer : Octets) : Octets → Nat → Nat → Prop
  | first : Passes stop buffer buffer 0 0
  | next {b : Octets} {decoded i gap n : Nat} (h : Passes stop buffer b decoded i)
    (hmore : i + 1 < stop) (hmarker : Octets.findBetween marker b i stop = some gap)
    (hline : headerAt b (i + gap) stop ≠ [0x23])
    (hread : readHeader (i + gap) decoded (headerAt b (i + gap) stop) = .ok n)
    (hroom : ¬ stop < lineEnd b (i + gap + 2) stop + 1 + n + terminator.length) :
    Passes stop buffer (move b decoded (lineEnd b (i + gap + 2) stop + 1) n) (decoded + n)
      (lineEnd b (i + gap + 2) stop + 1 + n)

section Passes

variable {buffer b : Octets} {stop decoded i gap : Nat}

/-- What a pass comes to if it finds a marker. -/
theorem reassembleFrom_of_marker (hmore : i + 1 < stop)
    (hmarker : Octets.findBetween marker b i stop = some gap) :
    reassembleFrom stop b decoded i
      = if headerAt b (i + gap) stop = [0x23] then ⟨b, .ok (decoded, .marker)⟩
        else
          match readHeader (i + gap) decoded (headerAt b (i + gap) stop) with
          | .error e => ⟨b, .error e⟩
          | .ok n =>
            if stop < lineEnd b (i + gap + 2) stop + 1 + n + terminator.length then
              ⟨b, .error (.chunkOverrun (i + gap) n
                (stop - terminator.length - (lineEnd b (i + gap + 2) stop + 1)) decoded)⟩
            else
              reassembleFrom stop (move b decoded (lineEnd b (i + gap + 2) stop + 1) n) (decoded + n)
                (lineEnd b (i + gap + 2) stop + 1 + n) := by
  rw [reassembleFrom, if_pos hmore, hmarker]
  rfl

/-- The passes are those of reassembly: each of them goes on to what the whole comes to. -/
theorem Passes.reassembleFrom_eq (h : Passes stop buffer b decoded i) :
    reassembleFrom stop b decoded i = reassemble buffer (some stop) := by
  induction h with
  | first => rfl
  | next h hmore hmarker hline hread hroom ih =>
    rw [reassembleFrom_of_marker hmore hmarker, if_neg hline, hread] at ih
    simp only [if_neg hroom] at ih
    exact ih

/-- What holds where a pass begins: the message lies at the front, behind it everything is as it was
before, and the end-of-chunks marker is still to be read. -/
structure Underway (stop : Nat) (buffer b : Octets) (decoded i : Nat) : Prop where
  moved : ∃ message : Octets, message.length = decoded ∧ b = message ++ buffer.drop message.length
  behind : decoded ≤ i
  ahead : i + terminator.length ≤ stop

theorem Passes.underway (hstop : stop ≤ buffer.length) (hend : terminator <:+ buffer.take stop)
    (h : Passes stop buffer b decoded i) : Underway stop buffer b decoded i := by
  induction h with
  | first =>
    have hlong := hend.length_le
    rw [List.length_take] at hlong
    exact ⟨⟨[], rfl, rfl⟩, Nat.le_refl 0, by omega⟩
  | @next b decoded i gap n h hmore hmarker hline hread hroom ih =>
    obtain ⟨message, rfl, rfl⟩ := ih.moved
    have hbehind := ih.behind
    set e := lineEnd (message ++ buffer.drop message.length) (i + gap + 2) stop
    -- a chunk for which there is room has its line feed in front of the marker
    have hplace : i + gap + 2 ≤ e ∨ e = stop := le_lineEnd_or _ _ _
    have hinside : e + 1 + n ≤ buffer.length := by omega
    refine ⟨⟨message ++ (buffer.drop (e + 1)).take n, ?_, ?_⟩, by omega, by omega⟩
    · exact length_append_take message hinside
    · exact move_eq (by omega) hinside

namespace Underway

variable (h : Underway stop buffer b decoded i)
include h

/-- The octets yet to be read have not been written to. -/
theorem unread_eq : (b.take stop).drop i = (buffer.take stop).drop i := by
  obtain ⟨message, rfl, rfl⟩ := h.moved
  exact drop_take_congr (drop_moved h.behind) (Nat.le_refl i)

/-- The end-of-chunks marker stands at the end of the octets yet to be read. -/
theorem terminator_suffix (hstop : stop ≤ buffer.length)
    (hend : terminator <:+ buffer.take stop) : terminator <:+ (b.take stop).drop i := by
  have hahead := h.ahead
  rw [h.unread_eq]
  refine List.suffix_of_suffix_length_le hend (List.drop_suffix i _) ?_
  rw [List.length_drop, List.length_take]
  omega

end Underway

/-- The first marker stands no further than the one that ends the frame, and so there is a line feed
behind it. -/
theorem exists_header_of_suffix {rest : Octets} (hend : terminator <:+ rest) :
    ∃ gap k, Octets.find? marker rest = some gap ∧
      Octets.find? [0x0A] (rest.drop (gap + 2)) = some k := by
  obtain ⟨front, rfl⟩ := hend
  have hlast : Octets.StandsAt marker (front ++ terminator) front.length := by
    rw [Octets.StandsAt, List.drop_left]
    decide
  cases hgap : Octets.find? marker (front ++ terminator) with
  | none =>
    have hnone := Octets.find?_eq_none_iff.mp hgap front.length (by simp)
    exact absurd hlast hnone
  | some gap =>
    have hfirst : gap ≤ front.length := by
      by_contra hbeyond
      exact (Octets.find?_eq_some_iff.mp hgap).2.2 _ (by omega) hlast
    have hfeed : (0x0A : UInt8) ∈ (front ++ terminator).drop (gap + 2) := by
      rw [show terminator = [0x0A, 0x23, 0x23] ++ [0x0A] from rfl, ← List.append_assoc,
        List.drop_append_of_le_length (by simp; omega)]
      exact List.mem_append_right _ List.mem_cons_self
    cases hk : Octets.find? [0x0A] ((front ++ terminator).drop (gap + 2)) with
    | none =>
      rw [Octets.find?_eq_none_iff_not_infix, List.singleton_infix_iff] at hk
      exact absurd hfeed hk
    | some k => exact ⟨gap, k, rfl, hk⟩

/-- Every pass finds a marker and the line feed that ends the header behind it. -/
theorem Passes.exists_header (hstop : stop ≤ buffer.length)
    (hend : terminator <:+ buffer.take stop) (h : Passes stop buffer b decoded i) :
    i + 1 < stop ∧ ∃ gap k, Octets.findBetween marker b i stop = some gap ∧
      Octets.findBetween [0x0A] b (i + gap + 2) stop = some k := by
  have hunderway := h.underway hstop hend
  have hahead := hunderway.ahead
  have hfour : terminator.length = 4 := rfl
  obtain ⟨gap, k, hgap, hk⟩ :=
    exists_header_of_suffix (hunderway.terminator_suffix hstop hend)
  rw [List.drop_drop, ← Nat.add_assoc] at hk
  exact ⟨by omega, gap, k, hgap, hk⟩

/-- Where reassembly leaves off: at a header line, which ends the frame or is refused. -/
inductive LeavesOff (stop : Nat) (b : Octets) (decoded offset : Nat) : Reassembly → Prop
  | ended (hline : headerAt b offset stop = [0x23]) :
    LeavesOff stop b decoded offset ⟨b, .ok (decoded, .marker)⟩
  | refused (f : Fault) (hline : headerAt b offset stop ≠ [0x23]) :
    LeavesOff stop b decoded offset ⟨b, .error f⟩

/-- From every pass reassembly comes to a last one, which leaves off at its header. -/
theorem Passes.exists_last (hstop : stop ≤ buffer.length) (hend : terminator <:+ buffer.take stop)
    (h : Passes stop buffer b decoded i) :
    ∃ b' decoded' i' gap, Passes stop buffer b' decoded' i' ∧
      Octets.findBetween marker b' i' stop = some gap ∧
      LeavesOff stop b' decoded' (i' + gap) (reassemble buffer (some stop)) := by
  -- the induction is on the octets left to read, of which every pass takes some
  induction hn : stop - i using Nat.strongRecOn generalizing b decoded i with
  | _ n ih =>
    obtain ⟨hmore, gap, k, hmarker, -⟩ := h.exists_header hstop hend
    have hpass := h.reassembleFrom_eq
    rw [reassembleFrom_of_marker hmore hmarker] at hpass
    by_cases hline : headerAt b (i + gap) stop = [0x23]
    · rw [if_pos hline] at hpass
      exact ⟨b, decoded, i, gap, h, hmarker, by rw [← hpass]; exact .ended hline⟩
    · rw [if_neg hline] at hpass
      cases hread : readHeader (i + gap) decoded (headerAt b (i + gap) stop) with
      | error f =>
        rw [hread] at hpass
        exact ⟨b, decoded, i, gap, h, hmarker, by rw [← hpass]; exact .refused f hline⟩
      | ok m =>
        simp only [hread] at hpass
        by_cases hroom : stop < lineEnd b (i + gap + 2) stop + 1 + m + terminator.length
        · rw [if_pos hroom] at hpass
          exact ⟨b, decoded, i, gap, h, hmarker, by rw [← hpass]; exact .refused _ hline⟩
        · have hplace := le_lineEnd_or b (i + gap + 2) stop
          exact ih _ (by omega) (h.next hmore hmarker hline hread hroom) rfl

end Passes

end Chunk

/-! ### What receiving notes -/

/-- A wait notes nothing but the end of its stream. -/
theorem Line.waitFrom_journal {κ α : Type} [Link κ] (test : Boundary α) (searched : Nat)
    (l : Line κ) :
    ∃ notes, (leftBy (waitFrom test searched l)).journal = notes ++ l.journal ∧
      ∀ note ∈ notes, ∃ n, note = .streamEnded n := by
  fun_induction waitFrom test searched l with
  | case5 searched l h n hlimit link hread =>
    refine ⟨[.streamEnded n], rfl, fun note hnote => ⟨n, ?_⟩⟩
    exact List.mem_singleton.mp hnote
  | case6 searched l h n hlimit x rest link hread ih => exact ih
  | _ => exact ⟨[], rfl, List.forall_mem_nil _⟩

namespace Session

variable {κ : Type} [Link κ]

/-- A chunked frame that a wait gives ends with the marker, so reading it never comes to its end
otherwise, and nothing is noted of that. -/
theorem receiveChunked_line (s : Session κ) :
    (leftBy (receiveChunked s)).line
      = leftBy (Line.waitFor (Boundary.ofDelimiter Chunk.terminator) s.line) := by
  have hframe := Line.waitFor_ofDelimiter Chunk.terminator s.line
  cases hw : Line.waitFor (Boundary.ofDelimiter Chunk.terminator) s.line with
  | error f l =>
    rw [receiveChunked, bind_of_error (onLine_of_error hw)]
    rfl
  | ok found l =>
    rw [hw] at hframe
    rw [receiveChunked, bind_of_ok (onLine_of_ok hw)]
    cases hdecode : Chunk.decode found.1 with
    | error f =>
      simp only [hdecode]
      rfl
    | ok gathered =>
      obtain ⟨message, ending⟩ := gathered
      obtain rfl := ((Chunk.decode_eq_ok_iff hframe).mp hdecode).1
      simp only [hdecode]
      rfl

theorem receiveDelimited_line (s : Session κ) :
    (leftBy (receiveDelimited s)).line
      = leftBy (Line.waitFor (Boundary.ofDelimiter Frame.delimiter) s.line) := by
  rw [receiveDelimited_eq]
  cases Line.waitFor (Boundary.ofDelimiter Frame.delimiter) s.line <;> rfl

/-- After the wait, receiving notes nothing but its message. -/
theorem receive_line {s : Session κ} (hopen : s.isClosed = false) :
    ∃ notes, (leftBy (receive s)).line
        = (leftBy (Line.waitFor (Boundary.ofDelimiter s.version.marker) s.line)).annotate notes ∧
      ∀ note ∈ notes, ∃ message, note = .received message := by
  -- whichever way the frame is read, the message is noted last
  have hlast : ∀ task : SessionTask κ Octets, ∃ notes,
      (leftBy ((do let message ← task; note (.received message); return message) s)).line
          = (leftBy (task s)).line.annotate notes ∧
        ∀ note ∈ notes, ∃ message, note = .received message := by
    intro task
    cases htask : task s with
    | error f s' =>
      rw [bind_of_error htask]
      exact ⟨[], rfl, List.forall_mem_nil _⟩
    | ok message s' =>
      rw [bind_of_ok htask]
      refine ⟨[.received message], rfl, fun note hnote => ⟨message, ?_⟩⟩
      exact List.mem_singleton.mp hnote
  rw [receive, bind_of_ok (checkOpen_of_open hopen), bind_of_ok get_eq]
  cases s.version with
  | base10 =>
    rw [Version.marker, ← receiveDelimited_line]
    exact hlast receiveDelimited
  | base11 =>
    rw [Version.marker, ← receiveChunked_line]
    exact hlast receiveChunked

/-- Receiving never notes that a frame had no end-of-chunks marker. -/
theorem receive_notes (s : Session κ) :
    ∃ notes, (leftBy (receive s)).line.journal = notes ++ s.line.journal ∧
      ∀ n, .markerMissing n ∉ notes := by
  by_cases hclosed : s.isClosed = true
  · rw [receive_of_closed hclosed]
    exact ⟨[], rfl, fun n => List.not_mem_nil⟩
  obtain ⟨notes, hline, hnotes⟩ := receive_line (Bool.eq_false_iff.mpr hclosed)
  obtain ⟨waited, hjournal, hwaited⟩ := Line.waitFrom_journal
    (Boundary.ofDelimiter s.version.marker) 0 { s.line with looks := [] }
  rw [← Line.waitFor] at hjournal
  refine ⟨notes ++ waited, ?_, fun n hn => ?_⟩
  · rw [hline, Line.annotate, hjournal, List.append_assoc]
  · -- the notes are told apart by their weights and by how they begin
    rcases List.mem_append.mp hn with hn | hn
    · obtain ⟨message, hmessage⟩ := hnotes _ hn
      have hfirst := congrArg (fun note => note.text.toList.head?) hmessage
      simp [Note.markerMissing, Note.received] at hfirst
    · obtain ⟨m, hm⟩ := hwaited _ hn
      have hweight := congrArg Note.weight hm
      cases hweight

/-- What receiving cuts off the stream of a base 1.1 session ends with the marker. -/
theorem terminator_suffix_of_cut? {s : Session κ} {frame : Octets} (hversion : s.version = .base11)
    (hcut : Call.receive.cut? s = some frame) : Chunk.terminator <:+ frame := by
  have hopen : s.isClosed = false := by
    by_contra hclosed
    rw [Call.cut?, Call.plan, if_pos (by simpa using hclosed)] at hcut
    cases hcut
  have hframe := Line.waitFor_ofDelimiter Chunk.terminator s.line
  rw [cut?_receive_of_open hopen, hversion, Version.marker] at hcut
  cases hw : Line.waitFor (Boundary.ofDelimiter Chunk.terminator) s.line with
  | error f l =>
    rw [hw] at hcut
    cases hcut
  | ok found l =>
    rw [hw] at hcut hframe
    cases hcut
    exact hframe

end Session

/-- **Reassembly leaves off at a header, and never for want of a marker.**  Up to the end of a frame
every pass has the end-of-chunks marker ahead, as it was, and finds a chunk marker and the line feed
behind it; the last pass ends the frame at its header or refuses it.  The frames that a session cuts
off are such frames, so that receiving never notes that the marker was missing. -/
theorem Chunk.reassemble_headed :
    (∀ {buffer : Octets} {stop : Nat}, stop ≤ buffer.length → terminator <:+ buffer.take stop →
      (∀ {b decoded i}, Passes stop buffer b decoded i →
        reassembleFrom stop b decoded i = reassemble buffer (some stop) ∧
        i + terminator.length ≤ stop ∧ terminator <:+ b.take stop ∧
        i + 1 < stop ∧ ∃ gap k, Octets.findBetween marker b i stop = some gap ∧
          Octets.findBetween [0x0A] b (i + gap + 2) stop = some k) ∧
      (∃ b decoded i gap, Passes stop buffer b decoded i ∧
        Octets.findBetween marker b i stop = some gap ∧
        LeavesOff stop b decoded (i + gap) (reassemble buffer (some stop))) ∧
      ∀ decoded, (reassemble buffer (some stop)).outcome ≠ .ok (decoded, .exhausted)) ∧
    ∀ {κ : Type} [Link κ] (s : Session κ),
      (s.version = .base11 → ∀ frame, Call.receive.cut? s = some frame →
        terminator <:+ frame ∧ ∀ message, decode frame ≠ .ok (message, .exhausted)) ∧
      ∃ notes, (leftBy (Session.receive s)).line.journal = notes ++ s.line.journal ∧
        ∀ n, .markerMissing n ∉ notes := by
  constructor
  · intro buffer stop hstop hend
    have hlast := Passes.first.exists_last hstop hend
    refine ⟨fun {b decoded i} h => ?_, hlast, fun decoded hexhausted => ?_⟩
    · have hunderway := h.underway hstop hend
      refine ⟨h.reassembleFrom_eq, hunderway.ahead, ?_, h.exists_header hstop hend⟩
      exact (hunderway.terminator_suffix hstop hend).trans (List.drop_suffix i _)
    · obtain ⟨b, decoded', i, gap, -, -, hleaves⟩ := hlast
      generalize reassemble buffer (some stop) = r at hleaves hexhausted
      cases hleaves with
      | ended hline => cases hexhausted
      | refused f hline => cases hexhausted
  · intro κ _ s
    refine ⟨fun hversion frame hcut => ?_, Session.receive_notes s⟩
    have hend := Session.terminator_suffix_of_cut? hversion hcut
    refine ⟨hend, fun message hdecode => ?_⟩
    cases ((decode_eq_ok_iff hend).mp hdecode).1

/-- A frame with an empty chunk, octets that belong to no chunk, and a header that shares its line
feed with the end-of-chunks marker; the buffer goes on behind it. -/
theorem Chunk.reassemble_headed_shared :
    17 ≤ (encode [] ++ encode [0x61] ++ [0x2D] ++ marker ++ [0x39] ++ terminator
      ++ marker).length ∧
    ∀ decoded, (reassemble (encode [] ++ encode [0x61] ++ [0x2D] ++ marker ++ [0x39] ++ terminator
      ++ marker) (some 17)).outcome ≠ .ok (decoded, .exhausted) := by
  have hstop : 17 ≤ (encode [] ++ encode [0x61] ++ [0x2D] ++ marker ++ [0x39] ++ terminator
      ++ marker).length := by decide
  have hend : terminator <:+ (encode [] ++ encode [0x61] ++ [0x2D] ++ marker ++ [0x39]
      ++ terminator ++ marker).take 17 := by
    refine ⟨encode [] ++ encode [0x61] ++ [0x2D] ++ marker ++ [0x39], ?_⟩
    decide
  exact ⟨hstop, (reassemble_headed.1 hstop hend).2.2⟩

end NetconfWire
