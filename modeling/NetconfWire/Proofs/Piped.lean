/-
What a session over pipes does to the octets around it.

A task of such a session takes octets off the front of those that come to it, and
adds octets to those that it has written.  It does nothing else that the other
session could notice:

* `send_moves` — sending adds the frame of the payload;
* `receive_moves` — receiving takes the frame of the message;
* `receive_moves_nothing`, `setVersion_moves`, `close_moves` — all else moves
  nothing.
-/
import NetconfWire.Proofs.Ambiguity
import NetconfWire.Session.Pair

namespace NetconfWire

namespace Joined

theorem receive_ends (size : Int) (j : Joined Outlet Inlet) :
    (receive size j).2.writer = j.writer ∧
      (receive size j).2.reader.isClosed = j.reader.isClosed ∧
      (receive size j).2.reader.fragment = j.reader.fragment := by
  obtain ⟨⟨pending, fragment, closed⟩, writer, calls⟩ := j
  cases closed <;> exact ⟨rfl, rfl, rfl⟩

theorem send_of_open (b : Octets) {j : Joined Outlet Inlet} (h : j.writer.isClosed = false) :
    send b j = (.ok (),
      { j with writer := { j.writer with pending := j.writer.pending ++ b }
               calls := .flush :: .write b :: j.calls }) := by
  have hwrite : Writer.write b j.writer
      = (.ok (), { j.writer with pending := j.writer.pending ++ b }) := by
    show Inlet.write b j.writer = _
    rw [Inlet.write, if_neg (by simp [h])]
  rw [send, hwrite]
  rfl

end Joined

namespace Session

variable {s s' : PipedSession}

/-- Nothing but the session itself closes its ends of the pipes, and its reads make progress. -/
structure Working (s : PipedSession) : Prop where
  ends_open : s.isClosed = false →
    s.line.link.reader.isClosed = false ∧ s.line.link.writer.isClosed = false
  fragment_pos : ∀ f ∈ s.line.link.reader.fragment, 0 < f
  quantum_pos : 0 < s.line.window.quantum

theorem Working.ready (hs : s.Working) (hopen : s.isClosed = false) : s.Ready :=
  ⟨hopen, ⟨(hs.ends_open hopen).1, hs.fragment_pos⟩, hs.quantum_pos⟩

/-- The session has come from one state to another: it took some of the octets that lie ahead and
wrote some. -/
structure Moves (s : PipedSession) (taken written : Octets) (s' : PipedSession) : Prop where
  working : s'.Working
  limit : s'.line.window.limit = s.line.window.limit
  ahead : s.line.ahead = taken ++ s'.line.ahead
  pending : s'.line.link.writer.pending = s.line.link.writer.pending ++ written

theorem Working.moves_nothing (hs : s.Working) : s.Moves [] [] s :=
  ⟨hs, rfl, rfl, (List.append_nil _).symm⟩

theorem send_moves (hs : s.Working) (hopen : s.isClosed = false) (store : OctetStore)
    (payload : Octets) :
    ∃ s', send (.octets store payload) s = .ok () s' ∧
      s.Moves [] (Frame.encode s.version payload) s' := by
  obtain ⟨notes, hsend⟩ := send_eq store payload hopen
  have hlink := Joined.send_of_open (Frame.encode s.version payload) (hs.ends_open hopen).2
  rw [show Link.send (Frame.encode s.version payload) s.line.link = _ from hlink] at hsend
  exact ⟨_, hsend, ⟨hs.ends_open, hs.fragment_pos, hs.quantum_pos⟩, rfl, rfl, rfl⟩

/-- Whatever receiving comes to, the session goes on working and nothing is written. -/
theorem receive_working (hs : s.Working) :
    (leftBy (receive s)).Working ∧
      (leftBy (receive s)).line.window.limit = s.line.window.limit ∧
      (leftBy (receive s)).line.link.writer.pending = s.line.link.writer.pending := by
  obtain ⟨l, hleft, ⟨hlimit, hquantum⟩, hkeeps⟩ := receive_keeps s
  obtain ⟨hwriter, hclosed, hfragment⟩ := hkeeps
    (fun j => j.writer = s.line.link.writer ∧ j.reader.isClosed = s.line.link.reader.isClosed ∧
      j.reader.fragment = s.line.link.reader.fragment)
    (fun size j h => by
      obtain ⟨hw, hc, hf⟩ := Joined.receive_ends size j
      exact ⟨hw.trans h.1, hc.trans h.2.1, hf.trans h.2.2⟩)
    ⟨rfl, rfl, rfl⟩
  rw [hleft]
  refine ⟨⟨?_, ?_, ?_⟩, hlimit, congrArg Inlet.pending hwriter⟩
  · intro hopen
    show l.link.reader.isClosed = false ∧ l.link.writer.isClosed = false
    rw [hclosed, hwriter]
    exact hs.ends_open hopen
  · show ∀ f ∈ l.link.reader.fragment, 0 < f
    rw [hfragment]
    exact hs.fragment_pos
  · show 0 < l.window.quantum
    rw [hquantum]
    exact hs.quantum_pos

/-- An unambiguous payload is received as it was sent. -/
theorem receive_moves {version : Version} {payload rest : Octets} (hs : s.Working)
    (hopen : s.isClosed = false) (hversion : s.version = version)
    (h : Frame.Unambiguous version payload)
    (hahead : s.line.ahead = Frame.encode version payload ++ rest)
    (hlimit : (Frame.encode version payload).length ≤ s.line.window.limit) :
    ∃ s', receive s = .ok payload s' ∧ s'.line.ahead = rest ∧
      s.Moves (Frame.encode version payload) [] s' := by
  obtain ⟨l, hrest, -, hreceive⟩ := receive_encode (hs.ready hopen) hversion h hahead hlimit
  obtain ⟨hworking, hwindow, hpending⟩ := receive_working hs
  rw [hreceive] at hworking hwindow hpending
  refine ⟨_, hreceive, hrest, hworking, hwindow, ?_, ?_⟩
  · rw [hahead]
    exact congrArg _ hrest.symm
  · rw [List.append_nil]
    exact hpending

/-- With nothing ahead there is nothing to take. -/
theorem receive_moves_nothing (hs : s.Working) (hopen : s.isClosed = false)
    (hahead : s.line.ahead = []) :
    ∃ s', receive s = .error (.frameIncomplete 0) s' ∧ s.Moves [] [] s' := by
  have hmiss : ¬ s.version.marker <:+: s.line.ahead := by
    rw [hahead, List.infix_nil]
    exact Version.marker_ne_nil _
  obtain ⟨l, -, hsame, -, hreceive⟩ := receive_miss (hs.ready hopen) hmiss
    (by rw [hahead]; exact Nat.zero_le _)
  obtain ⟨hworking, hwindow, hpending⟩ := receive_working hs
  rw [hreceive] at hworking hwindow hpending
  rw [hahead] at hreceive
  refine ⟨_, hreceive, hworking, hwindow, hsame.symm, ?_⟩
  rw [List.append_nil]
  exact hpending

theorem setVersion_moves (hs : s.Working) (given : Datum) :
    s.Moves [] [] (leftBy (setVersion given s)) := by
  cases hgiven : Frame.version given with
  | error f =>
    have hrefused := setVersion_eq given s
    rw [hgiven] at hrefused
    rw [hrefused]
    exact hs.moves_nothing
  | ok version =>
    obtain ⟨s', hchoice, -, hlink, hwindow, hclosed⟩ := setVersion_of_ok hgiven s
    rw [hchoice]
    refine ⟨⟨?_, ?_, ?_⟩, congrArg Window.limit hwindow, ?_, ?_⟩
    · intro hopen
      show s'.line.link.reader.isClosed = false ∧ s'.line.link.writer.isClosed = false
      rw [hlink]
      exact hs.ends_open (hclosed ▸ hopen)
    · show ∀ f ∈ s'.line.link.reader.fragment, 0 < f
      rw [hlink]
      exact hs.fragment_pos
    · show 0 < s'.line.window.quantum
      rw [hwindow]
      exact hs.quantum_pos
    · show s.line.ahead = s'.line.ahead
      rw [Line.ahead, Line.ahead, hlink, hwindow]
    · show s'.line.link.writer.pending = _
      rw [hlink, List.append_nil]

/-- Closing leaves what is held and what is pending. -/
theorem close_moves (hs : s.Working) : s.Moves [] [] (leftBy (close s)) := by
  by_cases h : s.isClosed = true
  · rw [close_of_closed h]
    exact hs.moves_nothing
  · rw [close_of_open (Bool.eq_false_iff.mpr h)]
    refine ⟨⟨?_, hs.fragment_pos, hs.quantum_pos⟩, rfl, rfl, (List.append_nil _).symm⟩
    intro hopen
    cases hopen

end Session

end NetconfWire
