/-
Delivery between two sessions.

The two sessions of a pair send, receive, choose versions and close in any order.
What each has sent and received is written down beside the pair, so that the
octets on the way can be compared with the messages on the way.

* `Carries` — one direction: the octets that are held by the receiver or pending
  in the pipe are the frames of the messages that were not yet received;
* `step_holds`, `reached_holds` — every permitted step keeps both directions so;
* `delivers` — hence messages arrive once each, in the order of sending.
-/
import NetconfWire.Proofs.Piped

namespace NetconfWire

/-- A message as it was sent. -/
structure Message where
  version : Version
  payload : Octets
  deriving DecidableEq

namespace Message

def frame (m : Message) : Octets :=
  Frame.encode m.version m.payload

/-- A session can receive the message: it is unambiguous, and its frame fits into the window. -/
def Fits (receiver : PipedSession) (m : Message) : Prop :=
  Frame.Unambiguous m.version m.payload ∧ m.frame.length ≤ receiver.line.window.limit

end Message

/-! ### One direction -/

/-- The sender has sent the messages in `sent` to the receiver, and these payloads were received of
them; the rest is on the way. -/
structure Carries (sender receiver : PipedSession) (sent : List Message)
    (received : List Octets) : Prop where
  pipe : receiver.line.link.reader.pending = sender.line.link.writer.pending
  ahead : receiver.line.ahead = (sent.drop received.length).flatMap Message.frame
  inOrder : received ++ (sent.drop received.length).map Message.payload
    = sent.map Message.payload
  fits : ∀ m ∈ sent.drop received.length, m.Fits receiver

namespace Carries

variable {s s' other : PipedSession} {sent : List Message} {received : List Octets}

theorem length_le (h : Carries s other sent received) : received.length ≤ sent.length := by
  have hlength := congrArg List.length h.inOrder
  rw [List.length_append, List.length_map, List.length_map, List.length_drop] at hlength
  omega

/-- What the sender writes is added to what lies ahead of the receiver. -/
theorem ahead_catchUp {taken written : Octets} (h : Carries s other sent received)
    (hmoves : s.Moves taken written s') :
    (Pair.catchUp other s').line.ahead = other.line.ahead ++ written := by
  show other.line.window.held ++ s'.line.link.writer.pending = _
  rw [hmoves.pending, ← h.pipe, ← List.append_assoc]
  rfl

theorem sender_idle {taken : Octets} (h : Carries s other sent received)
    (hmoves : s.Moves taken [] s') : Carries s' (Pair.catchUp other s') sent received where
  pipe := rfl
  ahead := by rw [h.ahead_catchUp hmoves, List.append_nil, h.ahead]
  inOrder := h.inOrder
  fits := h.fits

theorem send {m : Message} (h : Carries s other sent received) (hm : m.Fits other)
    (hmoves : s.Moves [] m.frame s') :
    Carries s' (Pair.catchUp other s') (sent ++ [m]) received := by
  have hdrop : (sent ++ [m]).drop received.length = sent.drop received.length ++ [m] :=
    List.drop_append_of_le_length h.length_le
  refine ⟨rfl, ?_, ?_, ?_⟩
  · rw [h.ahead_catchUp hmoves, hdrop, h.ahead, List.flatMap_append, List.flatMap_singleton]
  · rw [hdrop, List.map_append, List.map_append, ← List.append_assoc, h.inOrder]
  · intro m' hm'
    rw [hdrop, List.mem_append, List.mem_singleton] at hm'
    rcases hm' with hm' | rfl
    · exact h.fits m' hm'
    · exact hm

theorem receiver_idle {written : Octets} (h : Carries other s sent received)
    (hmoves : s.Moves [] written s') : Carries (Pair.catchUp other s') s' sent received where
  pipe := rfl
  ahead := by rw [← h.ahead, hmoves.ahead, List.nil_append]
  inOrder := h.inOrder
  fits m hm := ⟨(h.fits m hm).1, by rw [hmoves.limit]; exact (h.fits m hm).2⟩

theorem receive {m : Message} {later : List Message} (h : Carries other s sent received)
    (hsent : sent.drop received.length = m :: later) (hmoves : s.Moves m.frame [] s') :
    Carries (Pair.catchUp other s') s' sent (received ++ [m.payload]) := by
  have hdrop : sent.drop (received ++ [m.payload]).length = later := by
    rw [List.length_append, List.length_singleton, ← List.drop_drop, hsent, List.drop_one,
      List.tail_cons]
  refine ⟨rfl, ?_, ?_, ?_⟩
  · have hahead := h.ahead
    rw [hmoves.ahead, hsent, List.flatMap_cons] at hahead
    rw [hdrop]
    exact List.append_cancel_left hahead
  · rw [hdrop, ← h.inOrder, hsent, List.map_cons, List.append_assoc]
    rfl
  · intro m' hm'
    rw [hdrop] at hm'
    have hfits := h.fits m' (by rw [hsent]; exact List.mem_cons_of_mem _ hm')
    exact ⟨hfits.1, by rw [hmoves.limit]; exact hfits.2⟩

end Carries

/-! ### Talks -/

namespace Side

def other : Side → Side
  | a => b
  | b => a

theorem other_other (side : Side) : side.other.other = side := by
  cases side <;> rfl

theorem other_ne (side : Side) : side.other ≠ side := by
  cases side <;> decide

theorem forall_iff (side : Side) {P : Side → Prop} : (∀ x, P x) ↔ P side ∧ P side.other := by
  constructor
  · exact fun h => ⟨h _, h _⟩
  · rintro ⟨hself, hother⟩ x
    cases side <;> cases x <;> assumption

end Side

/-- What one of two sessions does. -/
inductive Deed
  | send (store : OctetStore) (payload : Octets)
  | receive
  | setVersion (given : Datum)
  | close

/-- Two sessions, and what each of them has sent and received. -/
structure Talk where
  pair : Pair
  sent : Side → List Message
  received : Side → List Octets

namespace Talk

/-- Nothing was said yet. -/
def between (pair : Pair) : Talk :=
  ⟨pair, fun _ => [], fun _ => []⟩

def session (t : Talk) (side : Side) : PipedSession :=
  t.pair.session side

/-- The messages on the way to a side, the oldest first. -/
def undelivered (t : Talk) (side : Side) : List Message :=
  (t.sent side.other).drop (t.received side).length

/-- The session at a side does something.  A payload counts as sent, or as received, if the session
does not fail at it. -/
def step (t : Talk) (side : Side) : Deed → Talk
  | .send store payload =>
    match Session.send (.octets store payload) (t.session side) with
    | .ok () s => ⟨t.pair.after side s,
        Function.update t.sent side (t.sent side ++ [⟨(t.session side).version, payload⟩]),
        t.received⟩
    | .error _ s => { t with pair := t.pair.after side s }
  | .receive =>
    match Session.receive (t.session side) with
    | .ok message s => ⟨t.pair.after side s, t.sent,
        Function.update t.received side (t.received side ++ [message])⟩
    | .error _ s => { t with pair := t.pair.after side s }
  | .setVersion given =>
    { t with pair := t.pair.after side (leftBy (Session.setVersion given (t.session side))) }
  | .close => { t with pair := t.pair.after side (leftBy (Session.close (t.session side))) }

/-- An open session may send what the other one can receive, and may receive when the oldest message
on the way was sent for its version.  It may choose a version or close at any time. -/
def Permits (t : Talk) (side : Side) (deed : Deed) : Prop :=
  (t.session side).isClosed = false →
  match deed with
  | .send _ payload => Message.Fits (t.session side.other) ⟨(t.session side).version, payload⟩
  | .receive => ∀ m ∈ (t.undelivered side).head?, (t.session side).version = m.version
  | .setVersion _ => True
  | .close => True

/-- The talks that two sessions can come to. -/
inductive Reached (pair : Pair) : Talk → Prop
  | start : Reached pair (between pair)
  | step {t : Talk} (h : Reached pair t) (side : Side) (deed : Deed)
      (hpermits : t.Permits side deed) : Reached pair (t.step side deed)

/-- Both sessions work, and what is on the way to them are the messages not yet received. -/
def Holds (t : Talk) : Prop :=
  ∀ side, (t.session side).Working ∧
    Carries (t.session side.other) (t.session side) (t.sent side.other) (t.received side)

section Steps

variable {t : Talk} {side : Side} {s : PipedSession}

theorem session_after : (t.pair.after side s).session side = s := by
  cases side <;> rfl

theorem session_after_other :
    (t.pair.after side s).session side.other = Pair.catchUp (t.session side.other) s := by
  cases side <;> rfl

/-- A talk goes on if both of its directions do. -/
theorem holds_after {sent : Side → List Message} {received : Side → List Octets}
    (h : t.Holds) (hworking : s.Working)
    (hcoming : Carries (Pair.catchUp (t.session side.other) s) s (sent side.other)
      (received side))
    (hgoing : Carries s (Pair.catchUp (t.session side.other) s) (sent side)
      (received side.other)) :
    Holds ⟨t.pair.after side s, sent, received⟩ := by
  refine (Side.forall_iff side).mpr ⟨?_, ?_⟩
  · rw [session, session, session_after, session_after_other]
    exact ⟨hworking, hcoming⟩
  · rw [Side.other_other, session, session, session_after, session_after_other]
    -- the other session has changed at its ends of the pipes only
    have hother := (h side.other).1
    exact ⟨⟨hother.ends_open, hother.fragment_pos, hother.quantum_pos⟩, hgoing⟩

theorem Holds.going (h : t.Holds) (side : Side) :
    Carries (t.session side) (t.session side.other) (t.sent side) (t.received side.other) := by
  have hgoing := (h side.other).2
  rwa [Side.other_other] at hgoing

theorem Holds.idle (h : t.Holds) (hmoves : (t.session side).Moves [] [] s) :
    Holds { t with pair := t.pair.after side s } :=
  holds_after h hmoves.working ((h side).2.receiver_idle hmoves) ((h.going side).sender_idle hmoves)

theorem Holds.send (h : t.Holds) {payload : Octets}
    (hfits : Message.Fits (t.session side.other) ⟨(t.session side).version, payload⟩)
    (hmoves : (t.session side).Moves [] (Frame.encode (t.session side).version payload) s) :
    Holds ⟨t.pair.after side s,
      Function.update t.sent side (t.sent side ++ [⟨(t.session side).version, payload⟩]),
      t.received⟩ := by
  refine holds_after h hmoves.working ?_ ?_
  · rw [Function.update_of_ne side.other_ne]
    exact (h side).2.receiver_idle hmoves
  · rw [Function.update_self]
    exact (h.going side).send hfits hmoves

theorem Holds.receive (h : t.Holds) {m : Message} {later : List Message}
    (hsent : t.undelivered side = m :: later)
    (hmoves : (t.session side).Moves m.frame [] s) :
    Holds ⟨t.pair.after side s, t.sent,
      Function.update t.received side (t.received side ++ [m.payload])⟩ := by
  refine holds_after h hmoves.working ?_ ?_
  · rw [Function.update_self]
    exact (h side).2.receive hsent hmoves
  · rw [Function.update_of_ne side.other_ne]
    exact (h.going side).sender_idle hmoves

/-- An open session receives the oldest message on the way to it. -/
theorem Holds.receive_oldest (h : t.Holds) (hopen : (t.session side).isClosed = false)
    {m : Message} {later : List Message} (hsent : t.undelivered side = m :: later)
    (hversion : (t.session side).version = m.version) :
    ∃ s, Session.receive (t.session side) = .ok m.payload s ∧
      (t.session side).Moves m.frame [] s := by
  obtain ⟨hworking, hcarries⟩ := h side
  have hahead := hcarries.ahead
  rw [← undelivered, hsent, List.flatMap_cons] at hahead
  obtain ⟨hplain, hlimit⟩ := hcarries.fits m (by rw [← undelivered, hsent]; exact List.mem_cons_self)
  obtain ⟨s, hreceive, -, hmoves⟩ :=
    Session.receive_moves hworking hopen hversion hplain hahead hlimit
  exact ⟨s, hreceive, hmoves⟩

/-- With no message on the way it finds the end of the stream, and nothing in front of it. -/
theorem Holds.receive_none (h : t.Holds) (hopen : (t.session side).isClosed = false)
    (hsent : t.undelivered side = []) :
    ∃ s, Session.receive (t.session side) = .error (.frameIncomplete 0) s ∧
      (t.session side).Moves [] [] s := by
  obtain ⟨hworking, hcarries⟩ := h side
  have hahead := hcarries.ahead
  rw [← undelivered, hsent, List.flatMap_nil] at hahead
  exact Session.receive_moves_nothing hworking hopen hahead

/-- Every permitted step keeps the octets and the messages on the way the same. -/
theorem step_holds {deed : Deed} (h : t.Holds) (hpermits : t.Permits side deed) :
    (t.step side deed).Holds := by
  have hworking := (h side).1
  by_cases hclosed : (t.session side).isClosed = true
  · -- a closed session fails at sending and receiving, and stays as it is
    have hidle := h.idle hworking.moves_nothing
    cases deed with
    | send store payload => rwa [step, Session.send_of_closed _ hclosed]
    | receive => rwa [step, Session.receive_of_closed hclosed]
    | setVersion given => exact h.idle (Session.setVersion_moves hworking given)
    | close => exact h.idle (Session.close_moves hworking)
  · have hopen := Bool.eq_false_iff.mpr hclosed
    cases deed with
    | send store payload =>
      obtain ⟨s, hsend, hmoves⟩ := Session.send_moves hworking hopen store payload
      rw [step, hsend]
      exact h.send (hpermits hopen) hmoves
    | receive =>
      cases hsent : t.undelivered side with
      | nil =>
        obtain ⟨s, hreceive, hmoves⟩ := h.receive_none hopen hsent
        rw [step, hreceive]
        exact h.idle hmoves
      | cons m later =>
        have hversion := hpermits hopen m (by rw [hsent]; rfl)
        obtain ⟨s, hreceive, hmoves⟩ := h.receive_oldest hopen hsent hversion
        rw [step, hreceive]
        exact h.receive hsent hmoves
    | setVersion given => exact h.idle (Session.setVersion_moves hworking given)
    | close => exact h.idle (Session.close_moves hworking)

end Steps

/-! ### From the start -/

/-- The ends of two empty pipes. -/
def freshEnds (fragment : Option Nat) : Joined Outlet Inlet :=
  Joined.of (Outlet.mk [] fragment false) (Inlet.mk [] false)

theorem pair_start {ofA ofB : Settings} {fragment : Option Nat} {pair : Pair}
    (h : Pair.start ofA ofB fragment = .ok pair) :
    ofA.start (freshEnds fragment) = .ok pair.a ∧ ofB.start (freshEnds fragment) = .ok pair.b := by
  rw [Pair.start] at h
  rw [freshEnds]
  cases ha : ofA.start (Joined.of (Outlet.mk [] fragment false) (Inlet.mk [] false)) with
  | error f => rw [ha] at h; cases h
  | ok a =>
    cases hb : ofB.start (Joined.of (Outlet.mk [] fragment false) (Inlet.mk [] false)) with
    | error f => rw [ha, hb] at h; cases h
    | ok b =>
      rw [ha, hb] at h
      cases h
      exact ⟨rfl, rfl⟩

theorem start_working {settings : Settings} {fragment : Option Nat} {s : PipedSession}
    (hfragment : ∀ f ∈ fragment, 0 < f) (h : settings.start (freshEnds fragment) = .ok s) :
    s.Working ∧ s.line.link = freshEnds fragment ∧ s.line.ahead = [] := by
  obtain ⟨hlink, hheld, hquantum, -⟩ := Session.start_eq h
  refine ⟨⟨fun _ => ?_, ?_, hquantum⟩, hlink, ?_⟩
  · rw [hlink]
    exact ⟨rfl, rfl⟩
  · rw [hlink]
    exact hfragment
  · rw [Line.ahead, hheld, hlink]
    rfl

/-- Sessions that have just started are joined by empty pipes. -/
theorem start_holds {ofA ofB : Settings} {fragment : Option Nat} {pair : Pair}
    (hfragment : ∀ f ∈ fragment, 0 < f) (hstart : Pair.start ofA ofB fragment = .ok pair) :
    (between pair).Holds := by
  obtain ⟨ha, hb⟩ := pair_start hstart
  obtain ⟨haworks, halink, haahead⟩ := start_working hfragment ha
  obtain ⟨hbworks, hblink, hbahead⟩ := start_working hfragment hb
  intro side
  cases side with
  | a =>
    refine ⟨haworks, ?_, haahead, rfl, fun m hm => absurd hm List.not_mem_nil⟩
    show pair.a.line.link.reader.pending = pair.b.line.link.writer.pending
    rw [halink, hblink]
    rfl
  | b =>
    refine ⟨hbworks, ?_, hbahead, rfl, fun m hm => absurd hm List.not_mem_nil⟩
    show pair.b.line.link.reader.pending = pair.a.line.link.writer.pending
    rw [halink, hblink]
    rfl

/-- Every talk that permitted steps lead to keeps the octets and the messages on the way the same. -/
theorem reached_holds {pair : Pair} {t : Talk} (hstart : (between pair).Holds)
    (h : Reached pair t) : t.Holds := by
  induction h with
  | start => exact hstart
  | step _ side deed hpermits ih => exact step_holds ih hpermits

/-- **Messages arrive once each, in the order of sending.**  At every point of a permitted talk, the
octets held at a side and pending in its pipe are the frames of the messages on the way, and these
come after those received.  An open session can send, and what it is permitted to receive is the
oldest message on the way, or the end of the stream if there is none. -/
theorem delivers {ofA ofB : Settings} {fragment : Option Nat} {pair : Pair}
    (hfragment : ∀ f ∈ fragment, 0 < f) (hstart : Pair.start ofA ofB fragment = .ok pair)
    {t : Talk} (h : Reached pair t) (side : Side) :
    (t.session side).line.window.held ++ (t.session side.other).line.link.writer.pending
        = (t.undelivered side).flatMap Message.frame ∧
      t.received side ++ (t.undelivered side).map Message.payload
        = (t.sent side.other).map Message.payload ∧
      ((t.session side).isClosed = false →
        (∀ store payload, ∃ s, Session.send (.octets store payload) (t.session side) = .ok () s) ∧
        (t.Permits side .receive →
          match t.undelivered side with
          | [] => ∃ s, Session.receive (t.session side) = .error (.frameIncomplete 0) s
          | m :: _ => ∃ s, Session.receive (t.session side) = .ok m.payload s)) := by
  have hholds := reached_holds (start_holds hfragment hstart) h
  obtain ⟨hworking, hcarries⟩ := hholds side
  refine ⟨?_, hcarries.inOrder, fun hopen => ⟨fun store payload => ?_, fun hpermits => ?_⟩⟩
  · rw [← hcarries.pipe]
    exact hcarries.ahead
  · obtain ⟨s, hsend, -⟩ := Session.send_moves hworking hopen store payload
    exact ⟨s, hsend⟩
  · cases hsent : t.undelivered side with
    | nil =>
      obtain ⟨s, hreceive, -⟩ := hholds.receive_none hopen hsent
      exact ⟨s, hreceive⟩
    | cons m later =>
      have hversion := hpermits hopen m (by rw [hsent]; rfl)
      obtain ⟨s, hreceive, -⟩ := hholds.receive_oldest hopen hsent hversion
      exact ⟨s, hreceive⟩

/-- Two messages framed for different versions lie in a pipe that gives two octets a read, and the
first of them is received. -/
theorem delivers_switch :
    ∃ pair t, Pair.start .standard .standard (some 2) = .ok pair ∧ Reached pair t ∧
      t.undelivered .b = [⟨.base10, [0x61]⟩, ⟨.base11, [0x62]⟩] ∧
      ∃ s, Session.receive (t.session .b) = .ok [0x61] s := by
  let fresh : PipedSession := ⟨Line.fresh (freshEnds (some 2))
    ⟨[], Window.defaultSize / 2, Window.defaultLimit⟩,
    Hello.defaultCapabilities.map .text, .base10, .uninitialized, none, none⟩
  have hstart : Pair.start .standard .standard (some 2) = .ok ⟨fresh, fresh⟩ := rfl
  have hfirst := (@Reached.start ⟨fresh, fresh⟩).step .a (.send .frozen [0x61])
    fun _ => ⟨⟨by decide, by decide⟩, by decide⟩
  have hsecond := hfirst.step .a (.setVersion (.text "1.1")) fun _ => trivial
  have hthird := hsecond.step .a (.send .frozen [0x62])
    fun _ => ⟨⟨by decide, by decide⟩, by decide⟩
  refine ⟨_, _, hstart, hthird, rfl, ?_⟩
  refine ((delivers (by decide) hstart hthird .b).2.2 rfl).2 fun _ m hm => ?_
  cases hm
  rfl

end Talk

end NetconfWire
