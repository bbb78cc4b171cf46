/-
What sessions send, and what they keep when they fail.

An operation that fails has not moved the standing of its session.  One that was to send or
to choose a version has left the window alone as well, and has sent nothing: a frame is
passed to the link in one call, after all else that may be refused, and an introduction is
recorded only after that call.

* `Operation.standing_of_error`, `Operation.window_eq` — what failures leave as it was;
* `Step.sent_leaves`, `Follows.sent_eq` — a step sends the frame of its payload or nothing,
  and a run sends the frames of its steps;
* `Session.intact_of_failure` — both together, over every link.
-/
import Mathlib.Data.List.Forall2
import NetconfWire.Link.Script
import NetconfWire.Proofs.Histories

namespace NetconfWire

/-! ### What a link has sent -/

/-- The octets that a call has sent; a call that failed has sent none. -/
def LinkEvent.sent? : LinkEvent → Option Octets
  | sent b (.ok ()) => some b
  | sent _ (.error _) | received _ _ | closed _ => none

namespace Traced

variable {κ : Type}

/-- What was sent over a link so far, call by call. -/
def sent (t : Traced κ) : List Octets :=
  t.trace.filterMap LinkEvent.sent?

theorem sent_of_some {t : Traced κ} {link : κ} {event : LinkEvent} {b : Octets}
    (h : event.sent? = some b) : sent ⟨link, t.trace ++ [event]⟩ = t.sent ++ [b] := by
  rw [sent, List.filterMap_append, List.filterMap_cons_some h]
  rfl

theorem sent_of_none {t : Traced κ} {link : κ} {event : LinkEvent} (h : event.sent? = none) :
    sent ⟨link, t.trace ++ [event]⟩ = t.sent := by
  rw [sent, List.filterMap_append, List.filterMap_cons_none h]
  exact List.append_nil _

variable [Link κ] {t t' : Traced κ} {b : Octets}

theorem sent_send_of_ok (h : Link.send b t = (.ok (), t')) : t'.sent = t.sent ++ [b] := by
  obtain ⟨houtcome, rfl⟩ := Prod.ext_iff.mp h
  refine sent_of_some ?_
  rw [show (Link.send b t.link).1 = .ok () from houtcome]
  rfl

theorem sent_send_of_error {f : LinkFault} (h : Link.send b t = (.error f, t')) :
    t'.sent = t.sent := by
  obtain ⟨houtcome, rfl⟩ := Prod.ext_iff.mp h
  refine sent_of_none ?_
  rw [show (Link.send b t.link).1 = .error f from houtcome]
  rfl

end Traced

/-! ### Failures -/

section Failures

variable {κ : Type} [Link κ]

theorem Session.send_window (payload : Datum) (s : Session κ) :
    (leftBy (send payload s)).line.window = s.line.window := by
  have hdispatch := send_dispatch payload s
  generalize send payload s = r at hdispatch ⊢
  cases hdispatch with
  | refused notes h => rfl
  | passed notes hframe hsend => rfl
  | failed notes hframe hsend => rfl

namespace Operation

variable {s : Session κ} {op : Operation} {f : Fault}

/-- An operation that fails leaves no milestone, unless it was to close the session. -/
theorem standing_of_error (hop : op ≠ .close) (h : op.outcome s = .error f) :
    (op.leaves s).standing = s.standing := by
  have hnone : op.milestone? s = none := by
    cases op with
    | send payload => rfl
    | receive => rfl
    | sendHello hello =>
      rw [outcome] at h
      rw [milestone?, h]
    | receiveHello =>
      rw [outcome] at h
      rw [milestone?, error_of_map h]
    | setVersion given =>
      rw [outcome] at h
      rw [milestone?, h]
    | close => exact absurd rfl hop
  rw [op.standing_eq, hnone]
  rfl

/-- Only receiving touches the window. -/
theorem window_eq (hreceive : op ≠ .receive) (hreceiveHello : op ≠ .receiveHello) :
    (op.leaves s).line.window = s.line.window := by
  have hsends : ∀ given, op.payload? s = some given →
      (op.leaves s).line.window = s.line.window := by
    intro given hgiven
    rcases sends_payload hgiven with ⟨f, -, hleft⟩ | ⟨payload, -, -, hline⟩
    · rw [hleft]
    · rw [hline, Session.send_window]
  cases op with
  | send payload => exact hsends _ rfl
  | receive => exact absurd rfl hreceive
  | sendHello hello => exact hsends _ rfl
  | receiveHello => exact absurd rfl hreceiveHello
  | setVersion given =>
    rw [leaves, Session.setVersion_eq]
    cases Frame.version given <;> rfl
  | close => exact (Session.close_line s).1

end Operation

end Failures

/-! ### Frames -/

namespace Step

variable {κ : Type} [Link κ]

/-- A step was to send, and did not fail. -/
def hasSent (x : Step κ) : Bool :=
  (x.operation.payload? x.session).isSome && (x.operation.outcome x.session).isOk

/-- The frame of what a step is to send, for the version in force when it is taken. -/
def Frames (x : Step κ) (frame : Octets) : Prop :=
  ∃ payload, x.operation.payload? x.session = some (.ok payload) ∧
    Frame.ofPayload (.version x.session.version) payload = .ok frame

end Step

section Frames

variable {κ : Type} [Link κ] {s s' : Session (Traced κ)} {op : Operation}

/-- Sending a payload sends its frame, or fails and sends nothing. -/
theorem Session.send_sent (payload : Datum) (s : Session (Traced κ)) :
    (∃ f, outcomeOf (send payload s) = .error f ∧
      (leftBy (send payload s)).line.link.sent = s.line.link.sent) ∨
    ∃ frame, outcomeOf (send payload s) = .ok () ∧
      Frame.ofPayload (.version s.version) payload = .ok frame ∧
      (leftBy (send payload s)).line.link.sent = s.line.link.sent ++ [frame] := by
  have hdispatch := send_dispatch payload s
  generalize send payload s = r at hdispatch ⊢
  cases hdispatch with
  | refused notes h => exact .inl ⟨_, rfl, rfl⟩
  | passed notes hframe hsend => exact .inr ⟨_, rfl, hframe, Traced.sent_send_of_ok hsend⟩
  | failed notes hframe hsend => exact .inl ⟨_, rfl, Traced.sent_send_of_error hsend⟩

/-- An operation that has nothing to send sends nothing. -/
theorem Operation.sent_of_payload?_none (h : op.payload? s = none) :
    (op.leaves s).line.link.sent = s.line.link.sent := by
  have hreceive : (leftBy (Session.receive s)).line.link.sent = s.line.link.sent := by
    obtain ⟨l, hleft, -, hlink⟩ := Session.receive_keeps s
    rw [hleft]
    refine hlink (fun t => t.sent = s.line.link.sent) (fun size t ht => ?_) rfl
    rw [← ht]
    exact Traced.sent_of_none rfl
  cases op with
  | send payload => cases h
  | receive => exact hreceive
  | sendHello hello => cases h
  | receiveHello =>
    rw [leaves, Session.receiveHello_line]
    exact hreceive
  | setVersion given =>
    rw [leaves, Session.setVersion_eq]
    cases Frame.version given <;> rfl
  | close =>
    rw [leaves, (Session.close_line s).2]
    split
    · rfl
    · exact Traced.sent_of_none rfl

/-- A step that has sent has sent the frame of its payload, and any other step has sent nothing. -/
theorem Step.sent_leaves (x : Step (Traced κ)) :
    ∃ frames, (x.operation.leaves x.session).line.link.sent = x.session.line.link.sent ++ frames ∧
      List.Forall₂ Frames ([x].filter hasSent) frames := by
  have hnothing (h : x.hasSent = false)
      (hsent : (x.operation.leaves x.session).line.link.sent = x.session.line.link.sent) :
      ∃ frames, (x.operation.leaves x.session).line.link.sent
          = x.session.line.link.sent ++ frames ∧
        List.Forall₂ Frames ([x].filter hasSent) frames := by
    refine ⟨[], by rw [hsent, List.append_nil], ?_⟩
    rw [List.filter_singleton, h]
    exact .nil
  cases hgiven : x.operation.payload? x.session with
  | none =>
    refine hnothing ?_ (Operation.sent_of_payload?_none hgiven)
    rw [hasSent, hgiven]
    rfl
  | some given =>
    rcases Operation.sends_payload hgiven with ⟨f, hfails, hleft⟩ | ⟨payload, rfl, hout, hline⟩
    · refine hnothing ?_ (by rw [hleft])
      rw [hasSent, hfails]
      exact Bool.and_false _
    · rcases Session.send_sent payload x.session with ⟨f, hf, hsent⟩ | ⟨frame, hok, hframe, hsent⟩
      · refine hnothing ?_ (by rw [hline, hsent])
        rw [hasSent, hout, hf]
        exact Bool.and_false _
      · refine ⟨[frame], by rw [hline, hsent], ?_⟩
        have hhas : x.hasSent = true := by
          rw [hasSent, hgiven, hout, hok]
          rfl
        rw [List.filter_singleton, hhas]
        exact .cons ⟨payload, hgiven, hframe⟩ .nil

/-- A run sends the frames of its steps, in their order. -/
theorem Follows.sent_eq {steps : List (Step (Traced κ))} (h : Follows s steps s') :
    ∃ frames, s'.line.link.sent = s.line.link.sent ++ frames ∧
      List.Forall₂ Step.Frames (steps.filter Step.hasSent) frames := by
  induction steps generalizing s with
  | nil =>
    obtain rfl := h
    exact ⟨[], (List.append_nil _).symm, .nil⟩
  | cons x steps ih =>
    obtain ⟨rfl, hlater⟩ := h
    obtain ⟨frames, hsent, hframes⟩ := x.sent_leaves
    obtain ⟨more, hmore, hlast⟩ := ih hlater
    refine ⟨frames ++ more, by rw [hmore, hsent, List.append_assoc], ?_⟩
    rw [← List.singleton_append, List.filter_append]
    exact List.rel_append hframes hlast

end Frames

/-- **Failures leave a session intact.**  An operation that fails leaves the phase, the version and
the introductions of its session as they were, and unless it was to receive it leaves the window as
it was and sends nothing.  In every history there is one call to send for each step that was to send
and did not fail; it has the frame of what was to be sent, for the version in force at that step, and
nothing else is sent. -/
theorem Session.intact_of_failure {κ : Type} [Link κ] :
    (∀ {s : Session (Traced κ)} {op : Operation} {f : Fault},
      op ≠ .close → op.outcome s = .error f →
      (op.leaves s).standing = s.standing ∧
      (op ≠ .receive → op ≠ .receiveHello →
        (op.leaves s).line.window = s.line.window ∧
        (op.leaves s).line.link.sent = s.line.link.sent)) ∧
    ∀ {link : κ} {capabilities : Option Datum} {size limit : Int} {s₀ s : Session (Traced κ)}
        {steps : List (Step (Traced κ))},
      start (Traced.of link) capabilities size limit = .ok s₀ → History s₀ steps s →
      List.Forall₂ Step.Frames (steps.filter Step.hasSent) s.line.link.sent := by
  constructor
  · intro s op f hop hfails
    refine ⟨Operation.standing_of_error hop hfails, fun hreceive hreceiveHello => ?_⟩
    refine ⟨Operation.window_eq hreceive hreceiveHello, ?_⟩
    obtain ⟨frames, hsent, hframes⟩ := Step.sent_leaves ⟨s, op⟩
    have hhas : Step.hasSent ⟨s, op⟩ = false := by
      rw [Step.hasSent, hfails]
      exact Bool.and_false _
    rw [List.filter_singleton, hhas] at hframes
    cases hframes
    rw [hsent, List.append_nil]
  · intro link capabilities size limit s₀ s steps hstart h
    obtain ⟨hlink, -⟩ := start_eq hstart
    obtain ⟨frames, hsent, hframes⟩ := h.follows.sent_eq
    rw [hsent, hlink]
    exact hframes

/-- A session sends a message for each version; in between, one value is refused as no payload and
one message is lost by a failing link. -/
theorem Session.intact_of_failure_between :
    ∃ (s₀ s : Session (Traced Script)) (steps : List (Step (Traced Script))),
      start (Traced.of (Script.fresh [] false [none, some ⟨.timedOut, "timed out"⟩] none)) none
        Window.defaultSize Window.defaultLimit = .ok s₀ ∧
      History s₀ steps s ∧
      steps.map Step.operation = [.send (.octets .frozen [0x61]), .send .null,
        .setVersion (.text "1.1"), .send (.octets .frozen [0x62]),
        .send (.octets .frozen [0x63])] ∧
      (∃ x ∈ steps, x.operation = .send .null ∧
        ((Operation.send .null).leaves x.session).standing = x.session.standing) ∧
      s.line.link.sent = [Frame.delimited [0x61], Frame.chunked [0x63]] := by
  obtain ⟨hintact, hsends⟩ := @intact_of_failure Script _
  obtain ⟨s₀, hstart⟩ : ∃ s₀, start (Traced.of (Script.fresh [] false
      [none, some ⟨.timedOut, "timed out"⟩] none)) none Window.defaultSize Window.defaultLimit
      = .ok s₀ := ⟨_, rfl⟩
  let s₁ := (Operation.send (.octets .frozen [0x61])).leaves s₀
  let s₂ := (Operation.send .null).leaves s₁
  let s₃ := (Operation.setVersion (.text "1.1")).leaves s₂
  let s₄ := (Operation.send (.octets .frozen [0x62])).leaves s₃
  have hrun := (((((History.nothing s₀).operation (.send (.octets .frozen [0x61]))).operation
    (.send .null)).operation (.setVersion (.text "1.1"))).operation
    (.send (.octets .frozen [0x62]))).operation (.send (.octets .frozen [0x63]))
  have hsent := hsends hstart hrun
  cases hstart
  have hrefused := (@hintact s₁ (.send .null) _ (by simp) rfl).1
  refine ⟨_, _, _, rfl, hrun, rfl, ⟨⟨s₁, .send .null⟩, by simp [s₁], rfl, hrefused⟩, ?_⟩
  -- two of the steps have sent, the first one and the last one
  change List.Forall₂ Step.Frames [⟨_, .send (.octets .frozen [0x61])⟩,
    ⟨s₄, .send (.octets .frozen [0x63])⟩] _ at hsent
  obtain ⟨first, frames, ⟨payload, hpayload, hfirst⟩, hrest, hframes⟩ :=
    List.forall₂_cons_left_iff.mp hsent
  obtain ⟨last, none, ⟨payload', hpayload', hlast⟩, hnone, rfl⟩ :=
    List.forall₂_cons_left_iff.mp hrest
  cases hpayload
  cases hpayload'
  cases hfirst
  cases hlast
  cases hnone
  exact hframes

end NetconfWire
