/-
Histories of sessions, and the calls that their links see.

A trace on a link keeps the calls to it and how each of them came out, the failing ones
included.  A history is a run that is told step by step: a step is an operation and the
session on which it was done, and the end of a block is a step like any other.

* `History.follows` — the steps of a history follow one another, those inside of blocks
  included;
* `Operation.link_keeps` — every operation but closing makes calls to receive and to send
  only;
* `Operation.isClosed_leaves_iff`, `Operation.leaves_of_closed` — only closing closes a
  session, and no operation on a closed session calls its link.
-/
import NetconfWire.Proofs.Standing

namespace NetconfWire

/-! ### Links with a trace -/

/-- A call to a link, and how it came out. -/
inductive LinkEvent
  | received (size : Int) (outcome : Except LinkFault Octets)
  | sent (b : Octets) (outcome : Except LinkFault Unit)
  | closed (outcome : Except LinkFault Unit)

/-- A link, and the calls to it so far. -/
structure Traced (κ : Type) where
  link : κ
  trace : List LinkEvent

namespace Traced

/-- A link to which no call was made yet. -/
def of {κ : Type} (link : κ) : Traced κ :=
  ⟨link, []⟩

instance {κ : Type} [Link κ] : Link (Traced κ) where
  receive size t := ((Link.receive size t.link).1,
    ⟨(Link.receive size t.link).2, t.trace ++ [.received size (Link.receive size t.link).1]⟩)
  send b t := ((Link.send b t.link).1,
    ⟨(Link.send b t.link).2, t.trace ++ [.sent b (Link.send b t.link).1]⟩)
  close t := ((Link.close t.link).1,
    ⟨(Link.close t.link).2, t.trace ++ [.closed (Link.close t.link).1]⟩)

end Traced

variable {κ : Type} [Link κ]

/-! ### What operations come to -/

namespace Session

/-- Sending an introduction is sending its document, unless there is none. -/
theorem sendHello_cases (hello : Option Hello) (s : Session κ) :
    (∃ f, sendHello hello s = .error f s) ∨
    ∃ document, (hello.getD (Hello.ofParts s.capabilities .null)).write = .ok document ∧
      outcomeOf (sendHello hello s) = outcomeOf (send (.octets .frozen document) s) ∧
      (leftBy (sendHello hello s)).line = (leftBy (send (.octets .frozen document) s)).line := by
  by_cases hclosed : s.isClosed = true
  · exact .inl ⟨_, sendHello_of_closed hello hclosed⟩
  rw [sendHello_eq hello (Bool.eq_false_iff.mpr hclosed)]
  cases (hello.getD (Hello.ofParts s.capabilities .null)).write with
  | error f => exact .inl ⟨f, rfl⟩
  | ok document =>
    refine .inr ⟨document, rfl, ?_⟩
    dsimp only
    cases send (.octets .frozen document) s <;> exact ⟨rfl, rfl⟩

/-- An introduction is read after its message has been received. -/
theorem receiveHello_line (s : Session κ) :
    (leftBy (receiveHello s)).line = (leftBy (receive s)).line := by
  rw [receiveHello_eq]
  cases receive s with
  | error f s' => rfl
  | ok message s' =>
    dsimp only
    cases Hello.read (.octets .frozen message) <;> rfl

/-- Closing a session leaves its window alone, and closes its link if the session was open. -/
theorem close_line (s : Session κ) :
    (leftBy (close s)).line.window = s.line.window ∧
      (leftBy (close s)).line.link
        = if s.isClosed then s.line.link else (Link.close s.line.link).2 := by
  by_cases h : s.isClosed = true
  · rw [close_of_closed h, if_pos h]
    exact ⟨rfl, rfl⟩
  · rw [close_of_open (Bool.eq_false_iff.mpr h), if_neg h]
    split
    · next hclose => exact ⟨rfl, by rw [hclose]; rfl⟩
    · next hclose => exact ⟨rfl, by rw [hclose]; rfl⟩

end Session

namespace Operation

/-- How an operation comes out, without what it gives. -/
def outcome (s : Session κ) : Operation → Except Fault Unit
  | send payload => outcomeOf (Session.send payload s)
  | receive => (outcomeOf (Session.receive s)).map fun _ => ()
  | sendHello hello => outcomeOf (Session.sendHello hello s)
  | receiveHello => (outcomeOf (Session.receiveHello s)).map fun _ => ()
  | setVersion given => outcomeOf (Session.setVersion given s)
  | close => outcomeOf (Session.close s)

/-- What an operation is to send, if it sends at all. -/
def payload? (s : Session κ) : Operation → Option (Except Fault Datum)
  | send payload => some (.ok payload)
  | sendHello hello =>
    some ((hello.getD (Hello.ofParts s.capabilities .null)).write.map (.octets .frozen))
  | _ => none

/-- The operation moves a message from a session to its peer, or back. -/
def movesMessage : Operation → Bool
  | send _ | receive | sendHello _ | receiveHello => true
  | setVersion _ | close => false

variable {s : Session κ} {op : Operation}

/-- An operation that sends fails at once, or does with the line what sending its payload does. -/
theorem sends_payload {given : Except Fault Datum} (h : op.payload? s = some given) :
    (∃ f, op.outcome s = .error f ∧ op.leaves s = s) ∨
    ∃ payload, given = .ok payload ∧ op.outcome s = outcomeOf (Session.send payload s) ∧
      (op.leaves s).line = (leftBy (Session.send payload s)).line := by
  cases op with
  | send payload =>
    cases h
    exact .inr ⟨payload, rfl, rfl, rfl⟩
  | sendHello hello =>
    cases h
    rcases Session.sendHello_cases hello s with ⟨f, hf⟩ | ⟨document, hwrite, hout, hline⟩
    · left
      refine ⟨f, ?_, ?_⟩
      · rw [outcome, hf]
        rfl
      · rw [leaves, hf]
        rfl
    · right
      refine ⟨.octets .frozen document, ?_, hout, hline⟩
      rw [hwrite]
      rfl
  | receive => cases h
  | receiveHello => cases h
  | setVersion given => cases h
  | close => cases h

/-- What calls to receive and to send keep of a link, every operation but closing keeps. -/
theorem link_keeps {P : κ → Prop} (hreceive : ∀ size k, P k → P (Link.receive size k).2)
    (hsend : ∀ b k, P k → P (Link.send b k).2) (hop : op ≠ .close) (h : P s.line.link) :
    P (op.leaves s).line.link := by
  have hreceives : P (leftBy (Session.receive s)).line.link := by
    obtain ⟨l, hleft, -, hlink⟩ := Session.receive_keeps s
    rw [hleft]
    exact hlink P hreceive h
  have hsends : ∀ given, op.payload? s = some given → P (op.leaves s).line.link := by
    intro given hgiven
    rcases sends_payload hgiven with ⟨f, -, hleft⟩ | ⟨payload, -, -, hline⟩
    · rwa [hleft]
    · rw [hline]
      have hdispatch := Session.send_dispatch payload s
      generalize Session.send payload s = r at hdispatch ⊢
      cases hdispatch with
      | refused notes hrefused => exact h
      | @passed frame link notes hframe hcall =>
        have hkept := hsend frame s.line.link h
        rwa [hcall] at hkept
      | @failed frame f link notes hframe hcall =>
        have hkept := hsend frame s.line.link h
        rwa [hcall] at hkept
  cases op with
  | send payload => exact hsends _ rfl
  | receive => exact hreceives
  | sendHello hello => exact hsends _ rfl
  | receiveHello =>
    rw [leaves, Session.receiveHello_line]
    exact hreceives
  | setVersion given =>
    rw [leaves, Session.setVersion_eq]
    cases Frame.version given <;> exact h
  | close => exact absurd rfl hop

theorem milestone?_eq_closed_iff : op.milestone? s = some .closed ↔ op = .close := by
  cases op with
  | sendHello hello =>
    rw [milestone?]
    split <;> simp
  | receiveHello =>
    rw [milestone?]
    split <;> simp
  | setVersion given =>
    rw [milestone?]
    split <;> simp
  | send payload => simp [milestone?]
  | receive => simp [milestone?]
  | close => simp [milestone?]

/-- An operation leaves a session closed if it was closed before or is closed now. -/
theorem isClosed_leaves_iff :
    (op.leaves s).isClosed = true ↔ s.isClosed = true ∨ op = .close := by
  have hphase : ∀ r : Session κ, r.isClosed = true ↔ r.standing.phase = .closed := by
    intro r
    simp [Session.isClosed, Session.standing]
  rw [hphase, hphase, op.standing_eq, ← milestone?_eq_closed_iff (s := s)]
  cases op.milestone? s with
  | none => simp
  | some m =>
    cases m with
    | closed => simp [Standing.after]
    | chose version => simp [Standing.after]
    | introduced hello => simp [Standing.after]
    | met hello => simp [Standing.after]

/-- No operation on a closed session calls its link, and those that move messages change nothing at
all. -/
theorem leaves_of_closed (h : s.isClosed = true) :
    (op.leaves s).line.link = s.line.link ∧
      (op.movesMessage = true → op.outcome s = .error .sessionClosed ∧ op.leaves s = s) := by
  cases op with
  | send payload =>
    rw [leaves, outcome, Session.send_of_closed payload h]
    exact ⟨rfl, fun _ => ⟨rfl, rfl⟩⟩
  | receive =>
    rw [leaves, outcome, Session.receive_of_closed h]
    exact ⟨rfl, fun _ => ⟨rfl, rfl⟩⟩
  | sendHello hello =>
    rw [leaves, outcome, Session.sendHello_of_closed hello h]
    exact ⟨rfl, fun _ => ⟨rfl, rfl⟩⟩
  | receiveHello =>
    rw [leaves, outcome, Session.receiveHello_of_closed h]
    exact ⟨rfl, fun _ => ⟨rfl, rfl⟩⟩
  | setVersion given =>
    rw [leaves, Session.setVersion_eq]
    cases Frame.version given <;> exact ⟨rfl, fun hmoves => (by cases hmoves)⟩
  | close =>
    rw [leaves, Session.close_of_closed h]
    exact ⟨rfl, fun hmoves => (by cases hmoves)⟩

end Operation

/-! ### Histories -/

/-- An operation, and the session on which it is done. -/
structure Step (κ : Type) where
  session : Session κ
  operation : Operation

/-- A run has brought one session to another by these steps.  The body of a block is any work that
leaves a session which a run could have left; at the end of the block the session is closed. -/
inductive History : Session κ → List (Step κ) → Session κ → Prop
  | nothing (s : Session κ) : History s [] s
  | operation {s s' : Session κ} {steps : List (Step κ)} (h : History s steps s')
    (op : Operation) : History s (steps ++ [⟨s', op⟩]) (op.leaves s')
  | block {s s' : Session κ} {steps inner : List (Step κ)} {α : Type} (h : History s steps s')
    (body : SessionTask κ α) (hbody : History s' inner (leftBy (body s'))) :
    History s (steps ++ (inner ++ [⟨leftBy (body s'), .close⟩]))
      (leftBy (Session.within body s'))

/-- Each step is done on the session that the one before it has left. -/
def Follows (s : Session κ) : List (Step κ) → Session κ → Prop
  | [], s' => s' = s
  | x :: steps, s' => x.session = s ∧ Follows (x.operation.leaves s) steps s'

section Steps

variable {s s' : Session κ} {steps : List (Step κ)}

theorem follows_append {later : List (Step κ)} :
    Follows s (steps ++ later) s' ↔ ∃ t, Follows s steps t ∧ Follows t later s' := by
  induction steps generalizing s with
  | nil => simp [Follows]
  | cons x steps ih => simp [Follows, ih, and_assoc]

/-- A block is its body and a call to close the session. -/
theorem History.follows (h : History s steps s') : Follows s steps s' := by
  induction h with
  | nothing s => rfl
  | operation h op ih => exact follows_append.mpr ⟨_, ih, rfl, rfl⟩
  | block h body hbody ih ihbody =>
    refine follows_append.mpr ⟨_, ih, follows_append.mpr ⟨_, ihbody, rfl, ?_⟩⟩
    exact Session.leftBy_within body _

/-- Until a session is closed, its link sees calls to receive and to send only. -/
theorem Follows.link_keeps {P : κ → Prop} (hreceive : ∀ size k, P k → P (Link.receive size k).2)
    (hsend : ∀ b k, P k → P (Link.send b k).2) (hfollows : Follows s steps s')
    (hsteps : ∀ x ∈ steps, x.operation ≠ .close) (h : P s.line.link) : P s'.line.link := by
  induction steps generalizing s with
  | nil =>
    obtain rfl := hfollows
    exact h
  | cons x steps ih =>
    have hop := hsteps x List.mem_cons_self
    refine ih hfollows.2 (fun y hy => hsteps y (List.mem_cons_of_mem _ hy)) ?_
    exact Operation.link_keeps hreceive hsend hop h

theorem Follows.isClosed_iff (h : Follows s steps s') :
    s'.isClosed = true ↔ s.isClosed = true ∨ ∃ x ∈ steps, x.operation = .close := by
  induction steps generalizing s with
  | nil =>
    obtain rfl := h
    simp
  | cons x steps ih =>
    rw [ih h.2, Operation.isClosed_leaves_iff]
    simp [or_assoc]

/-- After that the link is left as it is. -/
theorem Follows.link_of_closed (h : Follows s steps s') (hclosed : s.isClosed = true) :
    s'.line.link = s.line.link ∧
      ∀ x ∈ steps, x.session.isClosed = true ∧ x.session.line.link = s.line.link := by
  induction steps generalizing s with
  | nil =>
    obtain rfl := h
    simp
  | cons x steps ih =>
    obtain ⟨hsession, hlater⟩ := h
    have hsame : (x.operation.leaves s).line.link = s.line.link :=
      (Operation.leaves_of_closed hclosed).1
    obtain ⟨hlink, hsteps⟩ := ih hlater (Operation.isClosed_leaves_iff.mpr (.inl hclosed))
    rw [hsame] at hlink hsteps
    refine ⟨hlink, fun y hy => ?_⟩
    rcases List.mem_cons.mp hy with rfl | hy
    · rw [hsession]
      exact ⟨hclosed, rfl⟩
    · exact hsteps y hy

end Steps

end NetconfWire
