/-
Sessions that were closed are silent.

A session closes its link when it is closed for the first time, by a call or at the end of
a block, and whether or not the link can be closed well.  Before that its link sees calls
to receive and to send only, and after that none at all:

* `History.firstClose` — this holds in every history, over every link;
* `Session.silent_of_closed` — what it means for the calls on the trace of a link, and for
  the two ends of a joined link, which are closed by the same call.
-/
import NetconfWire.Link.Rehearsed
import NetconfWire.Proofs.Histories

namespace NetconfWire

/-! ### Links that were not closed -/

def LinkEvent.isClosing : LinkEvent → Bool
  | closed _ => true
  | received _ _ | sent _ _ => false

def JoinedCall.isClosing : JoinedCall → Bool
  | closeWriter | closeReader => true
  | read _ | readAtOnce _ | write _ | flush => false

namespace Traced

variable {κ : Type}

/-- None of the calls so far was to close the link. -/
def NeverClosed (t : Traced κ) : Prop :=
  ∀ event ∈ t.trace, event.isClosing = false

theorem neverClosed_append {t : Traced κ} {link : κ} {event : LinkEvent}
    (h : t.NeverClosed) (hevent : event.isClosing = false) :
    NeverClosed ⟨link, t.trace ++ [event]⟩ := by
  intro e he
  rcases List.mem_append.mp he with he | he
  · exact h e he
  · rwa [List.mem_singleton.mp he]

end Traced

namespace Joined

variable {ρ ω : Type} [Reader ρ] [Writer ω]

/-- Neither of the ends was closed so far. -/
def NeverClosed (j : Joined ρ ω) : Prop :=
  ∀ call ∈ j.calls, call.isClosing = false

theorem neverClosed_receive (size : Int) (j : Joined ρ ω) (h : j.NeverClosed) :
    (Link.receive size j).2.NeverClosed := by
  show (receive size j).2.NeverClosed
  rw [receive]
  split
  · exact List.forall_mem_cons.mpr ⟨rfl, h⟩
  · exact List.forall_mem_cons.mpr ⟨rfl, h⟩

theorem neverClosed_send (b : Octets) (j : Joined ρ ω) (h : j.NeverClosed) :
    (Link.send b j).2.NeverClosed := by
  have hwritten : ∀ call ∈ JoinedCall.write b :: j.calls, call.isClosing = false :=
    List.forall_mem_cons.mpr ⟨rfl, h⟩
  show (send b j).2.NeverClosed
  rw [send]
  split
  · exact hwritten
  · exact List.forall_mem_cons.mpr ⟨rfl, hwritten⟩

end Joined

/-! ### The first close -/

section FirstClose

variable {κ : Type}

/-- Among these steps the one on `t` closes the session, and none before it does. -/
structure FirstClose (steps before : List (Step κ)) (t : Session κ) (after : List (Step κ)) :
    Prop where
  eq : steps = before ++ ⟨t, .close⟩ :: after
  first : ∀ x ∈ before, x.operation ≠ .close

variable [Link κ] {s s' t : Session κ} {steps before after : List (Step κ)}

/-- What calls to receive and to send keep holds of the link up to the first close.  The link is
then closed, and left so. -/
theorem History.firstClose {P : κ → Prop} (hreceive : ∀ size k, P k → P (Link.receive size k).2)
    (hsend : ∀ b k, P k → P (Link.send b k).2) (h : History s steps s')
    (hopen : s.isClosed = false) (hlink : P s.line.link)
    (hfirst : FirstClose steps before t after) :
    P t.line.link ∧ (Operation.close.leaves t).line.link = (Link.close t.line.link).2 ∧
      s'.line.link = (Link.close t.line.link).2 ∧
      ∀ x ∈ after, x.session.isClosed = true ∧
        x.session.line.link = (Link.close t.line.link).2 := by
  obtain ⟨rfl, hbefore⟩ := hfirst
  obtain ⟨-, hearlier, rfl, hlater⟩ := follows_append.mp h.follows
  -- the session is still open when the step is taken
  have htopen : t.isClosed = false := by
    rw [← Bool.not_eq_true, hearlier.isClosed_iff, hopen]
    simpa using hbefore
  have hclosed : (Operation.close.leaves t).isClosed = true :=
    Operation.isClosed_leaves_iff.mpr (.inr rfl)
  have hcall : (Operation.close.leaves t).line.link = (Link.close t.line.link).2 := by
    rw [Operation.leaves, (Session.close_line t).2, htopen]
    rfl
  obtain ⟨hlast, hafter⟩ := hlater.link_of_closed hclosed
  rw [hcall] at hlast hafter
  exact ⟨hearlier.link_keeps hreceive hsend hbefore hlink, hcall, hlast, hafter⟩

end FirstClose

theorem Session.start_open {κ : Type} {link : κ} {capabilities : Option Datum} {size limit : Int}
    {s : Session κ} (h : start link capabilities size limit = .ok s) :
    s.isClosed = false ∧ s.line.link = link := by
  obtain ⟨hlink, -, -, -, -, hphase⟩ := start_eq h
  rw [isClosed, hphase]
  exact ⟨rfl, hlink⟩

/-- **A closed session is silent, and closes its link once.**  In every history the link is closed by
the first call to close the session or the first end of a block, and by nothing else; after that
there is no call to it, and messages are refused with nothing changed.  A joined link closes its
writer and then its reader at that call, each of them once and whatever comes of it. -/
theorem Session.silent_of_closed {κ ρ ω : Type} [Link κ] [Reader ρ] [Writer ω]
    {capabilities : Option Datum} {size limit : Int} :
    (∀ {link : κ} {s₀ s : Session (Traced κ)} {steps : List (Step (Traced κ))},
      start (Traced.of link) capabilities size limit = .ok s₀ → History s₀ steps s →
      ((∀ x ∈ steps, x.operation ≠ .close) → s.line.link.NeverClosed) ∧
      ∀ {before t after}, FirstClose steps before t after →
        t.line.link.NeverClosed ∧ ∃ outcome,
          (Operation.close.leaves t).line.link.trace
            = t.line.link.trace ++ [.closed outcome] ∧
          s.line.link.trace = t.line.link.trace ++ [.closed outcome] ∧
          ∀ x ∈ after, x.session.line.link.trace = t.line.link.trace ++ [.closed outcome] ∧
            (x.operation.movesMessage = true →
              x.operation.outcome x.session = .error .sessionClosed ∧
              x.operation.leaves x.session = x.session)) ∧
    ∀ {reader : ρ} {writer : ω} {s₀ s : Session (Joined ρ ω)} {steps : List (Step (Joined ρ ω))},
      start (Joined.of reader writer) capabilities size limit = .ok s₀ → History s₀ steps s →
      ((∀ x ∈ steps, x.operation ≠ .close) → s.line.link.NeverClosed) ∧
      ∀ {before t after}, FirstClose steps before t after →
        t.line.link.NeverClosed ∧
        s.line.link.calls = .closeReader :: .closeWriter :: t.line.link.calls ∧
        s.line.link.writer = (Writer.close t.line.link.writer).2 ∧
        s.line.link.reader = (Reader.close t.line.link.reader).2 ∧
        ∀ x ∈ after, x.session.line.link.calls = s.line.link.calls := by
  constructor
  · intro link s₀ s steps hstart h
    have hreceive : ∀ size (k : Traced κ), k.NeverClosed → (Link.receive size k).2.NeverClosed :=
      fun size k hk => Traced.neverClosed_append hk rfl
    have hsend : ∀ b (k : Traced κ), k.NeverClosed → (Link.send b k).2.NeverClosed :=
      fun b k hk => Traced.neverClosed_append hk rfl
    obtain ⟨hopen, hlink⟩ := start_open hstart
    have hnever : s₀.line.link.NeverClosed := by
      rw [hlink]
      exact List.forall_mem_nil _
    refine ⟨fun hsteps => h.follows.link_keeps hreceive hsend hsteps hnever, ?_⟩
    intro before t after hfirst
    obtain ⟨ht, hcall, hlast, hafter⟩ := h.firstClose hreceive hsend hopen hnever hfirst
    refine ⟨ht, (Link.close t.line.link.link).1, ?_, ?_, fun x hx => ?_⟩
    · rw [hcall]
      rfl
    · rw [hlast]
      rfl
    · obtain ⟨hclosed, hsame⟩ := hafter x hx
      rw [hsame]
      exact ⟨rfl, (Operation.leaves_of_closed hclosed).2⟩
  · intro reader writer s₀ s steps hstart h
    obtain ⟨hopen, hlink⟩ := start_open hstart
    have hnever : s₀.line.link.NeverClosed := by
      rw [hlink]
      exact List.forall_mem_nil _
    refine ⟨fun hsteps => h.follows.link_keeps Joined.neverClosed_receive Joined.neverClosed_send
      hsteps hnever, ?_⟩
    intro before t after hfirst
    obtain ⟨ht, -, hlast, hafter⟩ :=
      h.firstClose Joined.neverClosed_receive Joined.neverClosed_send hopen hnever hfirst
    rw [hlast]
    refine ⟨ht, rfl, rfl, rfl, fun x hx => ?_⟩
    rw [(hafter x hx).2]

/-- A session sends a message, is closed at the end of a block that fails, and is asked to receive;
another one is closed twice, over ends of which the writer cannot be closed well. -/
theorem Session.silent_of_closed_twice :
    (∃ (s₀ s : Session (Traced Script)) (steps : List (Step (Traced Script))),
      start (Traced.of (Script.fresh [] false [] (some Script.closedFault))) none
        Window.defaultSize Window.defaultLimit = .ok s₀ ∧
      History s₀ steps s ∧ steps.map Step.operation
        = [.send (.octets .frozen [0x61]), .send .null, .close, .receive] ∧
      ∃ outcome, s.line.link.trace
        = [.sent (Frame.delimited [0x61]) (.ok ()), .closed outcome]) ∧
    ∃ (s₀ s : Session (Joined RehearsedReader RehearsedWriter))
        (steps : List (Step (Joined RehearsedReader RehearsedWriter))),
      start (Joined.of ⟨[], false, none, none, none⟩ ⟨none, none, some pipeClosedFault⟩) none
        Window.defaultSize Window.defaultLimit = .ok s₀ ∧
      History s₀ steps s ∧ steps.map Step.operation = [.close, .close] ∧
      s.line.link.calls = [.closeReader, .closeWriter] := by
  obtain ⟨hsilent, hjoined⟩ := @silent_of_closed Script RehearsedReader RehearsedWriter _ _ _ none
    Window.defaultSize Window.defaultLimit
  constructor
  · obtain ⟨s₀, hstart⟩ : ∃ s₀, start (Traced.of (Script.fresh [] false []
        (some Script.closedFault))) none Window.defaultSize Window.defaultLimit = .ok s₀ :=
      ⟨_, rfl⟩
    let s₁ := (Operation.send (.octets .frozen [0x61])).leaves s₀
    have hsent := (History.nothing s₀).operation (.send (.octets .frozen [0x61]))
    have hblock := hsent.block (send .null) ((History.nothing s₁).operation (.send .null))
    have hrun := hblock.operation .receive
    have hfirst : FirstClose [⟨s₀, .send (.octets .frozen [0x61])⟩, ⟨s₁, .send .null⟩,
          ⟨leftBy (send .null s₁), .close⟩, ⟨leftBy (within (send .null) s₁), .receive⟩]
        [⟨s₀, .send (.octets .frozen [0x61])⟩, ⟨s₁, .send .null⟩] (leftBy (send .null s₁))
        [⟨leftBy (within (send .null) s₁), .receive⟩] := ⟨rfl, by simp⟩
    obtain ⟨-, outcome, -, htrace, -⟩ := (hsilent hstart hrun).2 hfirst
    cases hstart
    exact ⟨_, _, _, rfl, hrun, rfl, outcome, htrace⟩
  · obtain ⟨s₀, hstart⟩ : ∃ s₀ : Session (Joined RehearsedReader RehearsedWriter),
        start (Joined.of ⟨[], false, none, none, none⟩ ⟨none, none, some pipeClosedFault⟩) none
          Window.defaultSize Window.defaultLimit = .ok s₀ := ⟨_, rfl⟩
    have hrun := ((History.nothing s₀).operation .close).operation .close
    have hfirst : FirstClose [⟨s₀, .close⟩, ⟨Operation.close.leaves s₀, .close⟩] [] s₀
        [⟨Operation.close.leaves s₀, .close⟩] := ⟨rfl, by simp⟩
    obtain ⟨-, hcalls, -⟩ := (hjoined hstart hrun).2 hfirst
    cases hstart
    exact ⟨_, _, _, rfl, hrun, rfl, hcalls⟩

end NetconfWire
