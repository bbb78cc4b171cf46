/-
Calls that wait for a frame.

What comes in is asked for in six ways: by a test of the caller's own, by a
delimiter, a text or a pattern, as a message and as an introduction.  Each of them
either refuses at once, or waits for one boundary and then works on the frame.
Such a plan depends on nothing but the call, the version and whether the session is
closed:

* `Call.plan` — what a call waits for, and what it makes of the frame;
* `Call.task_refused`, `Call.task_planned` — a call does what its plan says, and
  changes nothing else on which later calls depend.
-/
import NetconfWire.Proofs.Tasks

namespace NetconfWire

/-- The outcome of some work, without the state that it leaves. -/
def outcomeOf {ε σ α : Type} : EStateM.Result ε σ α → Except ε α
  | .ok a _ => .ok a
  | .error e _ => .error e

/-- The outcomes of doing some work so many times in a row, and the state left in the end. -/
def attempts {ε σ α : Type} (x : EStateM ε σ α) : Nat → σ → List (Except ε α) × σ
  | 0, s => ([], s)
  | n + 1, s =>
    (outcomeOf (x s) :: (attempts x n (leftBy (x s))).1, (attempts x n (leftBy (x s))).2)

section Outcomes

variable {ε σ α β : Type} (f : α → β) (x : EStateM ε σ α) (s : σ)

theorem outcomeOf_map : outcomeOf ((f <$> x) s) = (outcomeOf (x s)).map f := by
  show outcomeOf (EStateM.map f x s) = _
  rw [EStateM.map]
  cases x s <;> rfl

theorem leftBy_map : leftBy ((f <$> x) s) = leftBy (x s) := by
  show leftBy (EStateM.map f x s) = _
  rw [EStateM.map]
  cases x s <;> rfl

/-- Work whose last part cannot change the state. -/
theorem outcomeOf_bind_ofExcept (g : α → Except ε β) :
    outcomeOf ((x >>= fun a => MonadExcept.ofExcept (g a)) s) = (outcomeOf (x s)).bind g ∧
      leftBy ((x >>= fun a => MonadExcept.ofExcept (g a)) s) = leftBy (x s) := by
  cases hx : x s with
  | error e s' => rw [bind_of_error hx]; exact ⟨rfl, rfl⟩
  | ok a s' =>
    rw [bind_of_ok hx]
    show outcomeOf _ = g a ∧ leftBy _ = s'
    cases g a <;> exact ⟨rfl, rfl⟩

end Outcomes

/-! ### Calls and their plans -/

/-- What a call gives. -/
inductive Answer
  | frame (b : Octets)
  | text (s : String)
  | found (b : Octets) (captures : List (Option Octets))
  | hello (h : Hello)

/-- A call that waits for a frame. -/
inductive Call
  | boundary (test : Boundary Unit)
  | octets (delimiter : Octets)
  | text (s : String) (charset : Charset)
  | pattern (given : Datum)
  | receive
  | receiveHello

/-- What a call does: the test that it waits with, and what it makes of the frame and of what the
test has found. -/
structure Plan where
  Found : Type
  test : Boundary Found
  finish : Octets × Found → Except Fault Answer

/-- Waits for a delimiter and works on what stands before it. -/
def Plan.upTo (delimiter : Octets) (finish : Octets → Except Fault Answer) : Except Fault Plan :=
  match Boundary.checkDelimiter delimiter with
  | .error f => .error f
  | .ok () => .ok ⟨Unit, Boundary.ofDelimiter delimiter, fun found =>
      finish (found.1.take (found.1.length - delimiter.length))⟩

namespace Call

/-- The plan of a call, or the fault with which it refuses. -/
def plan (version : Version) (closed : Bool) : Call → Except Fault Plan
  | boundary test => .ok ⟨Unit, test, fun found => .ok (.frame found.1)⟩
  | octets delimiter => Plan.upTo delimiter fun b => .ok (.frame b)
  | text s charset =>
    match charset.encode s with
    | .error f => .error (.charset f)
    | .ok delimiter => Plan.upTo delimiter fun b =>
        ((charset.decode b).mapError Fault.charset).map .text
  | pattern given =>
    match Line.patternBoundary given with
    | .error f => .error f
    | .ok test => .ok ⟨_, test, fun found => .ok (.found found.1 found.2)⟩
  | receive =>
    if closed then .error .sessionClosed
    else .ok ⟨Unit, Boundary.ofDelimiter version.marker, fun found =>
      (version.unwrap found.1).map .frame⟩
  | receiveHello =>
    if closed then .error .sessionClosed
    else .ok ⟨Unit, Boundary.ofDelimiter version.marker, fun found =>
      ((version.unwrap found.1).bind fun message =>
        Hello.read (.octets .frozen message)).map .hello⟩

variable {κ : Type} [Link κ]

/-- The work of a call. -/
def task : Call → SessionTask κ Answer
  | boundary test => Session.onLine ((fun found => .frame found.1) <$> Line.waitFor test)
  | octets delimiter => Session.onLine (Answer.frame <$> Line.waitForOctets delimiter)
  | text s charset => Session.onLine (Answer.text <$> Line.waitForText s charset)
  | pattern given =>
    Session.onLine ((fun found => .found found.1 found.2) <$> Line.waitForPattern given)
  | receive => Answer.frame <$> Session.receive
  | receiveHello => Answer.hello <$> Session.receiveHello

end Call

/-! ### Calls do what they plan -/

section Planned

variable {κ : Type} [Link κ]

/-- Some work on a session comes to what a plan says, and leaves all else that calls depend on. -/
structure Plan.Describes (p : Plan) (x : SessionTask κ Answer) (s : Session κ) : Prop where
  outcome : outcomeOf (x s) = (outcomeOf (Line.waitFor p.test s.line)).bind p.finish
  line : ∃ notes,
    (leftBy (x s)).line = (leftBy (Line.waitFor p.test s.line)).annotate notes
  version : (leftBy (x s)).version = s.version
  isClosed : (leftBy (x s)).isClosed = s.isClosed

variable {s : Session κ}

omit [Link κ] in
theorem Session.outcomeOf_onLine {α : Type} (x : LineTask κ α) (s : Session κ) :
    outcomeOf (onLine x s) = outcomeOf (x s.line) ∧
      leftBy (onLine x s) = s.withLine (leftBy (x s.line)) := by
  cases hx : x s.line with
  | ok a l => rw [onLine_of_ok hx]; exact ⟨rfl, rfl⟩
  | error f l => rw [onLine_of_error hx]; exact ⟨rfl, rfl⟩

/-- Work on the line of a session needs to be looked at there only. -/
theorem Plan.describes_onLine {p : Plan} {x : LineTask κ Answer}
    (houtcome : outcomeOf (x s.line) = (outcomeOf (Line.waitFor p.test s.line)).bind p.finish)
    (hleft : leftBy (x s.line) = leftBy (Line.waitFor p.test s.line)) :
    p.Describes (Session.onLine x) s := by
  obtain ⟨hout, hline⟩ := Session.outcomeOf_onLine x s
  refine ⟨hout.trans houtcome, ⟨[], ?_⟩, by rw [hline]; rfl, by rw [hline]; rfl⟩
  rw [hline, hleft]
  rfl

namespace Line

theorem waitForOctets_outcome {delimiter : Octets} (hd : delimiter ≠ []) (l : Line κ) :
    outcomeOf (waitForOctets delimiter l)
        = (outcomeOf (waitFor (Boundary.ofDelimiter delimiter) l)).map
          (fun found => found.1.take (found.1.length - delimiter.length)) ∧
      leftBy (waitForOctets delimiter l)
        = leftBy (waitFor (Boundary.ofDelimiter delimiter) l) := by
  rw [waitForOctets_eq hd]
  cases waitFor (Boundary.ofDelimiter delimiter) l <;> exact ⟨rfl, rfl⟩

theorem waitForText_of_encode {text : String} {charset : Charset} {delimiter : Octets}
    (h : charset.encode text = .ok delimiter) (l : Line κ) :
    waitForText text charset l
      = (waitForOctets delimiter >>= fun frame =>
          MonadExcept.ofExcept ((charset.decode frame).mapError Fault.charset) : LineTask κ String)
        l := by
  rw [waitForText, h]
  exact bind_of_ok (ofExcept_ok delimiter)

theorem waitForPattern_of_boundary {given : Datum} {test : Boundary (List (Option Octets))}
    (h : patternBoundary given = .ok test) (l : Line κ) :
    waitForPattern given l = waitFor test l := by
  rw [waitForPattern, h]
  exact bind_of_ok (ofExcept_ok test)

theorem waitForText_of_unencodable {text : String} {charset : Charset} {f : CharsetFault}
    (h : charset.encode text = .error f) (l : Line κ) :
    waitForText text charset l = .error (.charset f) l := by
  rw [waitForText, h]
  rfl

end Line

/-- Waiting for a delimiter is refused only if it has no octets. -/
theorem Plan.upTo_eq (delimiter : Octets) (finish : Octets → Except Fault Answer) :
    Plan.upTo delimiter finish
      = if delimiter = [] then .error .delimiterEmpty
        else .ok ⟨Unit, Boundary.ofDelimiter delimiter, fun found =>
          finish (found.1.take (found.1.length - delimiter.length))⟩ := by
  cases delimiter <;> rfl

theorem Plan.upTo_describes {delimiter : Octets} {finish : Octets → Except Fault Answer} {p : Plan}
    {x : LineTask κ Answer} (h : Plan.upTo delimiter finish = .ok p)
    (houtcome : outcomeOf (x s.line)
      = (outcomeOf (Line.waitForOctets delimiter s.line)).bind finish)
    (hleft : leftBy (x s.line) = leftBy (Line.waitForOctets delimiter s.line)) :
    p.Describes (Session.onLine x) s := by
  rw [Plan.upTo_eq] at h
  by_cases hd : delimiter = []
  · rw [if_pos hd] at h
    cases h
  · rw [if_neg hd] at h
    cases h
    obtain ⟨hout, hline⟩ := Line.waitForOctets_outcome hd s.line
    refine Plan.describes_onLine (houtcome.trans ?_) (hleft.trans hline)
    rw [hout]
    cases outcomeOf (Line.waitFor (Boundary.ofDelimiter delimiter) s.line) <;> rfl

/-- An open session waits for the marker of its version, and unwraps the frame. -/
theorem Session.receive_describes (hopen : s.isClosed = false) :
    outcomeOf (receive s)
        = (outcomeOf (Line.waitFor (Boundary.ofDelimiter s.version.marker) s.line)).bind
          (fun found => s.version.unwrap found.1) ∧
      ∃ notes, leftBy (receive s) = s.withLine
        ((leftBy (Line.waitFor (Boundary.ofDelimiter s.version.marker) s.line)).annotate
          notes) := by
  obtain ⟨notes, hreceive⟩ := receive_eq hopen
  rw [hreceive]
  cases Line.waitFor (Boundary.ofDelimiter s.version.marker) s.line with
  | error f l => exact ⟨rfl, [], rfl⟩
  | ok found l =>
    cases hunwrap : s.version.unwrap found.1 with
    | error f =>
      simp only [hunwrap]
      exact ⟨hunwrap.symm, [], rfl⟩
    | ok message =>
      simp only [hunwrap]
      exact ⟨hunwrap.symm, notes, rfl⟩

omit [Link κ] in
theorem Phase.afterHello_isClosed (p : Phase) (sent received : Bool) :
    (p.afterHello sent received == .closed) = (p == .closed) := by
  cases p <;> cases sent <;> cases received <;> rfl

/-- What is left after an introduction was read differs in nothing on which calls depend. -/
theorem Session.receiveHello_describes (hopen : s.isClosed = false) :
    outcomeOf (receiveHello s)
        = (outcomeOf (Line.waitFor (Boundary.ofDelimiter s.version.marker) s.line)).bind
          (fun found => (s.version.unwrap found.1).bind fun message =>
            Hello.read (.octets .frozen message)) ∧
      (∃ notes, (leftBy (receiveHello s)).line
        = (leftBy (Line.waitFor (Boundary.ofDelimiter s.version.marker) s.line)).annotate notes) ∧
      (leftBy (receiveHello s)).version = s.version ∧
      (leftBy (receiveHello s)).isClosed = s.isClosed := by
  obtain ⟨hout, notes, hleft⟩ := receive_describes hopen
  -- what `receive` comes to is what the wait and the unwrapping come to
  have hassoc : ∀ r : Except Fault (Octets × Unit),
      r.bind (fun found => (s.version.unwrap found.1).bind fun message =>
          Hello.read (.octets .frozen message))
        = (r.bind fun found => s.version.unwrap found.1).bind fun message =>
          Hello.read (.octets .frozen message) := by
    intro r
    cases r <;> rfl
  rw [hassoc, ← hout, receiveHello_eq]
  cases hr : receive s with
  | error f s' =>
    rw [hr] at hleft
    subst hleft
    exact ⟨rfl, ⟨notes, rfl⟩, rfl, rfl⟩
  | ok message s' =>
    rw [hr] at hleft
    subst hleft
    show outcomeOf _ = Hello.read (.octets .frozen message) ∧ _
    dsimp only
    cases hread : Hello.read (.octets .frozen message) with
    | error f => exact ⟨rfl, ⟨notes, rfl⟩, rfl, rfl⟩
    | ok h =>
      -- the phase may change, but neither to nor from the last one
      exact ⟨rfl, ⟨notes, rfl⟩, rfl, Phase.afterHello_isClosed _ _ _⟩

namespace Call

/-- A call that refuses leaves the session as it was. -/
theorem task_refused {c : Call} {f : Fault} (h : c.plan s.version s.isClosed = .error f) :
    c.task s = .error f s := by
  cases c with
  | boundary test => cases h
  | octets delimiter =>
    rw [plan, Plan.upTo_eq] at h
    split at h
    · next hd => cases h; rw [hd]; rfl
    · cases h
  | text text charset =>
    rw [plan] at h
    have htask : ∀ {g : Fault}, Line.waitForText text charset s.line = .error g s.line →
        task (.text text charset) s = .error g s := by
      intro g hg
      refine Session.onLine_of_error (l := s.line) ?_
      show EStateM.map _ _ _ = _
      rw [EStateM.map, hg]
    cases hencode : charset.encode text with
    | error why =>
      rw [hencode] at h
      cases h
      exact htask (Line.waitForText_of_unencodable hencode s.line)
    | ok delimiter =>
      simp only [hencode, Plan.upTo_eq] at h
      split at h
      · next hd =>
        cases h
        refine htask ?_
        rw [Line.waitForText_of_encode hencode, hd]
        rfl
      · cases h
  | pattern given =>
    rw [plan] at h
    cases hgiven : Line.patternBoundary given with
    | error why =>
      rw [hgiven] at h
      cases h
      refine Session.onLine_of_error (l := s.line) ?_
      rw [Line.waitForPattern, hgiven]
      rfl
    | ok test => simp only [hgiven] at h; cases h
  | receive =>
    rw [plan] at h
    split at h
    · next hclosed =>
      cases h
      show (Answer.frame <$> Session.receive) s = _
      show EStateM.map _ _ _ = _
      rw [EStateM.map, Session.receive_of_closed hclosed]
    · cases h
  | receiveHello =>
    rw [plan] at h
    split at h
    · next hclosed =>
      cases h
      show EStateM.map _ _ _ = _
      rw [EStateM.map, Session.receiveHello_of_closed hclosed]
    · cases h

/-- Every other call does what it plans. -/
theorem task_planned {c : Call} {p : Plan} (h : c.plan s.version s.isClosed = .ok p) :
    p.Describes c.task s := by
  cases c with
  | boundary test =>
    cases h
    refine Plan.describes_onLine ?_ (leftBy_map _ _ _)
    rw [outcomeOf_map]
    cases outcomeOf (Line.waitFor test s.line) <;> rfl
  | octets delimiter =>
    rw [plan] at h
    refine Plan.upTo_describes h ?_ (leftBy_map _ _ _)
    rw [outcomeOf_map]
    cases outcomeOf (Line.waitForOctets delimiter s.line) <;> rfl
  | text text charset =>
    rw [plan] at h
    cases hencode : charset.encode text with
    | error why => rw [hencode] at h; cases h
    | ok delimiter =>
      simp only [hencode] at h
      obtain ⟨hout, hleft⟩ := outcomeOf_bind_ofExcept (Line.waitForOctets delimiter) s.line
        fun frame => (charset.decode frame).mapError Fault.charset
      refine Plan.upTo_describes h ?_ ?_
      · rw [outcomeOf_map, Line.waitForText_of_encode hencode, hout]
        cases outcomeOf (Line.waitForOctets delimiter s.line) <;> rfl
      · rw [leftBy_map, Line.waitForText_of_encode hencode, hleft]
  | pattern given =>
    rw [plan] at h
    cases hgiven : Line.patternBoundary given with
    | error why => rw [hgiven] at h; cases h
    | ok test =>
      simp only [hgiven] at h
      cases h
      have hwait := Line.waitForPattern_of_boundary hgiven s.line
      refine Plan.describes_onLine ?_ ?_
      · rw [outcomeOf_map, hwait]
        cases outcomeOf (Line.waitFor test s.line) <;> rfl
      · rw [leftBy_map, hwait]
  | receive =>
    rw [plan] at h
    split at h
    · cases h
    · next hopen =>
      cases h
      obtain ⟨hout, notes, hleft⟩ := Session.receive_describes (Bool.eq_false_iff.mpr hopen)
      refine ⟨?_, ⟨notes, ?_⟩, ?_, ?_⟩
      · rw [task, outcomeOf_map, hout]
        cases outcomeOf (Line.waitFor (Boundary.ofDelimiter s.version.marker) s.line) <;> rfl
      all_goals
        rw [task, leftBy_map, hleft]
        rfl
  | receiveHello =>
    rw [plan] at h
    split at h
    · cases h
    · next hopen =>
      cases h
      obtain ⟨hout, ⟨notes, hline⟩, hversion, hclosed⟩ :=
        Session.receiveHello_describes (Bool.eq_false_iff.mpr hopen)
      refine ⟨?_, ⟨notes, ?_⟩, ?_, ?_⟩
      · rw [task, outcomeOf_map, hout]
        cases outcomeOf (Line.waitFor (Boundary.ofDelimiter s.version.marker) s.line) <;> rfl
      · rw [task, leftBy_map, hline]
      · rw [task, leftBy_map, hversion]
      · rw [task, leftBy_map, hclosed]

end Call

end Planned

end NetconfWire
