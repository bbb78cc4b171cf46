/-
Octets that came in are accounted for.

A tap on a link keeps what its reads give.  At every point of every run of calls,
this is what the calls have cut off as frames, one after another, followed by what
the window holds:

* `Line.LastLook` — what a wait comes to is decided by its last look, at the octets
  held before and those read meanwhile;
* `Call.cut?_eq_some_iff` — a call cuts off a frame exactly if its test reports
  where the frame ends, whatever becomes of the frame afterwards;
* `Ledger.run_accounts` — the accounts of a whole run, over any link.
-/
import NetconfWire.Proofs.Calls

namespace NetconfWire

/-! ### Links with a tap -/

/-- A link, and what its reads have given so far. -/
structure Tapped (κ : Type) where
  link : κ
  given : Octets

namespace Tapped

variable {κ : Type} [Link κ]

def receive (size : Int) (t : Tapped κ) : Except LinkFault Octets × Tapped κ :=
  match Link.receive size t.link with
  | (.ok b, link) => (.ok b, ⟨link, t.given ++ b⟩)
  | (.error f, link) => (.error f, ⟨link, t.given⟩)

instance : Link (Tapped κ) where
  receive := receive
  send b t := ((Link.send b t.link).1, { t with link := (Link.send b t.link).2 })
  close t := ((Link.close t.link).1, { t with link := (Link.close t.link).2 })

variable {size : Int} {t t' : Tapped κ}

theorem given_of_receive_ok {b : Octets} (h : Link.receive size t = (.ok b, t')) :
    t'.given = t.given ++ b := by
  change receive size t = _ at h
  rw [receive] at h
  split at h <;> cases h
  rfl

theorem given_of_receive_error {f : LinkFault} (h : Link.receive size t = (.error f, t')) :
    t'.given = t.given := by
  change receive size t = _ at h
  rw [receive] at h
  split at h <;> cases h
  rfl

end Tapped

/-- The session with a tap on its link, which has given nothing yet. -/
def Session.tapped {κ : Type} (s : Session κ) : Session (Tapped κ) :=
  { s with line := { s.line with link := ⟨s.line.link, []⟩ } }

/-! ### The last look of a wait -/

namespace Line

variable {κ α : Type}

/-- What a wait comes to, and what is held after it, once the octets `seen` have been looked at for
the last time, of which `last` had been searched. -/
inductive LastLook (test : Boundary α) (seen : Octets) (last : Nat) :
    Except Fault (Octets × α) → Octets → Prop
  | refused {f : Fault} (h : test seen last = .error f) : LastLook test seen last (.error f) seen
  | found {stop : Int} {found : α} (h : test seen last = .ok (some (stop, found))) :
    LastLook test seen last (.ok (seen.take (seen.placeOf stop), found))
      (seen.drop (seen.placeOf stop))
  | tooLarge (limit : Nat) (h : test seen last = .ok none) :
    LastLook test seen last (.error (.frameTooLarge seen.length limit)) seen
  | ended (h : test seen last = .ok none) :
    LastLook test seen last (.error (.frameIncomplete seen.length)) seen
  | failed (f : LinkFault) (h : test seen last = .ok none) :
    LastLook test seen last (.error f.fault) seen

namespace LastLook

variable {test : Boundary α} {seen held frame : Octets} {last : Nat}
  {outcome : Except Fault (Octets × α)}

/-- A frame comes of a report only. -/
theorem frame_iff (h : LastLook test seen last outcome held) :
    outcome.toOption.map Prod.fst = some frame ↔
      ∃ stop found, test seen last = .ok (some (stop, found)) ∧
        frame = seen.take (seen.placeOf stop) := by
  cases h with
  | @found stop found h =>
    constructor
    · intro hframe
      cases hframe
      exact ⟨stop, found, h, rfl⟩
    · rintro ⟨stop', found', h', rfl⟩
      rw [h] at h'
      cases h'
      rfl
  | refused h => simp [Except.toOption, h]
  | tooLarge limit h => simp [Except.toOption, h]
  | ended h => simp [Except.toOption, h]
  | failed f h => simp [Except.toOption, h]

/-- What was seen is the frame, if there is one, and what is still held. -/
theorem append_held (h : LastLook test seen last outcome held) :
    (outcome.toOption.map Prod.fst).toList.flatten ++ held = seen := by
  cases h with
  | @found stop found h =>
    show List.flatten [_] ++ _ = _
    rw [List.flatten_singleton]
    exact List.take_append_drop _ _
  | refused h => rfl
  | tooLarge limit h => rfl
  | ended h => rfl
  | failed f h => rfl

/-- A frame that was found by its delimiter ends with it. -/
theorem delimiter_suffix {delimiter : Octets}
    (h : LastLook (Boundary.ofDelimiter delimiter) seen last (.ok (frame, ())) held) :
    delimiter <:+ frame := by
  obtain ⟨stop, found, hreport, rfl⟩ := h.frame_iff.mp rfl
  by_cases hd : delimiter = []
  · rw [hd]
    exact List.nil_suffix
  · obtain ⟨k, rfl, hstands⟩ := Octets.standsAt_of_report hreport
    have hle := hstands.le_length hd
    rw [Octets.placeOf, if_neg (by omega), Int.toNat_natCast, Nat.min_eq_left hle,
      hstands.take_add]
    exact List.suffix_append _ _

end LastLook

/-- A wait has come from one line to another by reading, and ended with its last look. -/
structure Ends (test : Boundary α) (l : Line (Tapped κ)) (outcome : Except Fault (Octets × α))
    (l' : Line (Tapped κ)) (read : Octets) (last : Nat) : Prop where
  given : l'.link.given = l.link.given ++ read
  looks : l'.looks.head? = some ⟨(l.window.held ++ read).length, last⟩
  lastLook : LastLook test (l.window.held ++ read) last outcome l'.window.held

variable [Link κ]

theorem waitFrom_ends (test : Boundary α) (searched : Nat) (l : Line (Tapped κ)) :
    ∃ read last, Ends test l (outcomeOf (waitFrom test searched l))
      (leftBy (waitFrom test searched l)) read last := by
  fun_induction waitFrom test searched l with
  | case1 searched l f h =>
    refine ⟨[], searched, (List.append_nil _).symm, ?_, ?_⟩ <;> rw [List.append_nil]
    · rfl
    · exact .refused h
  | case2 searched l stop found h frame window hcut =>
    refine ⟨[], searched, (List.append_nil _).symm, ?_, ?_⟩ <;> rw [List.append_nil]
    · rfl
    · cases hcut
      exact .found h
  | case3 searched l h n hlimit =>
    refine ⟨[], searched, (List.append_nil _).symm, ?_, ?_⟩ <;> rw [List.append_nil]
    · rfl
    · exact .tooLarge _ h
  | case4 searched l h n hlimit f link hread =>
    refine ⟨[], searched, ?_, ?_, ?_⟩ <;> rw [List.append_nil]
    · exact Tapped.given_of_receive_error hread
    · rfl
    · exact .failed f h
  | case5 searched l h n hlimit link hread =>
    refine ⟨[], searched, Tapped.given_of_receive_ok hread, ?_, ?_⟩ <;> rw [List.append_nil]
    · rfl
    · exact .ended h
  | case6 searched l h n hlimit x rest link hread ih =>
    -- what was read before the next look is held at it
    obtain ⟨read, last, hgiven, hlooks, hlook⟩ := ih
    have hheld : l.window.held ++ (x :: rest ++ read)
        = ((l.look searched).take link (x :: rest)).window.held ++ read :=
      (List.append_assoc _ _ _).symm
    refine ⟨x :: rest ++ read, last, ?_, by rw [hheld]; exact hlooks, by rw [hheld]; exact hlook⟩
    rw [hgiven, ← List.append_assoc, ← Tapped.given_of_receive_ok hread]
    rfl

theorem waitFor_ends (test : Boundary α) (l : Line (Tapped κ)) :
    ∃ read last, Ends test l (outcomeOf (waitFor test l)) (leftBy (waitFor test l)) read last := by
  obtain ⟨read, last, hgiven, hlooks, hlook⟩ := waitFrom_ends test 0 { l with looks := [] }
  exact ⟨read, last, hgiven, hlooks, hlook⟩

end Line

/-! ### What a call cuts off -/

namespace Call

variable {κ : Type} [Link κ]

/-- The frame that a call cuts off what comes in, if there is one. -/
def cut? (c : Call) (s : Session κ) : Option Octets :=
  match c.plan s.version s.isClosed with
  | .error _ => none
  | .ok p => (outcomeOf (Line.waitFor p.test s.line)).toOption.map Prod.fst

/-- The test of a call reports, at its last look, where a frame ends.  It looks at what was held
before the call and at what was read during it. -/
def Reports (c : Call) (s : Session (Tapped κ)) (frame : Octets) : Prop :=
  ∃ p, c.plan s.version s.isClosed = .ok p ∧ ∃ read last stop found,
    (leftBy (c.task s)).line.link.given = s.line.link.given ++ read ∧
    (leftBy (c.task s)).line.looks.head? = some ⟨(s.line.window.held ++ read).length, last⟩ ∧
    p.test (s.line.window.held ++ read) last = .ok (some (stop, found)) ∧
    frame = (s.line.window.held ++ read).take ((s.line.window.held ++ read).placeOf stop)

variable {c : Call} {s : Session (Tapped κ)} {p : Plan}

theorem cut?_refused {f : Fault} (h : c.plan s.version s.isClosed = .error f) :
    c.cut? s = none := by
  rw [cut?, h]

theorem cut?_planned (h : c.plan s.version s.isClosed = .ok p) :
    c.cut? s = (outcomeOf (Line.waitFor p.test s.line)).toOption.map Prod.fst := by
  rw [cut?, h]

theorem task_ends (h : c.plan s.version s.isClosed = .ok p) :
    ∃ read last, Line.Ends p.test s.line (outcomeOf (Line.waitFor p.test s.line))
      (leftBy (c.task s)).line read last := by
  obtain ⟨read, last, hgiven, hlooks, hlook⟩ := Line.waitFor_ends p.test s.line
  obtain ⟨notes, hline⟩ := (task_planned h).line
  rw [hline]
  exact ⟨read, last, hgiven, hlooks, hlook⟩

/-- A call cuts off a frame exactly if its test reports that one ends. -/
theorem cut?_eq_some_iff {frame : Octets} : c.cut? s = some frame ↔ c.Reports s frame := by
  constructor
  · intro hcut
    cases hplan : c.plan s.version s.isClosed with
    | error f =>
      rw [cut?_refused hplan] at hcut
      cases hcut
    | ok p =>
      obtain ⟨read, last, hgiven, hlooks, hlook⟩ := task_ends hplan
      rw [cut?_planned hplan] at hcut
      obtain ⟨stop, found, hreport, hframe⟩ := hlook.frame_iff.mp hcut
      exact ⟨p, hplan, read, last, stop, found, hgiven, hlooks, hreport, hframe⟩
  · rintro ⟨p, hplan, read, last, stop, found, hgiven, hlooks, hreport, hframe⟩
    obtain ⟨read', last', hgiven', hlooks', hlook⟩ := task_ends hplan
    -- the report was made at the last look, since that one is recorded
    have hread : read = read' := List.append_cancel_left (hgiven.symm.trans hgiven')
    subst hread
    rw [hlooks] at hlooks'
    cases hlooks'
    rw [cut?_planned hplan]
    exact hlook.frame_iff.mpr ⟨stop, found, hreport, hframe⟩

/-- What was held and what was read are the frame cut off and what is held afterwards. -/
theorem task_accounts (c : Call) (s : Session (Tapped κ)) :
    ∃ read, (leftBy (c.task s)).line.link.given = s.line.link.given ++ read ∧
      s.line.window.held ++ read
        = (c.cut? s).toList.flatten ++ (leftBy (c.task s)).line.window.held := by
  cases hplan : c.plan s.version s.isClosed with
  | error f =>
    rw [task_refused hplan, cut?_refused hplan]
    exact ⟨[], (List.append_nil _).symm, List.append_nil _⟩
  | ok p =>
    obtain ⟨read, last, hgiven, -, hlook⟩ := task_ends hplan
    rw [cut?_planned hplan]
    exact ⟨read, hgiven, hlook.append_held.symm⟩

/-- A call that gives what stands before a delimiter has cut off that and the delimiter. -/
theorem cut?_upTo {delimiter payload : Octets}
    (h : c.plan s.version s.isClosed = .ok ⟨Unit, Boundary.ofDelimiter delimiter, fun found =>
      .ok (.frame (found.1.take (found.1.length - delimiter.length)))⟩) :
    outcomeOf (c.task s) = .ok (.frame payload) ↔ c.cut? s = some (payload ++ delimiter) := by
  obtain ⟨read, last, -, -, hlook⟩ := task_ends h
  have houtcome := (task_planned h).outcome
  rw [houtcome, cut?_planned h]
  cases hwait : outcomeOf (Line.waitFor (Boundary.ofDelimiter delimiter) s.line) with
  | error f => exact ⟨fun h => (by cases h), fun h => (by cases h)⟩
  | ok found =>
    obtain ⟨frame, ⟨⟩⟩ := found
    rw [hwait] at hlook
    obtain ⟨front, rfl⟩ := hlook.delimiter_suffix
    show Except.ok (Answer.frame _) = _ ↔ some _ = _
    rw [List.length_append, Nat.add_sub_cancel, List.take_left, Except.ok.injEq,
      Answer.frame.injEq, Option.some.injEq, List.append_cancel_right_eq]

theorem cut?_octets (delimiter payload : Octets) (s : Session (Tapped κ)) :
    outcomeOf ((octets delimiter).task s) = .ok (.frame payload)
      ↔ (octets delimiter).cut? s = some (payload ++ delimiter) := by
  by_cases hd : delimiter = []
  · have hplan : (octets delimiter).plan s.version s.isClosed = .error .delimiterEmpty := by
      rw [hd]
      rfl
    rw [task_refused hplan, cut?_refused hplan]
    exact ⟨fun h => (by cases h), fun h => (by cases h)⟩
  · refine cut?_upTo ?_
    rw [plan, Plan.upTo_eq, if_neg hd]

theorem cut?_receive (hversion : s.version = .base10) (payload : Octets) :
    outcomeOf (receive.task s) = .ok (.frame payload)
      ↔ receive.cut? s = some (payload ++ Frame.delimiter) := by
  by_cases hclosed : s.isClosed = true
  · have hplan : receive.plan s.version s.isClosed = .error .sessionClosed := by
      rw [plan, if_pos hclosed]
    rw [task_refused hplan, cut?_refused hplan]
    exact ⟨fun h => (by cases h), fun h => (by cases h)⟩
  · refine cut?_upTo ?_
    rw [plan, if_neg hclosed, hversion]
    rfl

end Call

/-! ### Runs of calls -/

/-- What is done on a session in a run: a call, or the choice of a version between calls. -/
inductive Turn
  | call (c : Call)
  | setVersion (given : Datum)

/-- A session, and the frames that the calls of a run have cut off so far. -/
structure Ledger (κ : Type) where
  session : Session κ
  frames : List Octets

namespace Ledger

variable {κ : Type}

def after [Link κ] (t : Ledger κ) : Turn → Ledger κ
  | .call c => ⟨leftBy (c.task t.session), t.frames ++ (c.cut? t.session).toList⟩
  | .setVersion given => ⟨leftBy (Session.setVersion given t.session), t.frames⟩

/-- What was held at first and what was read since then are the frames and what is held. -/
def Balances (start : Octets) (t : Ledger (Tapped κ)) : Prop :=
  start ++ t.session.line.link.given = t.frames.flatten ++ t.session.line.window.held

variable [Link κ] {start : Octets} {t : Ledger (Tapped κ)}

theorem Balances.after (h : t.Balances start) (turn : Turn) : (t.after turn).Balances start := by
  cases turn with
  | call c =>
    obtain ⟨read, hgiven, hread⟩ := c.task_accounts t.session
    show start ++ (leftBy (c.task t.session)).line.link.given
      = (t.frames ++ (c.cut? t.session).toList).flatten
        ++ (leftBy (c.task t.session)).line.window.held
    rw [hgiven, ← List.append_assoc, h, List.append_assoc, hread, List.flatten_append,
      List.append_assoc]
  | setVersion given =>
    show start ++ (leftBy (Session.setVersion given t.session)).line.link.given
      = t.frames.flatten ++ (leftBy (Session.setVersion given t.session)).line.window.held
    have hchoice := Session.setVersion_eq given t.session
    cases hgiven : Frame.version given with
    | error f =>
      rw [hgiven] at hchoice
      rw [hchoice]
      exact h
    | ok version =>
      rw [hgiven] at hchoice
      rw [hchoice]
      exact h

theorem Balances.foldl (h : t.Balances start) (turns : List Turn) :
    (turns.foldl Ledger.after t).Balances start := by
  induction turns generalizing t with
  | nil => exact h
  | cons turn turns ih => exact ih (h.after turn)

/-- The ledger of a run on a session, whose link is tapped from then on. -/
def run (s : Session κ) (turns : List Turn) : Ledger (Tapped κ) :=
  turns.foldl after ⟨s.tapped, []⟩

/-- **No octet is lost, doubled or moved.**  After any run, what the session held at first and what
its link has given since then are the frames that were cut off, in the order of the calls, and what
is held.  The next call cuts off one frame if its test reports where one ends, whatever it makes of
the frame, and else none; a payload that it gives stood before the delimiter in that frame. -/
theorem run_accounts (s : Session κ) (turns : List Turn) :
    s.line.window.held ++ (run s turns).session.line.link.given
        = (run s turns).frames.flatten ++ (run s turns).session.line.window.held ∧
      (∀ c frame, Call.cut? c (run s turns).session = some frame
        ↔ c.Reports (run s turns).session frame) ∧
      (∀ delimiter payload,
        outcomeOf ((Call.octets delimiter).task (run s turns).session) = .ok (.frame payload)
          ↔ (Call.octets delimiter).cut? (run s turns).session = some (payload ++ delimiter)) ∧
      ((run s turns).session.version = .base10 → ∀ payload,
        outcomeOf (Call.receive.task (run s turns).session) = .ok (.frame payload)
          ↔ Call.receive.cut? (run s turns).session = some (payload ++ Frame.delimiter)) := by
  have hstart : Balances s.line.window.held ⟨s.tapped, []⟩ := List.append_nil _
  exact ⟨hstart.foldl turns, fun c frame => Call.cut?_eq_some_iff,
    fun delimiter payload => Call.cut?_octets delimiter payload _,
    fun hversion payload => Call.cut?_receive hversion payload⟩

end Ledger

end NetconfWire
