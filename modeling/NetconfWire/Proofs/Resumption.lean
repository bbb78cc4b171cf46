/-
Waits that are taken up again.

A read can fail, or give nothing, and the wait that made it ends with that.  Nothing
is lost: the octets that were read stay in the window, and when the same call is made
again, its test looks at all of them anew.  A test is *steady* if it then reports what
it would have reported without the interruption.  The calls that wait for a delimiter,
a text or a pattern, or for a message, wait with steady tests, and so

* `Line.waitFrom_stutters` — a wait whose reads may be in vain either comes to what
  the wait without these reads comes to, or is interrupted on the way to it;
* `Call.task_stutters` — the same for the calls;
* `Call.attempts_resume` — calls that are made again and again give the same answers
  and refusals as if no read were in vain, and an interruption costs no octet.
-/
import NetconfWire.Proofs.Accounts
import NetconfWire.Proofs.Interruptions

namespace NetconfWire

/-! ### Steady tests -/

namespace Boundary

variable {α : Type} {test : Boundary α} {n : Nat} {held : Octets}

/-- A test that can be made anew: the octets in which it has found nothing may as well be searched
again.  It does not fail in the ways of a link. -/
structure Steady (test : Boundary α) : Prop where
  anew : ∀ {held n}, n ≤ held.length → test (held.take n) 0 = .ok none → test held n = test held 0
  refuses : ∀ {held n f}, test held n = .error f → f.interrupts = false

/-- The test has found nothing in the first `n` octets held, if it has looked at any. -/
def Searched (test : Boundary α) (n : Nat) (held : Octets) : Prop :=
  n ≤ held.length ∧ (n = 0 ∨ test (held.take n) 0 = .ok none)

theorem searched_zero (test : Boundary α) (held : Octets) : test.Searched 0 held :=
  ⟨Nat.zero_le _, .inl rfl⟩

theorem Steady.eq_anew (h : test.Steady) (hs : test.Searched n held) :
    test held n = test held 0 := by
  obtain ⟨hle, rfl | hnone⟩ := hs
  · rfl
  · exact h.anew hle hnone

theorem Steady.searched_append (h : test.Steady) (hs : test.Searched n held)
    (hnone : test held n = .ok none) (b : Octets) : test.Searched held.length (held ++ b) := by
  refine ⟨?_, .inr ?_⟩
  · rw [List.length_append]
    exact Nat.le_add_right _ _
  · rw [List.take_left, ← h.eq_anew hs, hnone]

theorem steady_ofDelimiter {delimiter : Octets} (hd : delimiter ≠ []) :
    (ofDelimiter delimiter).Steady where
  anew := by
    intro held n hle hnone
    -- no occurrence lies among the octets searched, so both searches find the first one of all
    have hnil : ∀ b : Octets, ¬ delimiter <:+: b.take 0 := by
      intro b hb
      rw [List.take_zero, List.infix_nil] at hb
      exact hd hb
    have hsearch : ∀ b : Octets, ofDelimiter delimiter b 0
        = .ok ((Octets.find? delimiter b).map fun k =>
          (((k + delimiter.length : Nat) : Int), ())) :=
      fun b => Octets.ofDelimiter_eq hd (Nat.zero_le _) (hnil b)
    rw [hsearch, Except.ok.injEq, Option.map_eq_none_iff] at hnone
    rw [hsearch, Octets.ofDelimiter_eq hd hle (Octets.find?_eq_none_iff_not_infix.mp hnone)]
  refuses := fun h => by cases h

theorem steady_ofPattern (r : Regex) : (ofPattern r).Steady where
  anew := fun _ _ => rfl
  refuses := fun h => by cases h

theorem steady_ofTextPattern : ofTextPattern.Steady where
  anew := fun _ _ => rfl
  refuses := fun h => by cases h; rfl

end Boundary

/-! ### Waits -/

namespace Tapped

variable {κ : Type} [Link κ] (size : Int) (t : Tapped κ)

theorem receive_outcome : (Link.receive size t).1 = (Link.receive size t.link).1 := by
  show (receive size t).1 = _
  rw [receive]
  split <;> next h => rw [h]

theorem receive_link : (Link.receive size t).2.link = (Link.receive size t.link).2 := by
  show (receive size t).2.link = _
  rw [receive]
  split <;> next h => rw [h]

end Tapped

namespace Line

/-- Two lines over scripts, of which the first one smooths the second, with equal windows. -/
structure Smooths (l₀ l : Line (Tapped Script)) : Prop where
  link : Script.Smooths l₀.link.link l.link.link
  window : l₀.window = l.window

/-- How many reads of the line will be in vain. -/
def vain (l : Line (Tapped Script)) : Nat :=
  l.link.link.vain

/-- Reads of both lines come to the same, unless that of the second one is in vain. -/
theorem Smooths.receive {l₀ l : Line (Tapped Script)} (h : Smooths l₀ l) :
    (∃ link₀, Link.receive l₀.window.quantum l₀.link
        = ((Link.receive l.window.quantum l.link).1, link₀) ∧
      Script.Smooths link₀.link (Link.receive l.window.quantum l.link).2.link ∧
      (Link.receive l.window.quantum l.link).2.link.vain ≤ l.vain) ∨
    ((∀ b, (Link.receive l.window.quantum l.link).1 = .ok b → b = []) ∧
      Script.Smooths l₀.link.link (Link.receive l.window.quantum l.link).2.link ∧
      (Link.receive l.window.quantum l.link).2.link.vain < l.vain) := by
  rw [h.window, Tapped.receive_outcome, Tapped.receive_link]
  obtain ⟨houtcome, hsmooths, hvain⟩ | hvain := h.link.receive l.window.quantum
  · refine .inl ⟨(Link.receive (l.window.quantum : Int) l₀.link).2, Prod.ext ?_ rfl, ?_, hvain⟩
    · exact (Tapped.receive_outcome _ _).trans houtcome
    · rw [Tapped.receive_link]
      exact hsmooths
  · exact .inr hvain

/-- A wait with a steady test that is interrupted holds all that it has seen. -/
theorem LastLook.held_of_interrupted {α : Type} {test : Boundary α} {seen held : Octets}
    {last : Nat} {f : Fault} (h : LastLook test seen last (.error f) held) (htest : test.Steady)
    (hf : f.interrupts = true) : held = seen ∧ ∀ n, f = .frameIncomplete n → n = seen.length := by
  cases h with
  | refused hrefused =>
    rw [htest.refuses hrefused] at hf
    cases hf
  | tooLarge limit hnone => cases hf
  | ended hnone => exact ⟨rfl, fun n hn => by cases hn; rfl⟩
  | failed f hnone => exact ⟨rfl, fun n hn => by cases hn⟩

/-- A wait on a smooth line and another one come to the same, or the other one is interrupted and
the one on the smooth line comes to what it comes to from where that one was. -/
def Agree {α : Type} (test : Boundary α)
    (smooth other : EStateM.Result Fault (Line (Tapped Script)) (Octets × α))
    (patience : Nat) : Prop :=
  (outcomeOf other = outcomeOf smooth ∧ Smooths (leftBy smooth) (leftBy other) ∧
    (leftBy other).vain ≤ patience) ∨
  (interrupted (outcomeOf other) = true ∧ (leftBy other).vain < patience ∧
    ∃ n l, smooth = waitFrom test n l ∧ test.Searched n l.window.held ∧ Smooths l (leftBy other))

variable {α : Type} {test : Boundary α}

theorem Agree.mono {smooth other : EStateM.Result Fault (Line (Tapped Script)) (Octets × α)}
    {patience patience' : Nat} (h : Agree test smooth other patience) (hle : patience ≤ patience') :
    Agree test smooth other patience' := by
  obtain ⟨houtcome, hsmooths, hvain⟩ | ⟨hinterrupted, hvain, hlater⟩ := h
  · exact .inl ⟨houtcome, hsmooths, hvain.trans hle⟩
  · exact .inr ⟨hinterrupted, hvain.trans_le hle, hlater⟩

/-- Both tests report what a test made anew reports of the octets that both lines hold. -/
theorem Smooths.test_eq (htest : test.Steady) {n₀ n : Nat} {l₀ l : Line (Tapped Script)}
    (h : Smooths l₀ l) (hn₀ : test.Searched n₀ l₀.window.held)
    (hn : test.Searched n l.window.held) :
    test l₀.window.held n₀ = test l.window.held n := by
  rw [htest.eq_anew hn₀, htest.eq_anew hn, h.window]

/-- If the wait on the second line reads, so does the one on the first. -/
theorem Smooths.goes_on (htest : test.Steady) {n₀ n : Nat} {l₀ l : Line (Tapped Script)}
    (h : Smooths l₀ l) (hn₀ : test.Searched n₀ l₀.window.held) (hn : test.Searched n l.window.held)
    (hnone : test l.window.held n = .ok none) (hlimit : ¬ l.window.limit < l.window.held.length) :
    test l₀.window.held n₀ = .ok none ∧ l₀.window.held.length ≤ l₀.window.limit := by
  refine ⟨(h.test_eq htest hn₀ hn).trans hnone, ?_⟩
  rw [h.window]
  exact Nat.le_of_not_lt hlimit

theorem waitFrom_stutters (htest : test.Steady) (n : Nat) (l : Line (Tapped Script)) :
    test.Searched n l.window.held → ∀ n₀ l₀, Smooths l₀ l → test.Searched n₀ l₀.window.held →
      Agree test (waitFrom test n₀ l₀) (waitFrom test n l) l.vain := by
  fun_induction waitFrom test n l with
  | case1 n l f hrefused =>
    intro hn n₀ l₀ h hn₀
    have hrefused₀ := (h.test_eq htest hn₀ hn).trans hrefused
    rw [waitFrom_refused hrefused₀]
    exact .inl ⟨rfl, ⟨h.link, h.window⟩, Nat.le_refl _⟩
  | case2 n l stop found hfound frame window hcut =>
    intro hn n₀ l₀ h hn₀
    have hfound₀ := (h.test_eq htest hn₀ hn).trans hfound
    rw [waitFrom_found hfound₀, h.window, hcut]
    exact .inl ⟨rfl, ⟨h.link, rfl⟩, Nat.le_refl _⟩
  | case3 n l hnone held hlimit =>
    intro hn n₀ l₀ h hn₀
    have hnone₀ := (h.test_eq htest hn₀ hn).trans hnone
    rw [waitFrom_tooLarge hnone₀ (by rw [h.window]; exact hlimit), h.window]
    exact .inl ⟨rfl, ⟨h.link, h.window⟩, Nat.le_refl _⟩
  | case4 n l hnone held hlimit f link hread =>
    intro hn n₀ l₀ h hn₀
    obtain ⟨hnone₀, hwithin⟩ := h.goes_on htest hn₀ hn hnone hlimit
    have hreceive := h.receive
    rw [hread] at hreceive
    obtain ⟨link₀, hread₀, hsmooths, hvain⟩ | ⟨-, hsmooths, hvain⟩ := hreceive
    · rw [waitFrom_failed hnone₀ hwithin hread₀]
      exact .inl ⟨rfl, ⟨hsmooths, h.window⟩, hvain⟩
    · -- the read was in vain, and the wait on the smooth line has yet to make its next one
      exact .inr ⟨rfl, hvain, n₀, l₀, rfl, hn₀, ⟨hsmooths, h.window⟩⟩
  | case5 n l hnone held hlimit link hread =>
    intro hn n₀ l₀ h hn₀
    obtain ⟨hnone₀, hwithin⟩ := h.goes_on htest hn₀ hn hnone hlimit
    have hreceive := h.receive
    rw [hread] at hreceive
    obtain ⟨link₀, hread₀, hsmooths, hvain⟩ | ⟨-, hsmooths, hvain⟩ := hreceive
    · rw [waitFrom_ended hnone₀ hwithin hread₀, h.window]
      exact .inl ⟨rfl, ⟨hsmooths, h.window⟩, hvain⟩
    · exact .inr ⟨rfl, hvain, n₀, l₀, rfl, hn₀, ⟨hsmooths, h.window⟩⟩
  | case6 n l hnone held hlimit x rest link hread ih =>
    intro hn n₀ l₀ h hn₀
    obtain ⟨hnone₀, hwithin⟩ := h.goes_on htest hn₀ hn hnone hlimit
    have hreceive := h.receive
    rw [hread] at hreceive
    obtain ⟨link₀, hread₀, hsmooths, hvain⟩ | ⟨hnil, -, -⟩ := hreceive
    · have hnext : Smooths ((l₀.look n₀).take link₀ (x :: rest))
          ((l.look n).take link (x :: rest)) :=
        ⟨hsmooths, congrArg (fun w => w.extend (x :: rest)) h.window⟩
      have hagree := ih (htest.searched_append hn hnone _) _ _ hnext
        (htest.searched_append hn₀ hnone₀ _)
      rw [waitFrom_read hnone₀ hwithin hread₀]
      exact hagree.mono hvain
    · -- a read that gives octets is not in vain
      cases hnil _ rfl

end Line

/-! ### Calls that can be made again -/

theorem Line.steady_of_patternBoundary {given : Datum} {test : Boundary (List (Option Octets))}
    (h : patternBoundary given = .ok test) : test.Steady := by
  revert h
  fun_cases patternBoundary given with
  | case1 => intro h; cases h; exact Boundary.steady_ofTextPattern
  | case3 => intro h; cases h; exact Boundary.steady_ofPattern _
  | _ => exact fun h => by cases h

/-- A plan whose test is steady, and which makes no interruption of a frame. -/
structure Plan.Steady (p : Plan) : Prop where
  test : p.test.Steady
  finish : ∀ {found f}, p.finish found = .error f → f.interrupts = false

theorem Plan.steady_upTo {delimiter : Octets} {finish : Octets → Except Fault Answer} {p : Plan}
    (h : Plan.upTo delimiter finish = .ok p)
    (hfinish : ∀ {b f}, finish b = .error f → f.interrupts = false) : p.Steady := by
  rw [Plan.upTo_eq] at h
  split at h
  · cases h
  · next hd =>
    cases h
    exact ⟨Boundary.steady_ofDelimiter hd, hfinish⟩

namespace Call

/-- The calls that can be made again after an interruption: those whose tests are known to be
steady. -/
inductive Resumable : Call → Prop
  | octets (delimiter : Octets) : Resumable (octets delimiter)
  | text (s : String) (charset : Charset) : Resumable (text s charset)
  | pattern (given : Datum) : Resumable (pattern given)
  | receive : Resumable receive

variable {c : Call} {version : Version} {closed : Bool}

/-- A call that refuses is not interrupted. -/
theorem interrupts_of_plan {f : Fault} (h : c.plan version closed = .error f) :
    f.interrupts = false := by
  have hupTo : ∀ {delimiter finish}, Plan.upTo delimiter finish = .error f →
      f.interrupts = false := by
    intro delimiter finish h
    rw [Plan.upTo_eq] at h
    split at h <;> cases h
    rfl
  cases c with
  | boundary test => cases h
  | octets delimiter =>
    rw [plan] at h
    exact hupTo h
  | text s charset =>
    rw [plan] at h
    split at h
    · cases h
      rfl
    · exact hupTo h
  | pattern given =>
    rw [plan] at h
    split at h
    · next g hgiven =>
      cases h
      exact Line.interrupts_of_patternBoundary hgiven
    · cases h
  | receive =>
    rw [plan] at h
    split at h <;> cases h
    rfl
  | receiveHello =>
    rw [plan] at h
    split at h <;> cases h
    rfl

theorem Resumable.steady (hc : c.Resumable) {p : Plan} (h : c.plan version closed = .ok p) :
    p.Steady := by
  cases hc with
  | octets delimiter =>
    rw [plan] at h
    exact Plan.steady_upTo h fun h => by cases h
  | text s charset =>
    rw [plan] at h
    split at h
    · cases h
    · refine Plan.steady_upTo h ?_
      intro b f hf
      cases hdecode : charset.decode b with
      | ok text => rw [hdecode] at hf; cases hf
      | error why => rw [hdecode] at hf; cases hf; rfl
  | pattern given =>
    rw [plan] at h
    split at h
    · cases h
    · next test htest =>
      cases h
      exact ⟨Line.steady_of_patternBoundary htest, fun h => by cases h⟩
  | receive =>
    rw [plan] at h
    split at h
    · cases h
    · cases h
      refine ⟨Boundary.steady_ofDelimiter (Version.marker_ne_nil version), ?_⟩
      intro found f hf
      exact Version.interrupts_of_unwrap (error_of_map hf)

end Call

/-! ### Calls on smooth sessions -/

namespace Session

/-- The session whose link gives the same octets, without the reads in vain. -/
def smooth (s : Session (Tapped Script)) : Session (Tapped Script) :=
  s.withLine { s.line with link := { s.line.link with link := s.line.link.link.smooth } }

/-- How many reads of the session will be in vain. -/
def vain (s : Session (Tapped Script)) : Nat :=
  s.line.vain

end Session

namespace Call

/-- The call comes on the first session to what it comes to from where the second one is, if its
reads are not in vain. -/
structure InStep (c : Call) (s₀ s : Session (Tapped Script)) : Prop where
  version : s₀.version = s.version
  isClosed : s₀.isClosed = s.isClosed
  wait : ∀ {p}, c.plan s.version s.isClosed = .ok p → ∃ n l, Line.waitFor p.test s₀.line
    = Line.waitFrom p.test n l ∧ p.test.Searched n l.window.held ∧ l.Smooths s.line

theorem inStep_of_smooths (c : Call) {s₀ s : Session (Tapped Script)}
    (hversion : s₀.version = s.version) (hclosed : s₀.isClosed = s.isClosed)
    (h : s₀.line.Smooths s.line) : c.InStep s₀ s where
  version := hversion
  isClosed := hclosed
  wait := fun {p} _ => ⟨0, { s₀.line with looks := [] }, rfl, p.test.searched_zero _,
    ⟨h.link, h.window⟩⟩

theorem inStep_smooth (c : Call) (s : Session (Tapped Script)) : c.InStep s.smooth s :=
  c.inStep_of_smooths rfl rfl ⟨s.line.link.link.smooths_smooth, rfl⟩

/-- A call that can be made again stutters where its reads are in vain. -/
theorem task_stutters {c : Call} (hc : c.Resumable) :
    Stutters c.task c.InStep Session.vain := by
  intro s₀ s h
  cases hplan : c.plan s.version s.isClosed with
  | error f =>
    have hplan₀ : c.plan s₀.version s₀.isClosed = .error f := by
      rw [h.version, h.isClosed, hplan]
    rw [task_refused hplan, task_refused hplan₀]
    exact .inl ⟨rfl, h, Nat.le_refl _⟩
  | ok p =>
    have hplan₀ : c.plan s₀.version s₀.isClosed = .ok p := by
      rw [h.version, h.isClosed, hplan]
    obtain ⟨houtcome, ⟨notes, hline⟩, hversion, hclosed⟩ := task_planned hplan
    obtain ⟨houtcome₀, ⟨notes₀, hline₀⟩, hversion₀, hclosed₀⟩ := task_planned hplan₀
    obtain ⟨n, l, hwait, hsearched, hsmooths⟩ := h.wait hplan
    have htest := (hc.steady hplan).test
    have hvain : Session.vain (leftBy (c.task s))
        = (leftBy (Line.waitFor p.test s.line)).vain := by
      rw [Session.vain, hline]
      rfl
    have hagree := Line.waitFrom_stutters htest 0 { s.line with looks := [] }
      (p.test.searched_zero _) n l ⟨hsmooths.link, hsmooths.window⟩ hsearched
    rw [← hwait] at hagree
    obtain ⟨hsame, hsmooths', hle⟩ | ⟨hinterrupted, hlt, m, l', hwait', hsearched', hsmooths'⟩ :=
      hagree
    · left
      refine ⟨?_, ?_, ?_⟩
      · rw [houtcome, houtcome₀]
        exact congrArg (fun outcome => outcome.bind p.finish) hsame
      · refine c.inStep_of_smooths ?_ ?_ ?_
        · rw [hversion, hversion₀, h.version]
        · rw [hclosed, hclosed₀, h.isClosed]
        · rw [hline, hline₀]
          exact ⟨hsmooths'.link, hsmooths'.window⟩
      · rw [hvain]
        exact hle
    · -- the smooth session has not moved, but its call comes to what it comes to from further on
      right
      refine ⟨?_, ⟨?_, ?_, ?_⟩, ?_⟩
      · rw [houtcome]
        exact interrupted_bind hinterrupted
      · rw [hversion, h.version]
      · rw [hclosed, h.isClosed]
      · intro q hq
        rw [hversion, hclosed, hplan] at hq
        cases hq
        refine ⟨m, l', hwait', hsearched', ?_⟩
        rw [hline]
        exact ⟨hsmooths'.link, hsmooths'.window⟩
      · rw [hvain]
        exact hlt

/-- An interrupted call has cut nothing off: what it has read is held behind what was held. -/
theorem task_interrupted {κ : Type} [Link κ] {c : Call} (hc : c.Resumable)
    {s : Session (Tapped κ)} {f : Fault} (h : outcomeOf (c.task s) = .error f)
    (hf : f.interrupts = true) :
    ∃ read, (leftBy (c.task s)).line.link.given = s.line.link.given ++ read ∧
      (leftBy (c.task s)).line.window.held = s.line.window.held ++ read ∧
      ∀ n, f = .frameIncomplete n → n = (leftBy (c.task s)).line.window.held.length := by
  cases hplan : c.plan s.version s.isClosed with
  | error g =>
    rw [task_refused hplan] at h
    cases h
    rw [interrupts_of_plan hplan] at hf
    cases hf
  | ok p =>
    obtain ⟨read, last, hgiven, -, hlook⟩ := task_ends hplan
    rw [(task_planned hplan).outcome] at h
    cases hwait : outcomeOf (Line.waitFor p.test s.line) with
    | ok found =>
      -- the frame was cut off, and what is made of it is no interruption
      rw [hwait] at h
      rw [(hc.steady hplan).finish h] at hf
      cases hf
    | error g =>
      rw [hwait] at h hlook
      cases h
      obtain ⟨hheld, hbuffered⟩ := hlook.held_of_interrupted (hc.steady hplan).test hf
      rw [← hheld] at hbuffered
      exact ⟨read, hgiven, hheld, hbuffered⟩

/-- **An interrupted wait can be taken up again.**  A call that is made again and again settles on
the same frames, captures and faults as if no read were in vain, after as many further attempts as
there are such reads.  What an interrupted call has read is held behind what was held before, and
if the stream has ended it reports how many octets are held. -/
theorem attempts_resume {c : Call} (hc : c.Resumable) (s : Session (Tapped Script)) :
    (∀ n, settled (attempts c.task n s).1 <+: settled (attempts c.task n s.smooth).1 ∧
      settled (attempts c.task n s.smooth).1 <+: settled (attempts c.task (n + s.vain) s).1) ∧
    ∀ (s : Session (Tapped Script)) (f : Fault), outcomeOf (c.task s) = .error f →
      f.interrupts = true →
      ∃ read, (leftBy (c.task s)).line.link.given = s.line.link.given ++ read ∧
        (leftBy (c.task s)).line.window.held = s.line.window.held ++ read ∧
        ∀ n, f = .frameIncomplete n → n = (leftBy (c.task s)).line.window.held.length := by
  have hstep := c.inStep_smooth s
  refine ⟨fun n => ⟨?_, ?_⟩, fun s f h hf => task_interrupted hc h hf⟩
  · exact (task_stutters hc).settled_among n hstep
  · exact (task_stutters hc).settled_reached hstep (Nat.le_refl _)

/-- A fresh session over the parts `a` and `]]>]]>`, with a timeout between them. -/
def halting : Session (Tapped Script) :=
  Session.tapped ⟨Line.fresh (Script.fresh
    [.gives [0x61], .fails ⟨.timedOut, "timed out"⟩, .gives Frame.delimiter] false [] none)
    ⟨[], Window.defaultSize / 2, Window.defaultLimit⟩, [], .base10, .uninitialized, none, none⟩

/-- The timeout interrupts the first attempt to receive, with all that was read still held, and the
second one receives the message. -/
theorem attempts_resume_timedOut :
    Resumable receive ∧
    outcomeOf (receive.task halting) = .error (.foreign .timedOut "timed out") ∧
    (∃ read, (leftBy (receive.task halting)).line.link.given = read ∧
      (leftBy (receive.task halting)).line.window.held = read) ∧
    [.ok (.frame [0x61])] <+: settled (attempts receive.task 2 halting).1 := by
  have hplan : receive.plan .base10 false
      = .ok ⟨Unit, Boundary.ofDelimiter Frame.delimiter, fun found =>
        (Version.base10.unwrap found.1).map .frame⟩ := rfl
  have hfails : outcomeOf (receive.task halting) = .error (.foreign .timedOut "timed out") := by
    rw [(task_planned (s := halting) hplan).outcome, Line.waitFor,
      Line.waitFrom_read rfl (by decide) rfl, Line.waitFrom_failed rfl (by decide) rfl]
    rfl
  have hframe : settled (attempts receive.task 1 halting.smooth).1 = [.ok (.frame [0x61])] := by
    have houtcome : outcomeOf (receive.task halting.smooth) = .ok (.frame [0x61]) := by
      rw [(task_planned (s := halting.smooth) hplan).outcome, Line.waitFor,
        Line.waitFrom_read rfl (by decide) rfl, Line.waitFrom_read rfl (by decide) rfl,
        Line.waitFrom_found rfl]
      rfl
    rw [attempts, attempts, houtcome]
    rfl
  obtain ⟨hruns, hheld⟩ := attempts_resume .receive halting
  obtain ⟨read, hgiven, hheld, -⟩ := hheld halting _ hfails rfl
  refine ⟨.receive, hfails, ⟨read, hgiven, hheld⟩, ?_⟩
  rw [← hframe]
  exact (hruns 1).2

end Call

end NetconfWire
