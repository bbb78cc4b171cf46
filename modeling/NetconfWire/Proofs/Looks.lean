/-
Looks at a window that were not in vain.

A wait looks at the window again after every read, and does not search again what it has
searched: its test resumes as many octets before the new ones as a delimiter can lie across
them.  A search that resumes there finds what a search of everything finds, as long as the
delimiter does not stand among the octets that it passes over.  No look of a wait fails
to keep to that, whatever was left in the window by earlier waits:

* `Line.mem_looks_iff` — the looks of a wait are recorded, each with what it was told;
* `Line.Tests.searched` — a test that may be made anew has found nothing among the octets
  that it passes over;
* `Line.waitForOctetsAnew_eq` — so a wait that searches everything after every read is the
  same wait;
* `Ledger.resumed_eq_anew` — all of this in every run of calls, over every link.
-/
import NetconfWire.Proofs.Resumption

namespace NetconfWire

/-! ### Searches that resume -/

namespace Boundary

variable {α : Type} {delimiter held : Octets} {n : Nat}

/-- The test that searches everything held, whatever was searched before. -/
def anew (test : Boundary α) : Boundary α := fun held _ =>
  test held 0

theorem not_isInfix_take_zero (hd : delimiter ≠ []) (b : Octets) : ¬ delimiter <:+: b.take 0 := by
  rw [List.take_zero, List.infix_nil]
  exact hd

/-- A search of everything finds the end of the first occurrence. -/
theorem delimiterEnd_zero (hd : delimiter ≠ []) (b : Octets) :
    delimiterEnd delimiter b 0 = (Octets.find? delimiter b).map (· + delimiter.length) :=
  Octets.delimiterEnd_eq hd (Nat.zero_le b.length) (not_isInfix_take_zero hd b)

theorem delimiterEnd_zero_eq_some_iff (hd : delimiter ≠ []) {b : Octets} {stop : Nat} :
    delimiterEnd delimiter b 0 = some stop ↔ ∃ k, stop = k + delimiter.length ∧
      Octets.StandsAt delimiter b k ∧ ∀ j < k, ¬ Octets.StandsAt delimiter b j := by
  rw [delimiterEnd_zero hd, Option.map_eq_some_iff]
  constructor
  · rintro ⟨k, hk, rfl⟩
    obtain ⟨hstands, -, hfirst⟩ := Octets.find?_eq_some_iff.mp hk
    exact ⟨k, rfl, hstands, hfirst⟩
  · rintro ⟨k, rfl, hstands, hfirst⟩
    have hle := hstands.le_length hd
    exact ⟨k, Octets.find?_eq_some_iff.mpr ⟨hstands, by omega, hfirst⟩, rfl⟩

theorem delimiterEnd_zero_eq_none_iff (hd : delimiter ≠ []) {b : Octets} :
    delimiterEnd delimiter b 0 = none ↔ ¬ delimiter <:+: b := by
  rw [delimiterEnd_zero hd, Option.map_eq_none_iff, Octets.find?_eq_none_iff_not_infix]

/-- A delimiter was searched for where it does not stand. -/
theorem searched_ofDelimiter_iff (hd : delimiter ≠ []) :
    (ofDelimiter delimiter).Searched n held ↔ n ≤ held.length ∧ ¬ delimiter <:+: held.take n := by
  have hnone : ofDelimiter delimiter (held.take n) 0 = .ok none ↔ ¬ delimiter <:+: held.take n := by
    rw [Octets.ofDelimiter_eq hd (Nat.zero_le _) (not_isInfix_take_zero hd _), Except.ok.injEq,
      Option.map_eq_none_iff, Octets.find?_eq_none_iff_not_infix]
  rw [Searched, hnone]
  refine and_congr_right fun _ => or_iff_right_of_imp ?_
  rintro rfl
  exact not_isInfix_take_zero hd held

end Boundary

/-! ### The looks of a wait -/

namespace Line

variable {κ α : Type} [Link κ]

/-- A wait with so many octets searched, on a window and a link, makes its test of `held`, and tells
it that `n` octets of these were searched before. -/
inductive Tests (test : Boundary α) : Nat → Window → κ → Octets → Nat → Prop
  | now (searched : Nat) (w : Window) (k : κ) : Tests test searched w k w.held searched
  | later {searched n : Nat} {w : Window} {k k' : κ} {x : UInt8} {rest held : Octets}
    (hnone : test w.held searched = .ok none) (hlimit : w.held.length ≤ w.limit)
    (hread : Link.receive w.quantum k = (.ok (x :: rest), k'))
    (h : Tests test w.held.length (w.extend (x :: rest)) k' held n) :
    Tests test searched w k held n

/-- A wait looks at octets with one of its tests. -/
def Takes (test : Boundary α) (searched : Nat) (w : Window) (k : κ) (look : Look) : Prop :=
  ∃ held, Tests test searched w k held look.searched ∧ look.held = held.length

section Takes

variable {test : Boundary α} {searched : Nat} {w : Window} {k k' : κ} {look : Look}

theorem takes_now (searched : Nat) (w : Window) (k : κ) :
    Takes test searched w k ⟨w.held.length, searched⟩ :=
  ⟨w.held, .now _ _ _, rfl⟩

/-- A wait that does not read any more has taken its last look. -/
theorem takes_iff_of_last
    (hlast : ∀ x rest k', test w.held searched = .ok none → w.held.length ≤ w.limit →
      Link.receive w.quantum k ≠ (.ok (x :: rest), k')) :
    Takes test searched w k look ↔ look = ⟨w.held.length, searched⟩ := by
  constructor
  · rintro ⟨held, htest, hheld⟩
    obtain ⟨n, m⟩ := look
    cases htest with
    | now =>
      cases hheld
      rfl
    | later hnone hlimit hread _ => exact absurd hread (hlast _ _ _ hnone hlimit)
  · rintro rfl
    exact takes_now _ _ _

/-- A wait that reads takes this look, and those after the read. -/
theorem takes_iff_of_read {x : UInt8} {rest : Octets} (hnone : test w.held searched = .ok none)
    (hlimit : w.held.length ≤ w.limit) (hread : Link.receive w.quantum k = (.ok (x :: rest), k')) :
    Takes test searched w k look ↔ look = ⟨w.held.length, searched⟩ ∨
      Takes test w.held.length (w.extend (x :: rest)) k' look := by
  constructor
  · rintro ⟨held, htest, hheld⟩
    obtain ⟨n, m⟩ := look
    cases htest with
    | now =>
      cases hheld
      exact .inl rfl
    | later _ _ hread' htest =>
      rw [hread] at hread'
      cases hread'
      exact .inr ⟨held, htest, hheld⟩
  · rintro (rfl | ⟨held, htest, hheld⟩)
    · exact takes_now _ _ _
    · exact ⟨held, .later hnone hlimit hread htest, hheld⟩

/-- The looks that a wait records are those that it takes. -/
theorem mem_looks_waitFrom_iff (test : Boundary α) (searched : Nat) (l : Line κ) :
    look ∈ (leftBy (waitFrom test searched l)).looks ↔
      look ∈ l.looks ∨ Takes test searched l.window l.link look := by
  fun_induction waitFrom test searched l with
  | case1 searched l f h =>
    rw [takes_iff_of_last (by simp [h])]
    exact List.mem_cons.trans or_comm
  | case2 searched l stop found h frame window hcut =>
    rw [takes_iff_of_last (by simp [h])]
    exact List.mem_cons.trans or_comm
  | case3 searched l h held hlimit =>
    rw [takes_iff_of_last fun _ _ _ _ hwithin => absurd hlimit (Nat.not_lt.mpr hwithin)]
    exact List.mem_cons.trans or_comm
  | case4 searched l h held hlimit f link hread =>
    rw [takes_iff_of_last (by simp [hread])]
    exact List.mem_cons.trans or_comm
  | case5 searched l h held hlimit link hread =>
    rw [takes_iff_of_last (by simp [hread])]
    exact List.mem_cons.trans or_comm
  | case6 searched l h held hlimit x rest link hread ih =>
    rw [ih, takes_iff_of_read h (Nat.le_of_not_lt hlimit) hread, ← or_assoc]
    exact or_congr_left (List.mem_cons.trans or_comm)

/-- The looks of a whole wait. -/
theorem mem_looks_iff (test : Boundary α) (l : Line κ) :
    look ∈ (leftBy (waitFor test l)).looks ↔ Takes test 0 l.window l.link look := by
  rw [waitFor, mem_looks_waitFrom_iff]
  exact or_iff_right List.not_mem_nil

end Takes

/-- A wait whose test may be made anew never passes over octets in which that test would have found
something. -/
theorem Tests.searched {test : Boundary α} (htest : test.Steady) {searched n : Nat} {w : Window}
    {k : κ} {held : Octets} (h : Tests test searched w k held n)
    (hs : test.Searched searched w.held) : test.Searched n held := by
  induction h with
  | now => exact hs
  | later hnone hlimit hread h ih => exact ih (htest.searched_append hs hnone _)

/-- So it may as well search everything at every look. -/
theorem waitFrom_anew {test : Boundary α} (htest : test.Steady) (searched : Nat) (l : Line κ)
    (hs : test.Searched searched l.window.held) :
    waitFrom test.anew searched l = waitFrom test searched l := by
  have hsame : ∀ {searched held}, test.Searched searched held →
      test.anew held searched = test held searched :=
    fun hs => (htest.eq_anew hs).symm
  fun_induction waitFrom test searched l with
  | case1 searched l f h => exact waitFrom_refused ((hsame hs).trans h)
  | case2 searched l stop found h frame window hcut =>
    rw [waitFrom_found ((hsame hs).trans h), hcut]
  | case3 searched l h held hlimit => exact waitFrom_tooLarge ((hsame hs).trans h) hlimit
  | case4 searched l h held hlimit f link hread =>
    exact waitFrom_failed ((hsame hs).trans h) (Nat.le_of_not_lt hlimit) hread
  | case5 searched l h held hlimit link hread =>
    exact waitFrom_ended ((hsame hs).trans h) (Nat.le_of_not_lt hlimit) hread
  | case6 searched l h held hlimit x rest link hread ih =>
    rw [waitFrom_read ((hsame hs).trans h) (Nat.le_of_not_lt hlimit) hread]
    exact ih (htest.searched_append hs h (x :: rest))

theorem waitFor_anew {test : Boundary α} (htest : test.Steady) (l : Line κ) :
    waitFor test.anew l = waitFor test l :=
  waitFrom_anew htest 0 _ (test.searched_zero _)

/-- Waits for a delimiter that is sought in everything held after every read. -/
def waitForOctetsAnew (delimiter : Octets) : LineTask κ Octets := do
  MonadExcept.ofExcept (Boundary.checkDelimiter delimiter)
  let (frame, _) ← waitFor (Boundary.ofDelimiter delimiter).anew
  return frame.take (frame.length - delimiter.length)

theorem waitForOctetsAnew_eq (delimiter : Octets) :
    (waitForOctetsAnew delimiter : LineTask κ Octets) = waitForOctets delimiter := by
  by_cases hd : delimiter = []
  · rw [hd]
    rfl
  · have hwait : (waitFor (Boundary.ofDelimiter delimiter).anew : LineTask κ (Octets × Unit))
        = waitFor (Boundary.ofDelimiter delimiter) :=
      funext (waitFor_anew (Boundary.steady_ofDelimiter hd))
    rw [waitForOctetsAnew, waitForOctets, hwait]

end Line

/-! ### Runs of calls -/

/-- A call on a session waits for a delimiter. -/
def Call.Seeks {κ : Type} (c : Call) (s : Session κ) (delimiter : Octets) : Prop :=
  ∃ finish, c.plan s.version s.isClosed = .ok ⟨Unit, Boundary.ofDelimiter delimiter, finish⟩

/-- The looks recorded after a call are those of its wait. -/
theorem Call.mem_looks_iff {κ : Type} [Link κ] {c : Call} {s : Session κ} {p : Plan} {look : Look}
    (h : c.plan s.version s.isClosed = .ok p) :
    look ∈ (leftBy (c.task s)).line.looks ↔
      Line.Takes p.test 0 s.line.window s.line.link look := by
  obtain ⟨notes, hline⟩ := (task_planned h).line
  rw [hline]
  exact Line.mem_looks_iff p.test s.line

/-- **A search that resumes finds what a search of everything finds.**  That is the end of the first
occurrence of the delimiter, if there is one, whenever the delimiter does not stand among the octets
searched before.  In every run of calls, every look of a call that waits for a delimiter keeps to
that; so a wait that searches everything after every read is the same wait. -/
theorem Ledger.resumed_eq_anew {delimiter : Octets} (hd : delimiter ≠ []) :
    (∀ {b : Octets} {searched : Nat}, searched ≤ b.length → ¬ delimiter <:+: b.take searched →
      Boundary.delimiterEnd delimiter b searched = Boundary.delimiterEnd delimiter b 0) ∧
    (∀ (b : Octets) (stop : Nat), Boundary.delimiterEnd delimiter b 0 = some stop ↔
      ∃ k, stop = k + delimiter.length ∧ Octets.StandsAt delimiter b k ∧
        ∀ j < k, ¬ Octets.StandsAt delimiter b j) ∧
    (∀ b : Octets, Boundary.delimiterEnd delimiter b 0 = none ↔ ¬ delimiter <:+: b) ∧
    ∀ {κ : Type} [Link κ],
      (∀ (s : Session κ) (turns : List Turn) (c : Call), c.Seeks (run s turns).session delimiter →
        (∀ look, look ∈ (leftBy (c.task (run s turns).session)).line.looks ↔
          Line.Takes (Boundary.ofDelimiter delimiter) 0 (run s turns).session.line.window
            (run s turns).session.line.link look) ∧
        ∀ {held n}, Line.Tests (Boundary.ofDelimiter delimiter) 0
            (run s turns).session.line.window (run s turns).session.line.link held n →
          n ≤ held.length ∧ ¬ delimiter <:+: held.take n) ∧
      (Line.waitForOctetsAnew delimiter : LineTask κ Octets) = Line.waitForOctets delimiter := by
  refine ⟨?_, fun b stop => Boundary.delimiterEnd_zero_eq_some_iff hd,
    fun b => Boundary.delimiterEnd_zero_eq_none_iff hd, fun {κ} _ => ⟨?_, ?_⟩⟩
  · intro b searched hle hnone
    rw [Boundary.delimiterEnd_zero hd, Octets.delimiterEnd_eq hd hle hnone]
  · rintro s turns c ⟨finish, hplan⟩
    refine ⟨fun look => Call.mem_looks_iff hplan, fun {held n} h => ?_⟩
    have hsteady := Boundary.steady_ofDelimiter hd
    have hsearched := h.searched hsteady (Boundary.searched_zero _ _)
    exact (Boundary.searched_ofDelimiter_iff hd).mp hsearched
  · exact Line.waitForOctetsAnew_eq delimiter

/-- A fresh session whose link gives the final marker in two halves, with a timeout between them. -/
def Session.parted : Session Script :=
  ⟨Line.fresh (Script.fresh
    [.gives [0x0A, 0x23], .fails ⟨.timedOut, "timed out"⟩, .gives [0x23, 0x0A]] false [] none)
    ⟨[], Window.defaultSize / 2, Window.defaultLimit⟩, [], .base11, .uninitialized, none, none⟩

/-- The call after the timeout finds the first half held, and resumes behind it. -/
theorem Ledger.resumed_eq_anew_parted :
    Chunk.terminator ≠ [] ∧ ¬ Chunk.terminator <:+: Chunk.terminator.take 3 ∧
    Boundary.delimiterEnd Chunk.terminator Chunk.terminator 3
      = Boundary.delimiterEnd Chunk.terminator Chunk.terminator 0 ∧
    Call.receive.Seeks (run Session.parted [.call .receive]).session Chunk.terminator ∧
    Line.Tests (Boundary.ofDelimiter Chunk.terminator) 0
      (run Session.parted [.call .receive]).session.line.window
      (run Session.parted [.call .receive]).session.line.link Chunk.terminator 2 ∧
    ¬ Chunk.terminator <:+: Chunk.terminator.take 2 := by
  have hd : Chunk.terminator ≠ [] := by decide
  have hbefore : ¬ Chunk.terminator <:+: Chunk.terminator.take 3 := by decide
  have hplan : Call.receive.plan .base11 false = .ok ⟨Unit, Boundary.ofDelimiter Chunk.terminator,
      fun found => (Version.base11.unwrap found.1).map .frame⟩ := rfl
  have hafter := Call.task_planned (s := Session.parted.tapped) hplan
  have hseeks : Call.receive.Seeks (run Session.parted [.call .receive]).session
      Chunk.terminator := by
    have hversion : (run Session.parted [.call .receive]).session.version = .base11 := hafter.version
    have hclosed : (run Session.parted [.call .receive]).session.isClosed = false := hafter.isClosed
    exact ⟨_, by rw [hversion, hclosed, hplan]⟩
  have htests : Line.Tests (Boundary.ofDelimiter Chunk.terminator) 0
      (run Session.parted [.call .receive]).session.line.window
      (run Session.parted [.call .receive]).session.line.link Chunk.terminator 2 := by
    obtain ⟨notes, hline⟩ := hafter.line
    rw [Line.waitFor, Line.waitFrom_read rfl (by decide) rfl,
      Line.waitFrom_failed rfl (by decide) rfl] at hline
    show Line.Tests _ 0 (leftBy (Call.receive.task Session.parted.tapped)).line.window
      (leftBy (Call.receive.task Session.parted.tapped)).line.link _ 2
    rw [hline]
    exact .later rfl (show 2 ≤ Window.defaultLimit by decide) rfl (.now 2 _ _)
  obtain ⟨hsame, -, -, hruns⟩ := resumed_eq_anew hd
  obtain ⟨-, hsearched⟩ := hruns.1 Session.parted [.call .receive] .receive hseeks
  exact ⟨hd, hbefore, hsame (by decide) hbefore, hseeks, htests, (hsearched htests).2⟩

end NetconfWire
