/-
Where a session stands.

The phase of a session, its version and the introductions that it has sent and received
make up its standing.  What happens to a session in a run leaves milestones: that it was
closed, that a version was chosen, that an introduction was sent or received.  Operations
that fail, and those that move messages only, leave none:

* `Operation.standing_eq` — every operation moves the standing by the milestones that it
  leaves, and by nothing else;
* `Runs.standing_eq` — so does every run of operations and of blocks that close the
  session at their end, however these are nested and wherever they fail;
* `Session.standing_of_run` — hence the standing can be read off the milestones, and a
  session never falls back to an earlier phase.
-/
import NetconfWire.Proofs.Calls

namespace NetconfWire

/-! ### Standings and milestones -/

/-- Where a session stands. -/
structure Standing where
  phase : Phase
  version : Version
  localHello : Option Hello
  remoteHello : Option Hello

/-- What a session has been through. -/
inductive Milestone
  /-- It was closed, by a call or at the end of a block. -/
  | closed
  /-- A version was chosen. -/
  | chose (version : Version)
  /-- It has introduced itself. -/
  | introduced (hello : Hello)
  /-- Its peer has introduced itself. -/
  | met (hello : Hello)

namespace Milestone

def version? : Milestone → Option Version
  | chose version => some version
  | _ => none

def introduced? : Milestone → Option Hello
  | introduced hello => some hello
  | _ => none

def met? : Milestone → Option Hello
  | met hello => some hello
  | _ => none

end Milestone

namespace Standing

/-- Where a session stands at its start. -/
def fresh : Standing :=
  ⟨.uninitialized, .base10, none, none⟩

/-- Where a session stands after a milestone. -/
def after (t : Standing) : Milestone → Standing
  | .closed => { t with phase := .closed }
  | .chose version => { t with version, phase := t.phase.afterChoice }
  | .introduced hello =>
    { t with localHello := some hello, phase := t.phase.afterHello true t.remoteHello.isSome }
  | .met hello =>
    { t with remoteHello := some hello, phase := t.phase.afterHello t.localHello.isSome true }

end Standing

namespace Phase

/-- How far a phase is from the first one. -/
def rank : Phase → Nat
  | uninitialized => 0
  | helloExchanged => 1
  | negotiated => 2
  | closed => 3

theorem eq_closed_of_rank {p q : Phase} (h : p.rank ≤ q.rank) (hp : p = closed) : q = closed := by
  subst hp
  cases q <;> simp [rank] at h ⊢

section Changes

variable {p : Phase} {sent received : Bool}

theorem eq_uninitialized_iff :
    p = uninitialized ↔ ¬ p = closed ∧ ¬ p = negotiated ∧ ¬ p = helloExchanged := by
  cases p <;> decide

@[simp] theorem afterChoice_eq_closed : p.afterChoice = closed ↔ p = closed := by
  cases p <;> decide

@[simp] theorem afterChoice_eq_negotiated : p.afterChoice = negotiated ↔ p ≠ closed := by
  cases p <;> decide

@[simp] theorem afterChoice_ne_helloExchanged : p.afterChoice ≠ helloExchanged := by
  cases p <;> decide

@[simp] theorem afterHello_eq_closed : p.afterHello sent received = closed ↔ p = closed := by
  cases p <;> cases sent <;> cases received <;> decide

@[simp] theorem afterHello_eq_negotiated :
    p.afterHello sent received = negotiated ↔ p = negotiated := by
  cases p <;> cases sent <;> cases received <;> decide

@[simp] theorem afterHello_eq_helloExchanged :
    p.afterHello sent received = helloExchanged ↔
      p = helloExchanged ∨ p = uninitialized ∧ sent = true ∧ received = true := by
  cases p <;> cases sent <;> cases received <;> decide

theorem rank_le_closed (p : Phase) : p.rank ≤ closed.rank := by
  cases p <;> decide

theorem rank_le_afterChoice : p.rank ≤ p.afterChoice.rank := by
  cases p <;> decide

theorem rank_le_afterHello : p.rank ≤ (p.afterHello sent received).rank := by
  cases p <;> cases sent <;> cases received <;> decide

end Changes

end Phase

theorem Standing.rank_le_after (t : Standing) (m : Milestone) :
    t.phase.rank ≤ (t.after m).phase.rank := by
  cases m with
  | closed => exact Phase.rank_le_closed _
  | chose version => exact Phase.rank_le_afterChoice
  | introduced hello => exact Phase.rank_le_afterHello
  | met hello => exact Phase.rank_le_afterHello

theorem Standing.rank_le_foldl (t : Standing) (log : List Milestone) :
    t.phase.rank ≤ (log.foldl after t).phase.rank := by
  induction log generalizing t with
  | nil => exact Nat.le_refl _
  | cons m log ih => exact (t.rank_le_after m).trans (ih (t.after m))

/-! ### What milestones tell -/

namespace Standing

variable {log : List Milestone}

/-- The last choice and the last introductions are in force. -/
theorem fields_foldl (log : List Milestone) :
    (log.foldl after fresh).version
        = (log.filterMap Milestone.version?).getLast?.getD .base10 ∧
      (log.foldl after fresh).localHello = (log.filterMap Milestone.introduced?).getLast? ∧
      (log.foldl after fresh).remoteHello = (log.filterMap Milestone.met?).getLast? := by
  induction log using List.reverseRecOn with
  | nil => exact ⟨rfl, rfl, rfl⟩
  | append_singleton log m ih =>
    obtain ⟨hversion, hlocal, hremote⟩ := ih
    rw [List.foldl_append]
    cases m <;>
      simp [after, hversion, hlocal, hremote, Milestone.version?, Milestone.introduced?,
        Milestone.met?]

/-- A session that has been closed is closed, and one that is not but has chosen a version has
negotiated it. -/
theorem late_foldl (log : List Milestone) :
    ((log.foldl after fresh).phase = .closed ↔ .closed ∈ log) ∧
      ((log.foldl after fresh).phase = .negotiated ↔ .closed ∉ log ∧ ∃ v, .chose v ∈ log) := by
  induction log using List.reverseRecOn with
  | nil => simp [fresh]
  | append_singleton log m ih =>
    obtain ⟨hclosed, hnegotiated⟩ := ih
    rw [List.foldl_append]
    cases m with
    | chose version => simp [after, hclosed]
    | closed => simp [after]
    | introduced hello => simp [after, hclosed, hnegotiated]
    | met hello => simp [after, hclosed, hnegotiated]

/-- Any other session has exchanged introductions exactly if it has sent and received them. -/
theorem helloExchanged_foldl (log : List Milestone) :
    (log.foldl after fresh).phase = .helloExchanged ↔
      .closed ∉ log ∧ (∀ v, .chose v ∉ log) ∧
        (log.foldl after fresh).localHello.isSome ∧ (log.foldl after fresh).remoteHello.isSome := by
  induction log using List.reverseRecOn with
  | nil => simp [fresh]
  | append_singleton log m ih =>
    -- before the choice of a version the phase is one of the first two
    have hfirst := @Phase.eq_uninitialized_iff (log.foldl after fresh).phase
    obtain ⟨hclosed, hnegotiated⟩ := late_foldl log
    rw [hclosed, hnegotiated, ih] at hfirst
    rw [List.foldl_append]
    cases m with
    | closed => simp [after]
    | chose version =>
      refine iff_of_false Phase.afterChoice_ne_helloExchanged ?_
      rintro ⟨-, hnone, -⟩
      exact hnone version (by simp)
    | introduced hello =>
      simp only [List.foldl_cons, List.foldl_nil, after, Phase.afterHello_eq_helloExchanged, ih,
        List.mem_append, List.mem_singleton, reduceCtorEq, or_false, Option.isSome_some]
      grind
    | met hello =>
      simp only [List.foldl_cons, List.foldl_nil, after, Phase.afterHello_eq_helloExchanged, ih,
        List.mem_append, List.mem_singleton, reduceCtorEq, or_false, Option.isSome_some]
      grind

end Standing

/-! ### Operations -/

/-- What is done on a session. -/
inductive Operation
  | send (payload : Datum)
  | receive
  | sendHello (hello : Option Hello)
  | receiveHello
  | setVersion (given : Datum)
  | close

/-- Where a session stands. -/
def Session.standing {κ : Type} (s : Session κ) : Standing :=
  ⟨s.phase, s.version, s.localHello, s.remoteHello⟩

theorem Session.standing_of_line {κ : Type} {s s' : Session κ} {l : Line κ}
    (h : s' = s.withLine l) : s'.standing = s.standing := by
  rw [h]
  rfl

section Operations

variable {κ : Type} [Link κ]

namespace Operation

/-- The session that an operation leaves, whether or not it fails. -/
def leaves (s : Session κ) : Operation → Session κ
  | send payload => leftBy (Session.send payload s)
  | receive => leftBy (Session.receive s)
  | sendHello hello => leftBy (Session.sendHello hello s)
  | receiveHello => leftBy (Session.receiveHello s)
  | setVersion given => leftBy (Session.setVersion given s)
  | close => leftBy (Session.close s)

/-- The milestone that an operation leaves.  A call to close a session leaves one even if it fails,
all others do so only when they return. -/
def milestone? (s : Session κ) : Operation → Option Milestone
  | send _ => none
  | receive => none
  | sendHello hello =>
    match outcomeOf (Session.sendHello hello s) with
    | .ok () => some (.introduced (hello.getD (Hello.ofParts s.capabilities .null)))
    | .error _ => none
  | receiveHello =>
    match outcomeOf (Session.receiveHello s) with
    | .ok hello => some (.met hello)
    | .error _ => none
  | setVersion given =>
    match outcomeOf (Session.setVersion given s), Frame.version given with
    | .ok (), .ok version => some (.chose version)
    | _, _ => none
  | close => some .closed

end Operation

namespace Session

variable {s : Session κ}

/-- Sending changes nothing but the line. -/
theorem send_keeps (payload : Datum) (s : Session κ) :
    ∃ l, leftBy (send payload s) = s.withLine l := by
  have h := send_dispatch payload s
  generalize send payload s = r at h ⊢
  cases h with
  | refused notes h => exact ⟨_, rfl⟩
  | passed notes hframe hsend => exact ⟨_, rfl⟩
  | failed notes hframe hsend => exact ⟨_, rfl⟩

/-- An introduction is sent as a document, and recorded once it has been. -/
theorem sendHello_standing (hello : Option Hello) (s : Session κ) :
    (leftBy (sendHello hello s)).standing
      = ((Operation.sendHello hello).milestone? s).toList.foldl Standing.after s.standing := by
  rw [Operation.milestone?]
  by_cases hclosed : s.isClosed = true
  · rw [sendHello_of_closed hello hclosed]
    rfl
  rw [sendHello_eq hello (Bool.eq_false_iff.mpr hclosed)]
  generalize hello.getD (Hello.ofParts s.capabilities .null) = h
  -- what cannot be written or sent is not recorded
  cases hwrite : h.write with
  | error f => rfl
  | ok document =>
    obtain ⟨l, hleft⟩ := send_keeps (.octets .frozen document) s
    dsimp only
    cases hsend : send (.octets .frozen document) s with
    | error f s' =>
      rw [hsend] at hleft
      exact standing_of_line hleft
    | ok _ s' =>
      rw [hsend] at hleft
      rw [show s' = s.withLine l from hleft]
      rfl

theorem receiveHello_standing (s : Session κ) :
    (leftBy (receiveHello s)).standing
      = (Operation.receiveHello.milestone? s).toList.foldl Standing.after s.standing := by
  rw [Operation.milestone?, receiveHello_eq]
  obtain ⟨l, hleft, -, -⟩ := receive_keeps s
  cases hreceive : receive s with
  | error f s' =>
    rw [hreceive] at hleft
    exact standing_of_line hleft
  | ok message s' =>
    rw [hreceive] at hleft
    rw [show s' = s.withLine l from hleft]
    dsimp only
    cases Hello.read (.octets .frozen message) <;> rfl

/-- A version that is chosen is in force, also in a closed session. -/
theorem setVersion_standing (given : Datum) (s : Session κ) :
    (leftBy (setVersion given s)).standing
      = ((Operation.setVersion given).milestone? s).toList.foldl Standing.after s.standing := by
  rw [Operation.milestone?, setVersion_eq]
  cases Frame.version given <;> rfl

/-- Closing a session leaves it closed, whatever becomes of its link. -/
theorem close_standing (s : Session κ) :
    (leftBy (close s)).standing = s.standing.after .closed := by
  by_cases h : s.isClosed = true
  · rw [close_of_closed h]
    have hphase : s.phase = .closed := by simpa [isClosed] using h
    show s.standing = { s.standing with phase := .closed }
    rw [← hphase]
    rfl
  · rw [close_of_open (Bool.eq_false_iff.mpr h)]
    split <;> rfl

/-- A block leaves the session as its body has left it, but closed. -/
theorem leftBy_within {α : Type} (body : SessionTask κ α) (s : Session κ) :
    leftBy (within body s) = leftBy (close (leftBy (body s))) := by
  cases hbody : body s with
  | ok a s' =>
    rw [leftBy]
    cases hclose : close s' <;> simp only [within, hbody, hclose, leftBy]
  | error e s' =>
    rw [leftBy]
    cases hclose : close s' <;> simp only [within, hbody, hclose, leftBy]

omit [Link κ] in
theorem start_standing {link : κ} {capabilities : Option Datum} {size limit : Int}
    (h : start link capabilities size limit = .ok s) : s.standing = Standing.fresh := by
  rw [start] at h
  cases hc : Hello.gatherCapabilities capabilities with
  | error f => rw [hc] at h; cases h
  | ok gathered =>
    cases hw : Window.make size limit with
    | error f => rw [hc, hw] at h; cases h
    | ok window => rw [hc, hw] at h; cases h; rfl

end Session

/-- An operation moves a session by the milestone that it leaves, and by nothing else. -/
theorem Operation.standing_eq (op : Operation) (s : Session κ) :
    (op.leaves s).standing = (op.milestone? s).toList.foldl Standing.after s.standing := by
  cases op with
  | send payload =>
    obtain ⟨l, hleft⟩ := Session.send_keeps payload s
    exact Session.standing_of_line hleft
  | receive =>
    obtain ⟨l, hleft, -, -⟩ := Session.receive_keeps s
    exact Session.standing_of_line hleft
  | sendHello hello => exact Session.sendHello_standing hello s
  | receiveHello => exact Session.receiveHello_standing s
  | setVersion given => exact Session.setVersion_standing given s
  | close => exact Session.close_standing s

/-! ### Runs -/

/-- A run of operations and of blocks has brought one session to another, and left these
milestones.  The body of a block is any work that leaves a session which a run could have left. -/
inductive Runs : Session κ → List Milestone → Session κ → Prop
  | nothing (s : Session κ) : Runs s [] s
  | operation {s s' : Session κ} {log : List Milestone} (h : Runs s log s') (op : Operation) :
    Runs s (log ++ (op.milestone? s').toList) (op.leaves s')
  | block {s s' : Session κ} {log inner : List Milestone} {α : Type} (h : Runs s log s')
    (body : SessionTask κ α) (hbody : Runs s' inner (leftBy (body s'))) :
    Runs s (log ++ (inner ++ [.closed])) (leftBy (Session.within body s'))

namespace Runs

variable {s s' : Session κ} {log : List Milestone}

/-- A run moves a session by the milestones that it leaves. -/
theorem standing_eq (h : Runs s log s') :
    s'.standing = log.foldl Standing.after s.standing := by
  induction h with
  | nothing s => rfl
  | operation h op ih => rw [op.standing_eq, ih, List.foldl_append]
  | block h body hbody ih ihbody =>
    -- the end of the block is one more milestone, however the body ended
    rw [Session.leftBy_within, Session.close_standing, ihbody, ih, List.foldl_append,
      List.foldl_append]
    rfl

theorem rank_le (h : Runs s log s') : s.phase.rank ≤ s'.phase.rank := by
  have hle := s.standing.rank_le_foldl log
  rw [← h.standing_eq] at hle
  exact hle

end Runs

/-- **Where a session stands is what it has been through.**  It is closed exactly if it was closed
by a call or at the end of a block; an open session has negotiated a version exactly if one was
chosen, and otherwise has exchanged introductions exactly if it holds both.  The last version that
was chosen is in force, the last introductions are held, and the session never falls back. -/
theorem Session.standing_of_run {link : κ} {capabilities : Option Datum} {size limit : Int}
    {s₀ s : Session κ} {log : List Milestone}
    (hstart : start link capabilities size limit = .ok s₀) (hrun : Runs s₀ log s) :
    (s.phase = .closed ↔ .closed ∈ log) ∧
      (s.phase = .negotiated ↔ .closed ∉ log ∧ ∃ v, .chose v ∈ log) ∧
      (s.phase = .helloExchanged ↔ .closed ∉ log ∧ (∀ v, .chose v ∉ log) ∧
        s.localHello.isSome ∧ s.remoteHello.isSome) ∧
      (s.phase = .uninitialized ↔ .closed ∉ log ∧ (∀ v, .chose v ∉ log) ∧
        ¬ (s.localHello.isSome ∧ s.remoteHello.isSome)) ∧
      s.version = (log.filterMap Milestone.version?).getLast?.getD .base10 ∧
      s.localHello = (log.filterMap Milestone.introduced?).getLast? ∧
      s.remoteHello = (log.filterMap Milestone.met?).getLast? ∧
      ∀ more s', Runs s more s' →
        s.phase.rank ≤ s'.phase.rank ∧ (s.phase = .closed → s'.phase = .closed) := by
  have hstanding := hrun.standing_eq
  rw [start_standing hstart] at hstanding
  obtain ⟨hclosed, hnegotiated⟩ := Standing.late_foldl log
  have hexchanged := Standing.helloExchanged_foldl log
  have hfields := Standing.fields_foldl log
  rw [← hstanding] at hclosed hnegotiated hexchanged hfields
  obtain ⟨hversion, hlocal, hremote⟩ := hfields
  refine ⟨hclosed, hnegotiated, hexchanged, ?_, hversion, hlocal, hremote, ?_⟩
  · have hfirst : s.phase = .uninitialized ↔ _ := Phase.eq_uninitialized_iff
    change s.phase = _ ↔ _ at hclosed hnegotiated hexchanged
    rw [hclosed, hnegotiated, hexchanged] at hfirst
    change s.phase = .uninitialized ↔ _ ∧ _ ∧ ¬ (_ ∧ _ ∧ s.localHello.isSome ∧ s.remoteHello.isSome)
      at hfirst
    grind
  · intro more s' hmore
    exact ⟨hmore.rank_le, Phase.eq_closed_of_rank hmore.rank_le⟩

/-- A session chooses base 1.1 in a block that fails, over a link that cannot be closed well, and
base 1.0 after it. -/
theorem Session.standing_of_run_block :
    ∃ s₀ s : Session Script,
      start (Script.fresh [] false [] (some Script.closedFault)) none Window.defaultSize
        Window.defaultLimit = .ok s₀ ∧
      Runs s₀ [.chose .base11, .closed, .chose .base10] s ∧
      s.phase = .closed ∧ s.version = .base10 := by
  obtain ⟨s₀, hstart⟩ : ∃ s₀, start (Script.fresh [] false [] (some Script.closedFault)) none
      Window.defaultSize Window.defaultLimit = .ok s₀ := ⟨_, rfl⟩
  have hbody := ((Runs.nothing s₀).operation (.setVersion (.text "1.1"))).operation (.send .null)
  have hblock := (Runs.nothing s₀).block (setVersion (.text "1.1") >>= fun _ => send .null) hbody
  have hrun := hblock.operation (.setVersion (.text "1.0"))
  obtain ⟨hclosed, -, -, -, hversion, -⟩ := standing_of_run hstart hrun
  exact ⟨s₀, _, hstart, hrun, hclosed.mpr (by simp), hversion⟩

end Operations

end NetconfWire
