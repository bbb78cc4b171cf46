/-
Interruptions.

A call is interrupted when its link fails, or when a read gives nothing.  Whoever
makes the same call again after that sees the interruption as one more outcome in
between.  If it is all that differs, the run *stutters*: apart from the interruptions,
it has the outcomes of another run, in which the reads that gave nothing are left out.

* `Stutters.settled_among`, `Stutters.settled_reached` — a run that stutters settles
  on the outcomes of the run that does not, and falls behind it by so many attempts
  at most as it has reads in vain;
* `Script.Smooths.receive` — a read of a script, and of the script without the reads
  in vain;
* `Chunk.interrupts_of_decode`, `Line.interrupts_of_patternBoundary` — what is wrong
  with a frame or with a call is no interruption.
-/
import NetconfWire.Proofs.Calls
import NetconfWire.Proofs.Flow

namespace NetconfWire

/-! ### Runs that stutter -/

/-- The link has failed, or the stream has ended for this time. -/
def Fault.interrupts : Fault → Bool
  | .frameIncomplete _ => true
  | .foreign _ _ => true
  | _ => false

/-- The outcome is an interruption. -/
def interrupted {α : Type} : Except Fault α → Bool
  | .ok _ => false
  | .error f => f.interrupts

theorem interrupted_bind {α β : Type} {outcome : Except Fault α} {f : α → Except Fault β}
    (h : interrupted outcome = true) : interrupted (outcome.bind f) = true := by
  cases outcome with
  | ok a => cases h
  | error e => exact h

/-- The outcomes other than interruptions. -/
def settled {α : Type} (outcomes : List (Except Fault α)) : List (Except Fault α) :=
  outcomes.filter fun outcome => !interrupted outcome

/-- From related states the work comes to the same, or it is interrupted from the second state,
which happens no more often than that state has `patience` for. -/
def Stutters {σ α : Type} (x : EStateM Fault σ α) (related : σ → σ → Prop) (patience : σ → Nat) :
    Prop :=
  ∀ ⦃s₀ s⦄, related s₀ s →
    (outcomeOf (x s) = outcomeOf (x s₀) ∧ related (leftBy (x s₀)) (leftBy (x s)) ∧
      patience (leftBy (x s)) ≤ patience s) ∨
    (interrupted (outcomeOf (x s)) = true ∧ related s₀ (leftBy (x s)) ∧
      patience (leftBy (x s)) < patience s)

section Stuttering

variable {σ α : Type} {x : EStateM Fault σ α}

theorem attempts_mono (x : EStateM Fault σ α) (n : Nat) (s : σ) :
    (attempts x n s).1 <+: (attempts x (n + 1) s).1 := by
  induction n generalizing s with
  | zero => exact List.nil_prefix
  | succ n ih => exact (List.prefix_cons_inj _).mpr (ih _)

theorem settled_cons (outcome : Except Fault α) (outcomes : List (Except Fault α)) :
    settled (outcome :: outcomes)
      = if interrupted outcome then settled outcomes else outcome :: settled outcomes := by
  cases h : interrupted outcome <;> simp [settled, h]

theorem settled_cons_mono {outcomes outcomes' : List (Except Fault α)}
    (outcome : Except Fault α) (h : settled outcomes <+: settled outcomes') :
    settled (outcome :: outcomes) <+: settled (outcome :: outcomes') := by
  rw [settled_cons, settled_cons]
  split
  · exact h
  · exact (List.prefix_cons_inj _).mpr h

variable {related : σ → σ → Prop} {patience : σ → Nat} {s₀ s : σ}

/-- The outcomes of a run that stutters are among the first ones of the run that does not. -/
theorem Stutters.settled_among (hx : Stutters x related patience) (n : Nat) (h : related s₀ s) :
    settled (attempts x n s).1 <+: settled (attempts x n s₀).1 := by
  induction n generalizing s₀ s with
  | zero => exact List.nil_prefix
  | succ n ih =>
    rw [attempts]
    obtain ⟨hsame, hrelated, -⟩ | ⟨hinterrupted, hrelated, -⟩ := hx h
    · rw [attempts, hsame]
      exact settled_cons_mono _ (ih hrelated)
    · -- the other run waits for this one with its next attempt
      rw [settled_cons, if_pos hinterrupted]
      exact (ih hrelated).trans ((attempts_mono x n s₀).filter _)

/-- With as many further attempts as there is patience it gives all of those. -/
theorem Stutters.settled_reached (hx : Stutters x related patience) {n m : Nat} (h : related s₀ s)
    (hm : n + patience s ≤ m) :
    settled (attempts x n s₀).1 <+: settled (attempts x m s).1 := by
  -- the induction is on the attempts of the run that stutters: each of them either takes the other
  -- run one attempt further or uses up patience
  induction m generalizing n s₀ s with
  | zero =>
    obtain rfl : n = 0 := by omega
    exact List.nil_prefix
  | succ m ih =>
    cases n with
    | zero => exact List.nil_prefix
    | succ n =>
      rw [attempts.eq_def x (m + 1)]
      obtain ⟨hsame, hrelated, hpatience⟩ | ⟨hinterrupted, hrelated, hpatience⟩ := hx h
      · rw [attempts, ← hsame]
        exact settled_cons_mono _ (ih hrelated (by omega))
      · simp only [settled_cons, if_pos hinterrupted]
        exact ih hrelated (by omega)

end Stuttering

/-! ### Scripts with reads in vain -/

/-- A read that gives no octets. -/
def ScriptedRead.inVain (r : ScriptedRead) : Bool :=
  r.octets.isEmpty

namespace Script

/-- The script without the reads in vain. -/
def smooth (k : Script) : Script :=
  { k with reads := k.reads.filter fun r => !r.inVain }

/-- How many reads will be in vain. -/
def vain (k : Script) : Nat :=
  k.reads.countP ScriptedRead.inVain

/-- The first script gives what the second one gives, without its reads in vain. -/
structure Smooths (k₀ k : Script) : Prop where
  reads : k₀.reads = k.reads.filter fun r => !r.inVain
  metered : k₀.metered = k.metered
  isClosed : k₀.isClosed = k.isClosed

theorem smooths_smooth (k : Script) : Smooths k.smooth k := ⟨rfl, rfl, rfl⟩

section Receive

variable (size : Int) {k₀ k : Script} {r : ScriptedRead} {b : Octets} {later : List ScriptedRead}

theorem receive_of_closed (h : k.isClosed = true) :
    Link.receive size k = (.error closedFault, k) :=
  if_pos h

theorem receive_done (hopen : k.isClosed = false) (h : k.reads = []) :
    Link.receive size k = (.ok [], { k with calls := .received size :: k.calls }) := by
  show receive size k = _
  simp only [receive, hopen, h, Bool.false_eq_true, if_false]

theorem receive_inVain (hopen : k.isClosed = false) (h : k.reads = r :: later)
    (hr : r.inVain = true) :
    ∃ outcome, Link.receive size k
        = (outcome, { k with reads := later, calls := .received size :: k.calls }) ∧
      ∀ b, outcome = .ok b → b = [] := by
  show ∃ outcome, receive size k = _ ∧ _
  simp only [receive, hopen, h, Bool.false_eq_true, if_false]
  cases r with
  | nothing => exact ⟨.ok [], rfl, fun b hb => by cases hb; rfl⟩
  | fails f => exact ⟨.error f, rfl, fun b hb => by cases hb⟩
  | gives b =>
    obtain rfl : b = [] := List.isEmpty_iff.mp hr
    simp only [List.length_nil, Nat.not_lt_zero, decide_false, Bool.and_false, Bool.false_eq_true,
      if_false]
    exact ⟨.ok [], rfl, fun b hb => by cases hb; rfl⟩

theorem receive_gives (hopen : k.isClosed = false) (h : k.reads = .gives b :: later) :
    Link.receive size k
      = if k.metered = true ∧ size.toNat < b.length then
          (.ok (b.take size.toNat), { k with reads := .gives (b.drop size.toNat) :: later
                                             calls := .received size :: k.calls })
        else (.ok b, { k with reads := later, calls := .received size :: k.calls }) := by
  show receive size k = _
  simp only [receive, hopen, h, Bool.false_eq_true, if_false, Bool.and_eq_true, decide_eq_true_eq]

/-- A read of both scripts comes to the same, unless that of the second one is in vain. -/
theorem Smooths.receive (h : Smooths k₀ k) :
    ((Link.receive size k₀).1 = (Link.receive size k).1 ∧
      Smooths (Link.receive size k₀).2 (Link.receive size k).2 ∧
      (Link.receive size k).2.vain ≤ k.vain) ∨
    ((∀ b, (Link.receive size k).1 = .ok b → b = []) ∧ Smooths k₀ (Link.receive size k).2 ∧
      (Link.receive size k).2.vain < k.vain) := by
  by_cases hclosed : k.isClosed = true
  · left
    rw [receive_of_closed size hclosed, receive_of_closed size (h.isClosed.trans hclosed)]
    exact ⟨rfl, h, Nat.le_refl _⟩
  have hopen : k.isClosed = false := Bool.eq_false_iff.mpr hclosed
  have hopen₀ : k₀.isClosed = false := h.isClosed.trans hopen
  have hreads₀ := h.reads
  cases hreads : k.reads with
  | nil =>
    left
    rw [hreads, List.filter_nil] at hreads₀
    rw [receive_done size hopen hreads, receive_done size hopen₀ hreads₀]
    exact ⟨rfl, ⟨h.reads, h.metered, h.isClosed⟩, Nat.le_refl _⟩
  | cons r later =>
    rw [hreads] at hreads₀
    by_cases hr : r.inVain = true
    · -- only the second script comes closer to its next octets
      right
      obtain ⟨outcome, hreceive, hnil⟩ := receive_inVain size hopen hreads hr
      rw [List.filter_cons_of_neg (by simp [hr])] at hreads₀
      rw [hreceive, vain, vain, hreads, List.countP_cons_of_pos hr]
      exact ⟨hnil, ⟨hreads₀, h.metered, h.isClosed⟩, Nat.lt_succ_self _⟩
    · left
      rw [List.filter_cons_of_pos (by simp [hr])] at hreads₀
      cases r with
      | nothing => exact absurd rfl hr
      | fails f => exact absurd rfl hr
      | gives b =>
        rw [receive_gives size hopen hreads, receive_gives size hopen₀ hreads₀, h.metered, vain,
          vain, hreads, List.countP_cons_of_neg hr]
        split
        · next hcut =>
          -- what is left of the item is not empty, so that it stays in both scripts
          have hleft : ¬ ScriptedRead.inVain (.gives (b.drop size.toNat)) = true := by
            rw [ScriptedRead.inVain, ScriptedRead.octets, List.isEmpty_iff, List.drop_eq_nil_iff]
            omega
          refine ⟨rfl, ⟨?_, rfl, h.isClosed⟩, ?_⟩
          · rw [List.filter_cons_of_pos (by simp [hleft])]
          · rw [List.countP_cons_of_neg hleft]
        · exact ⟨rfl, ⟨rfl, rfl, h.isClosed⟩, Nat.le_refl _⟩

end Receive

end Script

/-! ### Faults that do not interrupt -/

/-- Faults of chunks are no interruptions. -/
theorem Chunk.interrupts_of_readHeader {offset decoded : Nat} {header : Octets} {f : Fault}
    (h : readHeader offset decoded header = .error f) : f.interrupts = false := by
  rw [readHeader] at h
  split_ifs at h <;> cases h <;> rfl

theorem Chunk.interrupts_of_decode {frame : Octets} {f : Fault} (h : decode frame = .error f) :
    f.interrupts = false := by
  have hfrom : ∀ stop buffer decoded i,
      (reassembleFrom stop buffer decoded i).outcome = .error f → f.interrupts = false := by
    intro stop buffer decoded i
    fun_induction reassembleFrom stop buffer decoded i with
    | case3 buffer decoded i hmore gap hgap offset endOfHeader header hmark e hheader =>
      intro h
      cases h
      exact interrupts_of_readHeader hheader
    | case4 =>
      intro h
      cases h
      rfl
    | case5 _ _ _ _ _ _ _ _ _ _ _ _ _ _ ih => exact ih
    | _ => exact fun h => by cases h
  exact hfrom _ _ _ _ (error_of_map h)

theorem Version.interrupts_of_unwrap {v : Version} {frame : Octets} {f : Fault}
    (h : v.unwrap frame = .error f) : f.interrupts = false := by
  cases v with
  | base10 => cases h
  | base11 => exact Chunk.interrupts_of_decode (error_of_map h)

theorem Line.interrupts_of_patternBoundary {given : Datum} {f : Fault}
    (h : patternBoundary given = .error f) : f.interrupts = false := by
  revert h
  fun_cases patternBoundary given with
  | case2 | case4 => intro h; cases h; rfl
  | case5 =>
    intro h
    cases h
    split <;> rfl
  | _ => exact fun h => by cases h

end NetconfWire
