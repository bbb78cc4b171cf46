/-
Waiting for the end of a frame.

A wait looks at the window, reads, and looks again.  On a flowing link what it
comes to depends only on the octets held and ahead, taken together, and not on
how many of them a read brings:

* `waitFrom_hit` — the frame ends with the first occurrence of the delimiter,
  and what follows is held or ahead as before;
* `waitFrom_miss` — without one the wait ends with the stream, and everything
  is held.
-/
import NetconfWire.Proofs.Flow
import NetconfWire.Proofs.Occurrence
import NetconfWire.Window.Line

namespace NetconfWire

/-- The state that some work leaves, whether or not it fails. -/
def leftBy {ε σ α : Type} : EStateM.Result ε σ α → σ
  | .ok _ s => s
  | .error _ s => s

namespace Line

variable {κ α : Type} [Link κ]

/-! ### One look -/

section Look

variable {boundary : Boundary α} {searched : Nat} {l : Line κ}

theorem waitFrom_found {stop : Int} {found : α}
    (h : boundary l.window.held searched = .ok (some (stop, found))) :
    waitFrom boundary searched l = .ok ((l.window.cut stop).1, found)
      { l.look searched with window := (l.window.cut stop).2 } := by
  rw [waitFrom, h]

theorem waitFrom_refused {f : Fault} (h : boundary l.window.held searched = .error f) :
    waitFrom boundary searched l = .error f (l.look searched) := by
  rw [waitFrom, h]

theorem waitFrom_tooLarge (h : boundary l.window.held searched = .ok none)
    (hlimit : l.window.limit < l.window.held.length) :
    waitFrom boundary searched l
      = .error (.frameTooLarge l.window.held.length l.window.limit) (l.look searched) := by
  rw [waitFrom, h]
  exact if_pos hlimit

theorem waitFrom_read {link : κ} {x : UInt8} {rest : Octets}
    (h : boundary l.window.held searched = .ok none)
    (hlimit : l.window.held.length ≤ l.window.limit)
    (hread : Link.receive l.window.quantum l.link = (.ok (x :: rest), link)) :
    waitFrom boundary searched l
      = waitFrom boundary l.window.held.length ((l.look searched).take link (x :: rest)) := by
  rw [waitFrom, h]
  simp only [if_neg (Nat.not_lt.mpr hlimit), hread]

theorem waitFrom_ended {link : κ} (h : boundary l.window.held searched = .ok none)
    (hlimit : l.window.held.length ≤ l.window.limit)
    (hread : Link.receive l.window.quantum l.link = (.ok [], link)) :
    waitFrom boundary searched l = .error (.frameIncomplete l.window.held.length)
      (({ l.look searched with link }).note (.streamEnded l.window.held.length)) := by
  rw [waitFrom, h]
  simp only [if_neg (Nat.not_lt.mpr hlimit), hread]

theorem waitFrom_failed {link : κ} {f : LinkFault}
    (h : boundary l.window.held searched = .ok none)
    (hlimit : l.window.held.length ≤ l.window.limit)
    (hread : Link.receive l.window.quantum l.link = (.error f, link)) :
    waitFrom boundary searched l = .error f.fault { l.look searched with link } := by
  rw [waitFrom, h]
  simp only [if_neg (Nat.not_lt.mpr hlimit), hread]

end Look

/-! ### What a wait keeps -/

/-- What every read of a link keeps, a wait keeps. -/
theorem waitFrom_link {P : κ → Prop} (hP : ∀ size k, P k → P (Link.receive size k).2)
    (boundary : Boundary α) (searched : Nat) (l : Line κ) (h : P l.link) :
    P (leftBy (waitFrom boundary searched l)).link := by
  have hread := hP l.window.quantum l.link h
  fun_induction waitFrom boundary searched l with
  | case1 => exact h
  | case2 => exact h
  | case3 => exact h
  | case4 _ _ _ _ _ _ _ hf => rw [hf] at hread; exact hread
  | case5 _ _ _ _ _ _ he => rw [he] at hread; exact hread
  | case6 _ l _ _ _ link x rest hr ih =>
    rw [hr] at hread
    exact ih hread (hP _ _ hread)

/-- A wait leaves the settings of the window as they are. -/
theorem waitFrom_settings (boundary : Boundary α) (searched : Nat) (l : Line κ) :
    (leftBy (waitFrom boundary searched l)).window.limit = l.window.limit ∧
      (leftBy (waitFrom boundary searched l)).window.quantum = l.window.quantum := by
  fun_induction waitFrom boundary searched l with
  | case2 _ l stop _ _ frame window hcut =>
    have hwindow : window = (l.window.cut stop).2 := by rw [hcut]
    rw [hwindow]
    exact ⟨rfl, rfl⟩
  | case6 _ _ _ _ _ _ _ _ _ ih => exact ih
  | _ => exact ⟨rfl, rfl⟩

/-! ### Waiting on a flowing link -/

variable [Flow κ]

/-- The octets that are held, and those that reads have yet to give. -/
def ahead (l : Line κ) : Octets :=
  l.window.held ++ Flow.ahead l.link

section Flowing

variable {delimiter : Octets} {l : Line κ} {searched k : Nat}

omit [Link κ] [Flow κ] in
/-- The delimiter is sought again where it can lie behind what was searched before. -/
theorem held_take (hmissing : Octets.find? delimiter l.window.held = none) (link : κ)
    (searched : Nat) (b : Octets) :
    l.window.held.length ≤ ((l.look searched).take link b).window.held.length ∧
      ¬ delimiter <:+:
        ((l.look searched).take link b).window.held.take l.window.held.length := by
  show l.window.held.length ≤ (l.window.held ++ b).length ∧
    ¬ delimiter <:+: (l.window.held ++ b).take l.window.held.length
  rw [List.length_append, List.take_left]
  exact ⟨Nat.le_add_right _ _, Octets.find?_eq_none_iff_not_infix.mp hmissing⟩

/-- What a read gives was ahead before. -/
theorem ahead_take {link : κ} {b : Octets} (hahead : Flow.ahead l.link = b ++ Flow.ahead link)
    (searched : Nat) : ((l.look searched).take link b).ahead = l.ahead := by
  show (l.window.held ++ b) ++ Flow.ahead link = _
  rw [ahead, hahead, List.append_assoc]

theorem ahead_shorter {link : κ} {x : UInt8} {rest : Octets}
    (hahead : Flow.ahead l.link = x :: rest ++ Flow.ahead link) :
    (Flow.ahead link).length < (Flow.ahead l.link).length := by
  rw [hahead, List.length_append, List.length_cons]
  omega

omit [Flow κ] in
/-- A delimiter that is held is found. -/
theorem waitFrom_held (hd : delimiter ≠ []) (hle : searched ≤ l.window.held.length)
    (hs : ¬ delimiter <:+: l.window.held.take searched)
    (hk : Octets.find? delimiter l.window.held = some k) :
    waitFrom (Boundary.ofDelimiter delimiter) searched l
      = .ok (l.window.held.take (k + delimiter.length), ())
        { l.look searched with
          window := { l.window with held := l.window.held.drop (k + delimiter.length) } } := by
  have hlook := Octets.ofDelimiter_eq hd hle hs
  rw [hk] at hlook
  have hplace : l.window.held.placeOf ((k + delimiter.length : Nat) : Int)
      = k + delimiter.length := by
    rw [Octets.placeOf, if_neg (by omega), Int.toNat_natCast,
      Nat.min_eq_left (Octets.find?_le_length hd hk)]
  rw [waitFrom_found hlook, Window.cut, hplace]

/-- The frame ends with the first occurrence of the delimiter, however the stream is cut into
reads. -/
theorem waitFrom_hit (hd : delimiter ≠ []) (hruns : Flow.Runs l.link)
    (hquantum : 0 < l.window.quantum) (hle : searched ≤ l.window.held.length)
    (hs : ¬ delimiter <:+: l.window.held.take searched)
    (hk : Octets.find? delimiter l.ahead = some k)
    (hlimit : k + delimiter.length ≤ l.window.limit + 1) :
    ∃ l', waitFrom (Boundary.ofDelimiter delimiter) searched l
        = .ok (l.ahead.take (k + delimiter.length), ()) l' ∧
      l'.ahead = l.ahead.drop (k + delimiter.length) ∧ Flow.Runs l'.link := by
  -- the induction is on what the link has yet to give
  induction hn : (Flow.ahead l.link).length using Nat.strongRecOn generalizing l searched with
  | _ n ih =>
    cases hheld : Octets.find? delimiter l.window.held with
    | some j =>
      have hjk : j = k := by
        have := Octets.find?_append (x := Flow.ahead l.link) hd hheld
        rw [← ahead, hk] at this
        exact (Option.some.inj this).symm
      subst hjk
      have hend := Octets.find?_le_length hd hheld
      rw [waitFrom_held hd hle hs hheld, ahead, List.take_append_of_le_length hend,
        List.drop_append_of_le_length hend]
      exact ⟨_, rfl, rfl, hruns⟩
    | none =>
      have hlook := Octets.ofDelimiter_eq_none hd hle hheld
      -- the occurrence ends beyond what is held, so the window is within its limit
      have hbeyond : l.window.held.length < k + delimiter.length := by
        by_contra hge
        have := Octets.find?_of_append hk (by omega)
        rw [hheld] at this
        cases this
      have hend := Octets.find?_le_length hd hk
      rw [ahead, List.length_append] at hend
      obtain ⟨b, link, hread, hruns', hahead, hnil⟩ :=
        Flow.receive_eq (Int.natCast_pos.mpr hquantum) hruns
      rcases b with _ | ⟨x, rest⟩
      · -- the stream cannot end before the occurrence does
        rw [hnil rfl, List.length_nil] at hend
        omega
      · have hsame := ahead_take hahead searched
        obtain ⟨hle', hs'⟩ := held_take hheld link searched (x :: rest)
        rw [waitFrom_read hlook (by omega) hread, ← hsame]
        rw [← hsame] at hk
        exact ih _ (hn ▸ ahead_shorter hahead) hruns' hquantum hle' hs' hk hlimit rfl

/-- Without the delimiter the wait ends with the stream, and everything is held. -/
theorem waitFrom_miss (hd : delimiter ≠ []) (hruns : Flow.Runs l.link)
    (hquantum : 0 < l.window.quantum) (hle : searched ≤ l.window.held.length)
    (hs : ¬ delimiter <:+: l.ahead) (hlimit : l.ahead.length ≤ l.window.limit) :
    ∃ l', waitFrom (Boundary.ofDelimiter delimiter) searched l
        = .error (.frameIncomplete l.ahead.length) l' ∧
      l'.window.held = l.ahead ∧ l'.ahead = l.ahead ∧ Flow.Runs l'.link := by
  -- the induction is the same; the window never grows beyond what lay ahead at first
  induction hn : (Flow.ahead l.link).length using Nat.strongRecOn generalizing l searched with
  | _ n ih =>
    have hheld : ¬ delimiter <:+: l.window.held := fun h =>
      hs (h.trans (List.prefix_append _ _).isInfix)
    have hmissing := Octets.find?_eq_none_iff_not_infix.mpr hheld
    have hlook := Octets.ofDelimiter_eq_none hd hle hmissing
    have hwithin : l.window.held.length ≤ l.window.limit := by
      rw [ahead, List.length_append] at hlimit
      omega
    obtain ⟨b, link, hread, hruns', hahead, hnil⟩ :=
      Flow.receive_eq (Int.natCast_pos.mpr hquantum) hruns
    rcases b with _ | ⟨x, rest⟩
    · have hall : l.ahead = l.window.held := by rw [ahead, hnil rfl, List.append_nil]
      rw [hall, waitFrom_ended hlook hwithin hread]
      refine ⟨_, rfl, rfl, ?_, hruns'⟩
      rw [List.nil_append] at hahead
      show l.window.held ++ Flow.ahead link = _
      rw [← hahead, hnil rfl, List.append_nil]
    · have hsame := ahead_take hahead searched
      rw [waitFrom_read hlook hwithin hread]
      rw [← hsame] at hs hlimit ⊢
      exact ih _ (hn ▸ ahead_shorter hahead) hruns' hquantum
        (held_take hmissing link searched (x :: rest)).1 hs hlimit rfl

end Flowing

end Line

end NetconfWire
