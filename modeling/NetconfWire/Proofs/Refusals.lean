/-
What receiving fails with.

A session that receives is at the mercy of its peer, and a caller must know what to
expect of it: a message, a failure of the link as it is, or a fault of framing.  What
a peer sends can make it fail in one other way only, with a chunk whose length is
written with more digits than are read:

* `Chunk.decode_of_overlong`, `Chunk.framing_or_overlong` — a frame with such a length
  is refused as no numeral, and every other refusal is a fault of framing;
* `Line.waitFrom_ofDelimiter` — a wait for a delimiter fails with a fault of framing, or
  with that of its last read;
* `Session.receive_foreseen_iff` — hence receiving comes to what it should exactly if no
  such length is met, in every state of an open session and over every link.
-/
import NetconfWire.Proofs.Accounts
import NetconfWire.Proofs.Gaps
import NetconfWire.Proofs.Reception

namespace NetconfWire

/-! ### Lengths with too many digits -/

namespace Chunk

variable {frame line : Octets} {n : Nat}

/-- Reading meets a length of `n` digits, more than are read, behind the chunks that it gathers. -/
def Overlong (frame : Octets) (n : Nat) : Prop :=
  ∃ (cs : List Spaced) (gap line more : Octets),
    frame = cs.flatMap Spaced.octets ++ (gap ++ (marker ++ (line ++ 0x0A :: more))) ∧
    ¬ marker <:+: gap ∧ isLength line = true ∧ line.length = n ∧ Numeral.digitLimit < n

theorem readHeader_tooManyDigits (offset decoded : Nat) (hdigits : isLength line = true)
    (hmany : Numeral.digitLimit < line.length) :
    readHeader offset decoded line = .error (.numeral (.tooManyDigits line.length)) := by
  rw [readHeader, hdigits, if_neg (by decide), if_pos hmany]

/-- A frame with a length of too many digits is refused as no numeral. -/
theorem decode_of_overlong (h : Overlong frame n) :
    decode frame = .error (.numeral (.tooManyDigits n)) := by
  obtain ⟨cs, gap, line, more, hframe, hgap, hdigits, rfl, hmany⟩ := h
  have hroom : terminator.length ≤ (gap ++ (marker ++ (line ++ 0x0A :: more))).length := by
    have hlimit : Numeral.digitLimit = 4300 := rfl
    have hfour : terminator.length = 4 := rfl
    simp only [List.length_append, List.length_cons]
    omega
  have hsign : line ≠ [0x23] := by
    intro h
    rw [h] at hdigits
    exact absurd hdigits (by decide)
  -- the chunks in front of the header are gathered, and the gap is passed over
  have hgather : gather frame = ⟨_, .error (.numeral (.tooManyDigits line.length))⟩ :=
    gatherFrom_of_spaced hframe (.inr hroom) (.stopped hgap (notMem_of_isLength hdigits rfl)
      (.inr ⟨more, rfl⟩) (.refused hsign (readHeader_tooManyDigits _ _ hdigits hmany)))
  rw [decode_eq, hgather]
  rfl

/-- Every other refusal of a frame is a fault of framing. -/
theorem framing_or_overlong {f : Fault} (hend : terminator <:+ frame)
    (h : decode frame = .error f) : f.report.kind.isFraming = true ∨ ∃ n, Overlong frame n := by
  rw [decode_eq] at h
  have hgather := error_of_map h
  have hend' : terminator <:+ frame.drop 0 := hend
  obtain ⟨cs, gap, line, more, hdrop, hgap, -, hstops⟩ := exists_stop [] hend'
  rw [List.drop_zero] at hdrop
  rw [← gather, hgather] at hstops
  cases hstops with
  | overrun => exact .inl rfl
  | refused _ hread =>
    rcases readHeader_error hread with rfl | ⟨hdigits, hmany, rfl⟩
    · exact .inl rfl
    · exact .inr ⟨_, cs, gap, line, more, hdrop, hgap, hdigits, rfl, hmany⟩

/-- A frame of one header only: the marker stands at its end only, whatever the digits are. -/
theorem onlyEnds_header (hdigits : isLength line = true) :
    Octets.OnlyEnds terminator (marker ++ (line ++ 0x0A :: terminator)) := by
  intro k hk
  have hne := (isLength_iff.mp hdigits).1
  have hbehind := le_of_standsAt_terminator hne (notMem_of_isLength hdigits rfl)
    (notMem_of_isLength hdigits rfl) hk
  have hfront : (marker ++ line).length = line.length + 2 := by
    rw [List.length_append, Nat.add_comm]
    rfl
  -- behind the digits there are five octets, of which the last four are the marker
  have hlast : Octets.StandsAt terminator (0x0A :: terminator) (k - (line.length + 2)) := by
    have hdrop : (marker ++ (line ++ 0x0A :: terminator)).drop (line.length + 2)
        = 0x0A :: terminator := by
      rw [← List.append_assoc, ← hfront, List.drop_left]
    rw [← hdrop, Octets.standsAt_drop, Nat.add_sub_cancel' hbehind]
    exact hk
  have hfirst : ¬ Octets.StandsAt terminator (0x0A :: terminator) 0 := by
    simp [Octets.StandsAt, terminator]
  have hne' : k - (line.length + 2) ≠ 0 := by
    intro h
    rw [h] at hlast
    exact hfirst hlast
  have hle := hlast.le_length (by decide)
  have hfour : terminator.length = 4 := rfl
  have htwo : marker.length = 2 := rfl
  simp only [List.length_append, List.length_cons] at hle ⊢
  omega

end Chunk

/-! ### Reads that fail -/

section Reads

variable {κ : Type} [Link κ]

/-- Reads that gave octets have brought a link from one state to the other. -/
inductive Link.Gives (size : Int) : κ → κ → Prop
  | nothing (k : κ) : Gives size k k
  | read {k k' k'' : κ} {x : UInt8} {rest : Octets}
    (h : Link.receive size k = (.ok (x :: rest), k')) (later : Gives size k' k'') :
    Gives size k k''

/-- A read has failed, the first one that gave no octets. -/
def Link.Fails (size : Int) (k : κ) (f : LinkFault) (k' : κ) : Prop :=
  ∃ last, Gives size k last ∧ Link.receive size last = (.error f, k')

/-- A wait for a delimiter gives a frame that ends with it, or fails with a fault of framing or with
that of its last read. -/
theorem Line.waitFrom_ofDelimiter (delimiter : Octets) (searched : Nat) (l : Line κ) :
    match waitFrom (Boundary.ofDelimiter delimiter) searched l with
    | .ok found _ => delimiter <:+ found.1
    | .error f l' => f.report.kind.isFraming = true ∨
        ∃ g, f = g.fault ∧ Link.Fails l.window.quantum l.link g l'.link := by
  fun_induction waitFrom (Boundary.ofDelimiter delimiter) searched l with
  | case1 searched l f h => cases h
  | case2 searched l stop found h frame window hcut =>
    cases hcut
    exact (LastLook.found h).delimiter_suffix
  | case3 => exact .inl rfl
  | case4 searched l h n hlimit f link hread => exact .inr ⟨f, rfl, _, .nothing _, hread⟩
  | case5 => exact .inl rfl
  | case6 searched l h n hlimit x rest link hread ih =>
    -- the reads of the rest of the wait come after this one
    cases hrest : waitFrom (Boundary.ofDelimiter delimiter) n
        ((l.look searched).take link (x :: rest)) with
    | ok found l' =>
      rw [hrest] at ih
      exact ih
    | error f l' =>
      rw [hrest] at ih
      rcases ih with hframing | ⟨g, hg, last, hgives, hfails⟩
      · exact .inl hframing
      · exact .inr ⟨g, hg, last, .read hread hgives, hfails⟩

/-- A wait from the start reads on the same link. -/
theorem Line.waitFor_ofDelimiter (delimiter : Octets) (l : Line κ) :
    match waitFor (Boundary.ofDelimiter delimiter) l with
    | .ok found _ => delimiter <:+ found.1
    | .error f l' => f.report.kind.isFraming = true ∨
        ∃ g, f = g.fault ∧ Link.Fails l.window.quantum l.link g l'.link :=
  waitFrom_ofDelimiter delimiter 0 { l with looks := [] }

end Reads

/-! ### Receiving -/

namespace Session

variable {κ : Type} [Link κ] {s : Session κ}

/-- What callers are told to expect of receiving: a message, a failure of the link as it is, or a
fault of framing. -/
inductive Foreseen (s : Session κ) : EStateM.Result Fault (Session κ) Octets → Prop
  | message (m : Octets) (s' : Session κ) : Foreseen s (.ok m s')
  | link {f : LinkFault} {s' : Session κ}
    (h : Link.Fails s.line.window.quantum s.line.link f s'.line.link) :
    Foreseen s (.error f.fault s')
  | framing {f : Fault} {s' : Session κ} (h : f.report.kind.isFraming = true) :
    Foreseen s (.error f s')

theorem not_foreseen_numeral (why : NumeralFault) (s' : Session κ) :
    ¬ s.Foreseen (.error (.numeral why) s') := by
  intro h
  cases h with
  | framing h => cases h

theorem cut?_receive_of_open (hopen : s.isClosed = false) :
    Call.receive.cut? s = (outcomeOf
      (Line.waitFor (Boundary.ofDelimiter s.version.marker) s.line)).toOption.map Prod.fst := by
  rw [Call.cut?, Call.plan, if_neg (by simp [hopen])]

/-- Receiving comes to what is expected, or to a frame with a length of too many digits. -/
theorem foreseen_or_overlong (hopen : s.isClosed = false) :
    s.Foreseen (receive s) ∨ ∃ frame n, s.version = .base11 ∧
      Call.receive.cut? s = some frame ∧ Chunk.Overlong frame n := by
  obtain ⟨notes, hreceive⟩ := receive_eq hopen
  have hwait := Line.waitFor_ofDelimiter s.version.marker s.line
  rw [cut?_receive_of_open hopen, hreceive]
  cases hw : Line.waitFor (Boundary.ofDelimiter s.version.marker) s.line with
  | error f l =>
    rw [hw] at hwait
    left
    rcases hwait with hframing | ⟨g, rfl, hfails⟩
    · exact .framing hframing
    · exact .link hfails
  | ok found l =>
    rw [hw] at hwait
    cases hunwrap : s.version.unwrap found.1 with
    | ok message =>
      left
      simp only [hunwrap]
      exact .message _ _
    | error f =>
      simp only [hunwrap]
      cases hversion : s.version with
      | base10 =>
        rw [hversion] at hunwrap
        cases hunwrap
      | base11 =>
        rw [hversion] at hunwrap hwait
        rcases Chunk.framing_or_overlong hwait (error_of_map hunwrap) with hframing | ⟨n, hlong⟩
        · exact .inl (.framing hframing)
        · exact .inr ⟨found.1, n, rfl, rfl, hlong⟩

theorem receive_overlong {frame : Octets} {n : Nat} (hopen : s.isClosed = false)
    (hversion : s.version = .base11) (hcut : Call.receive.cut? s = some frame)
    (h : Chunk.Overlong frame n) :
    ∃ s', receive s = .error (.numeral (.tooManyDigits n)) s' := by
  obtain ⟨notes, hreceive⟩ := receive_eq hopen
  rw [cut?_receive_of_open hopen] at hcut
  cases hw : Line.waitFor (Boundary.ofDelimiter s.version.marker) s.line with
  | error f l =>
    rw [hw] at hcut
    cases hcut
  | ok found l =>
    rw [hw] at hcut hreceive
    cases hcut
    have hunwrap : s.version.unwrap found.1 = .error (.numeral (.tooManyDigits n)) := by
      rw [hversion, Version.unwrap, Chunk.decode_of_overlong h]
      rfl
    simp only [hunwrap] at hreceive
    exact ⟨_, hreceive⟩

/-- **Receiving fails as it should, unless a chunk has a length of too many digits.**  An open session
gives a message, or fails with the fault of its link or with a fault of framing, exactly if the frame
that it cuts off has no such length.  If it has one, the refusal of the numeral reaches the caller. -/
theorem receive_foreseen_iff (hopen : s.isClosed = false) :
    (s.Foreseen (receive s) ↔ ¬ ∃ frame n, s.version = .base11 ∧
      Call.receive.cut? s = some frame ∧ Chunk.Overlong frame n) ∧
    ∀ frame n, s.version = .base11 → Call.receive.cut? s = some frame →
      Chunk.Overlong frame n →
      (Fault.numeral (.tooManyDigits n)).report.kind = .value ∧
      ∃ s', receive s = .error (.numeral (.tooManyDigits n)) s' := by
  refine ⟨⟨?_, fun h => (foreseen_or_overlong hopen).resolve_right h⟩, ?_⟩
  · rintro hforeseen ⟨frame, n, hversion, hcut, hlong⟩
    obtain ⟨s', hreceive⟩ := receive_overlong hopen hversion hcut hlong
    rw [hreceive] at hforeseen
    exact not_foreseen_numeral _ _ hforeseen
  · intro frame n hversion hcut hlong
    exact ⟨rfl, receive_overlong hopen hversion hcut hlong⟩

/-- A length of too many digits is refused however its frame comes in. -/
theorem receive_overlongHeader [Flow κ] {digits rest : Octets} {n : Nat} (hs : s.Ready)
    (hversion : s.version = .base11) (hn : digits.length = n) (hmany : Numeral.digitLimit < n)
    (hdigits : Chunk.isLength digits = true)
    (hahead : s.line.ahead = Chunk.marker ++ (digits ++ 0x0A :: Chunk.terminator) ++ rest)
    (hlimit : n + 7 ≤ s.line.window.limit) :
    ∃ s', receive s = .error (.numeral (.tooManyDigits n)) s' := by
  have hlong : Chunk.Overlong (Chunk.marker ++ (digits ++ 0x0A :: Chunk.terminator)) n :=
    ⟨[], [], digits, Chunk.terminator, rfl, by decide, hdigits, hn, hmany⟩
  have hmarker : Chunk.terminator <:+ Chunk.marker ++ (digits ++ 0x0A :: Chunk.terminator) :=
    ⟨Chunk.marker ++ (digits ++ [0x0A]), by simp⟩
  have hroom : (Chunk.marker ++ (digits ++ 0x0A :: Chunk.terminator)).length
      ≤ s.line.window.limit := by
    simp only [List.length_append, List.length_cons, Chunk.marker, Chunk.terminator,
      List.length_nil]
    omega
  obtain ⟨l, -, -, hreceive⟩ := receive_frame hs (by rw [hversion]; exact hmarker)
    (by rw [hversion]; exact Chunk.onlyEnds_header hdigits) hahead hroom
  rw [hversion, Version.unwrap, Chunk.decode_of_overlong hlong] at hreceive
  exact ⟨_, hreceive⟩

/-- A base 1.0 session whose link gives an octet and then fails with a timeout. -/
theorem receive_foreseen_timedOut :
    ∃ s : Session Script, start (Script.fresh [.gives [0x61], .fails ⟨.timedOut, "timed out"⟩]
        false [] none) none Window.defaultSize Window.defaultLimit = .ok s ∧
      s.isClosed = false ∧ s.Foreseen (receive s) := by
  refine ⟨_, rfl, rfl, (receive_foreseen_iff rfl).1.mpr ?_⟩
  rintro ⟨frame, n, hversion, -⟩
  cases hversion

/-- A chunk whose length has 4301 digits makes receiving fail with a fault that is none of those. -/
theorem receive_overlong_ones :
    ∃ s s', setVersion (.text "v1.1") (Reception.ofParts [Chunk.marker
        ++ (List.replicate 4301 0x31 ++ 0x0A :: Chunk.terminator)] (by decide)).session
        = .ok () s ∧
      s.isClosed = false ∧
      receive s = .error (.numeral (.tooManyDigits 4301)) s' ∧ ¬ s.Foreseen (receive s) := by
  have hgiven : Frame.version (.text "v1.1") = .ok .base11 := rfl
  obtain ⟨s, hchoice, hready, hversion, hahead, hwindow⟩ := (Reception.ofParts [Chunk.marker
    ++ (List.replicate 4301 0x31 ++ 0x0A :: Chunk.terminator)] (by decide)).ready_setVersion hgiven
  have hlimit : s.line.window.limit = Window.defaultLimit := Int.ofNat_inj.mp hwindow
  rw [List.flatten_singleton] at hahead
  have hn : (List.replicate 4301 (0x31 : UInt8)).length = 4301 := List.length_replicate
  have hdigits : Chunk.isLength (List.replicate 4301 0x31) = true := by
    refine Chunk.isLength_iff.mpr ⟨List.ne_nil_of_length_pos (by rw [hn]; decide), fun x hx => ?_⟩
    rw [List.eq_of_mem_replicate hx]
    rfl
  obtain ⟨s', hreceive⟩ := receive_overlongHeader hready hversion hn (by decide) hdigits
    (by rw [hahead, List.append_nil]) (by rw [hlimit]; decide)
  refine ⟨s, s', hchoice, hready.isOpen, hreceive, ?_⟩
  rw [hreceive]
  exact not_foreseen_numeral _ _

end Session

end NetconfWire
