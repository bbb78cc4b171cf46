/-
Receiving from a stream that comes in parts.

A fresh session is set on a link that gives a stream in parts of any sizes.  What
it receives is determined by the stream alone:

* `receive_delimited_iff` — a base 1.0 payload without the delimiter comes back
  exactly if it does not end with half of it; else that half is left behind;
* `receive_row_iff` — a row of chunks gives its message exactly if the marker
  stands nowhere but at its end; else it is refused, never misread;
* `receive_sent_iff` — the same for what a session sends as one chunk.
-/
import NetconfWire.Proofs.Ambiguity

namespace NetconfWire

/-- A fresh session over a link that gives a stream in parts, some octets a read. -/
structure Reception (stream : Octets) where
  parts : List Octets
  nil_notMem_parts : [] ∉ parts
  flatten_parts : parts.flatten = stream
  metered : Bool
  sends : List (Option LinkFault)
  closing : Option LinkFault
  capabilities : Option Datum
  size : Int
  limit : Int
  session : Session Script
  starts : Session.start (Script.fresh (parts.map .gives) metered sends closing)
    capabilities size limit = .ok session

namespace Reception

/-- A stream that comes in the given parts, with the settings by default. -/
def ofParts (parts : List Octets) (h : [] ∉ parts) : Reception parts.flatten where
  parts := parts
  nil_notMem_parts := h
  flatten_parts := rfl
  metered := false
  sends := []
  closing := none
  capabilities := none
  size := Window.defaultSize
  limit := Window.defaultLimit
  session := ⟨Line.fresh (Script.fresh (parts.map .gives) false [] none)
    ⟨[], Window.defaultSize / 2, Window.defaultLimit⟩,
    Hello.defaultCapabilities.map .text, .base10, .uninitialized, none, none⟩
  starts := rfl

section Start

variable {stream : Octets} (r : Reception stream)

/-- The session is ready to receive the whole stream, framed for base 1.0. -/
theorem ready : r.session.Ready ∧ r.session.version = .base10 ∧ r.session.line.ahead = stream ∧
    (r.session.line.window.limit : Int) = r.limit := by
  obtain ⟨hlink, hheld, hquantum, hlimit, hversion, hphase⟩ := Session.start_eq r.starts
  have hruns : Flow.Runs r.session.line.link := by
    rw [hlink]
    exact Script.givesOnly_fresh r.nil_notMem_parts _ _ _
  refine ⟨⟨by rw [Session.isClosed, hphase]; rfl, hruns, hquantum⟩, hversion, ?_, hlimit⟩
  rw [Line.ahead, hheld, hlink, List.nil_append]
  exact (Script.unread_fresh _ _ _ _).trans r.flatten_parts

theorem ready_setVersion {given : Datum} {version : Version}
    (hgiven : Frame.version given = .ok version) :
    ∃ s, Session.setVersion given r.session = .ok () s ∧ s.Ready ∧ s.version = version ∧
      s.line.ahead = stream ∧ (s.line.window.limit : Int) = r.limit := by
  obtain ⟨hready, -, hahead, hlimit⟩ := r.ready
  obtain ⟨s, hchoice, hversion, hlink, hwindow, hclosed⟩ :=
    Session.setVersion_of_ok hgiven r.session
  refine ⟨s, hchoice, ⟨by rw [hclosed, hready.isOpen], by rw [hlink]; exact hready.runs,
    by rw [hwindow]; exact hready.quantum_pos⟩, hversion, ?_, by rw [hwindow]; exact hlimit⟩
  rw [Line.ahead, hlink, hwindow]
  exact hahead

end Start

end Reception

namespace Session

/-! ### Base 1.0 -/

/-- A payload in front of half a delimiter is cut off before that half: with the delimiter of its
frame the half forms a delimiter that comes first. -/
theorem delimited_half (front : Octets) :
    Frame.delimited (front ++ Frame.halfDelimiter) = Frame.delimited front ++ Frame.halfDelimiter := by
  rw [Frame.delimited, Frame.delimited, List.append_assoc, List.append_assoc]
  rfl

/-- What remains of a payload without the delimiter when half of one is taken off its end is
unambiguous. -/
theorem unambiguous_of_half {front : Octets}
    (h : ¬ Frame.delimiter <:+: front ++ Frame.halfDelimiter) :
    Frame.Unambiguous .base10 front := by
  constructor
  · exact fun hin => h (hin.trans (List.prefix_append _ _).isInfix)
  · rintro ⟨start, rfl⟩
    refine h ⟨start, [], ?_⟩
    rw [List.append_nil, List.append_assoc]
    rfl

/-- A payload that ends with half a delimiter comes back without it, and it is left behind. -/
theorem receive_delimited_half {s : Session Script} {payload front rest : Octets} (hs : s.Ready)
    (hversion : s.version = .base10) (h : ¬ Frame.delimiter <:+: payload)
    (hahead : s.line.ahead = Frame.delimited payload ++ rest)
    (hlimit : (Frame.delimited payload).length ≤ s.line.window.limit)
    (hfront : payload = front ++ Frame.halfDelimiter) :
    ∃ l, l.ahead = Frame.halfDelimiter ++ rest ∧ receive s = .ok front (s.withLine l) := by
  subst hfront
  rw [delimited_half, List.append_assoc] at hahead
  rw [delimited_half, List.length_append] at hlimit
  obtain ⟨l, hrest, -, hreceive⟩ := receive_encode hs hversion (unambiguous_of_half h) hahead
    (Nat.le_of_add_right_le hlimit)
  exact ⟨l, hrest, hreceive⟩

/-- **Base 1.0 messages come back whole exactly if they do not end with half a delimiter.**  Such a
message comes back without its end, which is left in front of what follows. -/
theorem receive_delimited_iff {payload rest : Octets} (hpayload : ¬ Frame.delimiter <:+: payload)
    (r : Reception (Frame.encode .base10 payload ++ rest))
    (hlimit : ((Frame.encode .base10 payload).length : Int) ≤ r.limit) :
    ((∃ s, receive r.session = .ok payload s ∧ s.line.ahead = rest)
      ↔ ¬ Frame.halfDelimiter <:+ payload) ∧
    ∀ front, payload = front ++ Frame.halfDelimiter →
      ∃ s, receive r.session = .ok front s ∧ s.line.ahead = Frame.halfDelimiter ++ rest := by
  obtain ⟨hready, hversion, hahead, hwindow⟩ := r.ready
  have hroom : (Frame.encode .base10 payload).length ≤ r.session.line.window.limit := by omega
  have hcut : ∀ front, payload = front ++ Frame.halfDelimiter →
      ∃ s, receive r.session = .ok front s ∧ s.line.ahead = Frame.halfDelimiter ++ rest := by
    intro front hfront
    obtain ⟨l, hrest, hreceive⟩ :=
      receive_delimited_half hready hversion hpayload hahead hroom hfront
    exact ⟨_, hreceive, hrest⟩
  refine ⟨⟨?_, fun hend => ?_⟩, hcut⟩
  · -- a payload with such an end comes back shorter than it was
    rintro ⟨s, hs, -⟩ ⟨front, hfront⟩
    obtain ⟨s', hs', -⟩ := hcut front hfront.symm
    have hsame : payload = front := by
      rw [hs] at hs'
      injection hs'
    have hlength := congrArg List.length (hfront.trans hsame)
    have hthree : Frame.halfDelimiter.length = 3 := rfl
    rw [List.length_append] at hlength
    omega
  · have hplain : Frame.Unambiguous .base10 payload := ⟨hpayload, hend⟩
    obtain ⟨l, hrest, -, hreceive⟩ := receive_encode hready hversion hplain hahead hroom
    exact ⟨_, hreceive, hrest⟩

/-- The delimiter of an empty message, and half of it: the payload that is half a delimiter comes
back empty. -/
theorem receive_halfDelimiter :
    ¬ Frame.delimiter <:+: Frame.halfDelimiter ∧
    ∃ s, receive (Reception.ofParts [Frame.encode .base10 Frame.halfDelimiter] (by decide)).session
        = .ok [] s ∧ s.line.ahead = Frame.halfDelimiter := by
  obtain ⟨hready, hversion, hahead, -⟩ :=
    (Reception.ofParts [Frame.encode .base10 Frame.halfDelimiter] (by decide)).ready
  have hhalf : Frame.halfDelimiter = [] ++ Frame.halfDelimiter := rfl
  obtain ⟨l, hrest, hreceive⟩ :=
    receive_delimited_half hready hversion (by decide) hahead (by decide) hhalf
  exact ⟨by decide, _, hreceive, hrest⟩

/-- The message `a]]>]]`, whose delimiter comes in three parts, with an octet behind it. -/
theorem receive_delimited_split :
    ¬ Frame.delimiter <:+: [0x61, 0x5D, 0x5D, 0x3E, 0x5D, 0x5D] ∧
    ∃ s, receive (Reception.ofParts [[0x61, 0x5D, 0x5D, 0x3E, 0x5D, 0x5D, 0x5D],
        [0x5D, 0x3E, 0x5D], [0x5D, 0x3E, 0x62]] (by decide)).session
        = .ok [0x61, 0x5D, 0x5D, 0x3E, 0x5D, 0x5D] s ∧ s.line.ahead = [0x62] :=
  ⟨by decide, (@receive_delimited_iff [0x61, 0x5D, 0x5D, 0x3E, 0x5D, 0x5D] [0x62] (by decide)
    (Reception.ofParts [[0x61, 0x5D, 0x5D, 0x3E, 0x5D, 0x5D, 0x5D],
        [0x5D, 0x3E, 0x5D], [0x5D, 0x3E, 0x62]] (by decide)) (by decide)).1.mpr (by decide)⟩

/-! ### Rows of chunks -/

theorem receive_row {s : Session Script} {cs : List Chunk.Legal} {rest : Octets} (hs : s.Ready)
    (hversion : s.version = .base11) (hahead : s.line.ahead = Chunk.row cs ++ rest)
    (hlimit : (Chunk.row cs).length ≤ s.line.window.limit)
    (honly : Octets.OnlyEnds Chunk.terminator (Chunk.row cs)) :
    ∃ l, l.ahead = rest ∧ receive s = .ok (Chunk.rowMessage cs) (s.withLine l) := by
  obtain ⟨l, hrest, -, hreceive⟩ := receive_frame hs
    (by rw [hversion]; exact Chunk.terminator_suffix_row cs) (by rw [hversion]; exact honly)
    hahead hlimit
  rw [hversion, Version.unwrap_row] at hreceive
  exact ⟨l, hrest, hreceive⟩

/-- Any other row is cut behind the first marker and refused. -/
theorem receive_row_cut {s : Session Script} {cs : List Chunk.Legal} {rest : Octets} (hs : s.Ready)
    (hversion : s.version = .base11) (hahead : s.line.ahead = Chunk.row cs ++ rest)
    (hlimit : (Chunk.row cs).length ≤ s.line.window.limit)
    (hearly : ¬ Octets.OnlyEnds Chunk.terminator (Chunk.row cs)) :
    ∃ n offset length available decoded l,
      Octets.find? Chunk.terminator (Chunk.row cs) = some n ∧
      l.ahead = (Chunk.row cs ++ rest).drop (n + Chunk.terminator.length) ∧
      receive s = .error (.chunkOverrun offset length available decoded) (s.withLine l) := by
  have hne : Chunk.terminator ≠ [] := by decide
  obtain ⟨n, hn⟩ : ∃ n, Octets.find? Chunk.terminator (Chunk.row cs) = some n := by
    rw [← Option.ne_none_iff_exists', Ne, Octets.find?_eq_none_iff_not_infix, not_not]
    exact (Chunk.terminator_suffix_row cs).isInfix
  obtain ⟨hstands, -, hfirst⟩ := Octets.find?_eq_some_iff.mp hn
  have hle := hstands.le_length hne
  have hcut : n + Chunk.terminator.length < (Chunk.row cs).length := by
    by_contra hge
    -- the first marker is the last one, so there is no other
    refine hearly fun j hj => ?_
    have hjle := hj.le_length hne
    have hjn : n ≤ j := by
      by_contra hlt
      exact hfirst j (by omega) hj
    omega
  obtain ⟨l, hrest, -, hreceive⟩ := receive_hit hs (k := n)
    (by rw [hversion, hahead]; exact Octets.find?_append hne hn)
    (by rw [hversion]; exact Nat.le_succ_of_le (hle.trans hlimit))
  obtain ⟨offset, length, available, decoded, hunwrap⟩ := Version.unwrap_row_cut hstands hcut
  have htake : s.version.unwrap (s.line.ahead.take (n + s.version.marker.length))
      = .error (.chunkOverrun offset length available decoded) := by
    rw [hversion, hahead, Version.marker, List.take_append_of_le_length hle, hunwrap]
  rw [htake] at hreceive
  rw [hversion, hahead, Version.marker] at hrest
  exact ⟨n, offset, length, available, decoded, l, hn, hrest, hreceive⟩

/-- **A row of chunks gives its message exactly if the marker stands nowhere but at its end.**  Every
other row is refused as too short behind its first marker, and no row comes to anything else. -/
theorem receive_row_iff (cs : List Chunk.Legal) {rest : Octets}
    (r : Reception (Chunk.row cs ++ rest)) (hlimit : ((Chunk.row cs).length : Int) ≤ r.limit)
    {given : Datum} (hgiven : Frame.version given = .ok .base11) :
    ((∃ s, (do setVersion given; receive) r.session = .ok (Chunk.rowMessage cs) s ∧
        s.line.ahead = rest)
      ↔ Octets.OnlyEnds Chunk.terminator (Chunk.row cs)) ∧
    (¬ Octets.OnlyEnds Chunk.terminator (Chunk.row cs) →
      ∃ n offset length available decoded s,
        Octets.find? Chunk.terminator (Chunk.row cs) = some n ∧
        (do setVersion given; receive) r.session
          = .error (.chunkOverrun offset length available decoded) s ∧
        s.line.ahead = (Chunk.row cs ++ rest).drop (n + Chunk.terminator.length)) ∧
    (∀ message s, (do setVersion given; receive) r.session = .ok message s →
      message = Chunk.rowMessage cs) ∧
    ∀ f s, (do setVersion given; receive) r.session = .error f s →
      ∃ offset length available decoded, f = .chunkOverrun offset length available decoded := by
  obtain ⟨s, hchoice, hready, hversion, hahead, hwindow⟩ := r.ready_setVersion hgiven
  have hroom : (Chunk.row cs).length ≤ s.line.window.limit := by omega
  rw [bind_of_ok hchoice]
  by_cases honly : Octets.OnlyEnds Chunk.terminator (Chunk.row cs)
  · obtain ⟨l, hrest, hreceive⟩ := receive_row hready hversion hahead hroom honly
    rw [hreceive]
    refine ⟨iff_of_true ⟨_, rfl, hrest⟩ honly, fun h => absurd honly h, ?_, ?_⟩
    · rintro message s' h
      injection h with h
      exact h.symm
    · rintro f s' h
      cases h
  · obtain ⟨n, offset, length, available, decoded, l, hn, hrest, hreceive⟩ :=
      receive_row_cut hready hversion hahead hroom honly
    rw [hreceive]
    refine ⟨iff_of_false ?_ honly, fun _ => ?_, ?_, ?_⟩
    · rintro ⟨s', h, -⟩
      cases h
    · exact ⟨n, offset, length, available, decoded, _, hn, rfl, hrest⟩
    · rintro message s' h
      cases h
    · rintro f s' h
      injection h with h
      exact ⟨offset, length, available, decoded, h.symm⟩

/-- The chunks `ab` and `c`, the first with a leading zero in its length, cut inside a header and
inside the marker, with an octet behind them. -/
theorem receive_row_split :
    Frame.version (.text "1.1") = .ok .base11 ∧
    ∃ s, (do setVersion (.text "1.1"); receive) (Reception.ofParts
        [[0x0A, 0x23, 0x30], [0x32, 0x0A, 0x61, 0x62, 0x0A, 0x23, 0x31, 0x0A, 0x63, 0x0A, 0x23],
          [0x23, 0x0A, 0x78]] (by decide)).session
        = .ok [0x61, 0x62, 0x63] s ∧ s.line.ahead = [0x78] :=
  ⟨rfl, (receive_row_iff
    [⟨[0x30, 0x32], [0x61, 0x62], by decide, by decide, by decide, by decide⟩,
      ⟨[0x31], [0x63], by decide, by decide, by decide, by decide⟩]
    (Reception.ofParts
      [[0x0A, 0x23, 0x30], [0x32, 0x0A, 0x61, 0x62, 0x0A, 0x23, 0x31, 0x0A, 0x63, 0x0A, 0x23],
        [0x23, 0x0A, 0x78]] (by decide)) (by decide) rfl).1.mpr
    ((Octets.onlyEnds_iff (by decide) (by decide)).mpr (by decide))⟩

/-! ### What a session sends as one chunk -/

theorem send_script {s : Session Script} (store : OctetStore) (payload : Octets)
    (hopen : s.isClosed = false) (hlink : s.line.link.isClosed = false)
    (hsends : s.line.link.sends = []) :
    ∃ s', send (.octets store payload) s = .ok () s' ∧
      s'.line.link.calls = .sent (Frame.encode s.version payload) :: s.line.link.calls := by
  obtain ⟨notes, hsend⟩ := send_eq store payload hopen
  have hscript : Link.send (Frame.encode s.version payload) s.line.link
      = (.ok (), { s.line.link with
          sends := []
          calls := .sent (Frame.encode s.version payload) :: s.line.link.calls }) := by
    show Script.send _ _ = _
    rw [Script.send, if_neg (by simp [hlink]), hsends]
    rfl
  rw [hscript] at hsend
  exact ⟨_, hsend, rfl⟩

/-- **What is sent as a chunk comes back exactly if it forms no marker with the octets around it.**
Otherwise it is refused behind the first marker, although it was framed as it should be. -/
theorem receive_sent_iff {payload : Octets} (hpayload : payload.length ≤ Chunk.maxLength)
    (store : OctetStore) {reads : List ScriptedRead} {metered : Bool} {closing : Option LinkFault}
    {capabilities : Option Datum} {size limit : Int} {sender : Session Script}
    (hsender : start (Script.fresh reads metered [] closing) capabilities size limit = .ok sender) :
    ∃ frame sent,
      (do setVersion (.text "v1.1"); send (.octets store payload)) sender = .ok () sent ∧
      sent.line.link.calls = [.sent frame] ∧
      ∀ (rest : Octets) (r : Reception (frame ++ rest)), (frame.length : Int) ≤ r.limit →
        ((∃ s, (do setVersion (.text "v1.1"); receive) r.session = .ok payload s ∧
            s.line.ahead = rest)
          ↔ ¬ Chunk.terminator <:+: Frame.betweenLines payload) ∧
        (Chunk.terminator <:+: Frame.betweenLines payload →
          ∃ n offset length available decoded s,
            Octets.find? Chunk.terminator frame = some n ∧
            (do setVersion (.text "v1.1"); receive) r.session
              = .error (.chunkOverrun offset length available decoded) s ∧
            s.line.ahead = (frame ++ rest).drop (n + Chunk.terminator.length)) := by
  obtain ⟨hlink, -, -, -, -, hphase⟩ := start_eq hsender
  have hgiven : Frame.version (.text "v1.1") = .ok .base11 := rfl
  obtain ⟨chosen, hchoice, hversion, hlink', -, hclosed⟩ := setVersion_of_ok hgiven sender
  rw [hlink] at hlink'
  obtain ⟨sent, hsent, hcalls⟩ := send_script store payload
    (by rw [hclosed, isClosed, hphase]; rfl) (by rw [hlink']; rfl) (by rw [hlink']; rfl)
  rw [hversion, hlink'] at hcalls
  refine ⟨Frame.chunked payload, sent, (bind_of_ok hchoice).trans hsent, hcalls,
    fun rest r hlimit => ?_⟩
  -- the frame of the payload is a row of one chunk
  obtain ⟨s, hchoice', hready, hversion', hahead, hwindow⟩ := r.ready_setVersion hgiven
  have hroom : (Frame.chunked payload).length ≤ s.line.window.limit := by omega
  have hmessage : Chunk.rowMessage [Chunk.Legal.ofPayload payload hpayload] = payload :=
    List.append_nil payload
  have honly_iff := Frame.onlyEnds_chunked_iff hpayload
  rw [Frame.chunked_eq_row payload hpayload] at hahead hroom honly_iff
  rw [bind_of_ok hchoice', Frame.chunked_eq_row payload hpayload]
  by_cases honly : Octets.OnlyEnds Chunk.terminator
      (Chunk.row [Chunk.Legal.ofPayload payload hpayload])
  · obtain ⟨l, hrest, hreceive⟩ := receive_row hready hversion' hahead hroom honly
    rw [hmessage] at hreceive
    have hplain := honly_iff.mp honly
    exact ⟨iff_of_true ⟨_, hreceive, hrest⟩ hplain, fun h => absurd h hplain⟩
  · obtain ⟨n, offset, length, available, decoded, l, hn, hrest, hreceive⟩ :=
      receive_row_cut hready hversion' hahead hroom honly
    refine ⟨iff_of_false ?_ (fun h => honly (honly_iff.mpr h)), fun _ =>
      ⟨n, offset, length, available, decoded, _, hn, hreceive, hrest⟩⟩
    rintro ⟨s', h, -⟩
    rw [hreceive] at h
    cases h

/-- The payload `##a`, of which the first two octets could continue a marker, with an octet behind
its frame. -/
theorem receive_sent_numberSigns :
    [0x23, 0x23, 0x61].length ≤ Chunk.maxLength ∧
    ∃ sender, start (Script.fresh [] false [] none) none Window.defaultSize Window.defaultLimit
        = .ok sender ∧
      ∃ s, (do setVersion (.text "v1.1"); receive) (Reception.ofParts
          [[0x0A, 0x23, 0x33, 0x0A, 0x23, 0x23], [0x61, 0x0A, 0x23, 0x23, 0x0A, 0x78]]
          (by decide)).session
        = .ok [0x23, 0x23, 0x61] s ∧ s.line.ahead = [0x78] := by
  refine ⟨by decide, _, rfl, ?_⟩
  obtain ⟨frame, sent, hsent, hcalls, hreceive⟩ :=
    @receive_sent_iff [0x23, 0x23, 0x61] (by decide) .frozen [] false none none
      Window.defaultSize Window.defaultLimit _ rfl
  injection hsent with _ hsent
  rw [← hsent] at hcalls
  injection hcalls with hcall
  injection hcall with hframe
  rw [← hframe] at hreceive
  exact (hreceive [0x78] (Reception.ofParts
    [[0x0A, 0x23, 0x33, 0x0A, 0x23, 0x23], [0x61, 0x0A, 0x23, 0x23, 0x0A, 0x78]]
    (by decide)) (by decide)).1.mpr (by decide)

/-- The marker itself as a payload is refused: it is read as the end of a chunk of four octets that
has none. -/
theorem receive_terminator :
    ∃ sender sent s,
      start (Script.fresh [] false [] none) none Window.defaultSize Window.defaultLimit
        = .ok sender ∧
      (do setVersion (.text "v1.1"); send (.octets .frozen Chunk.terminator)) sender
        = .ok () sent ∧
      sent.line.link.calls = [.sent (Frame.chunked Chunk.terminator)] ∧
      (do setVersion (.text "v1.1"); receive)
          (Reception.ofParts [Frame.chunked Chunk.terminator] (by decide)).session
        = .error (.chunkOverrun 0 4 0 0) s := by
  have hgiven : Frame.version (.text "v1.1") = .ok .base11 := rfl
  obtain ⟨s, hchoice, hready, hversion, hahead, hwindow⟩ :=
    (Reception.ofParts [Frame.chunked Chunk.terminator] (by decide)).ready_setVersion hgiven
  have hfour : s.version.marker.length = 4 := by rw [hversion]; rfl
  have hk : Octets.find? s.version.marker s.line.ahead = some 4 := by
    rw [hversion, hahead]; decide
  have hlimit : s.line.window.limit = Window.defaultLimit := Int.ofNat_inj.mp hwindow
  obtain ⟨l, -, -, hreceive⟩ := receive_hit hready hk (by rw [hfour, hlimit]; decide)
  have hunwrap : s.version.unwrap (s.line.ahead.take (4 + s.version.marker.length))
      = .error (.chunkOverrun 0 4 0 0) := by
    have hgather : Chunk.gather ((Frame.chunked Chunk.terminator).take 8)
        = ⟨[], .error (.chunkOverrun 0 4 0 0)⟩ := by
      have hline : ((Frame.chunked Chunk.terminator).take 8).drop 0
          = Chunk.marker ++ ([0x34] ++ 0x0A :: Chunk.terminator) := rfl
      exact Chunk.gatherFrom_header [] hline (by decide)
    rw [hversion, hahead]
    show (Chunk.decode ((Frame.chunked Chunk.terminator).take 8)).map Prod.fst = _
    rw [Chunk.decode_eq, hgather]
    rfl
  rw [hunwrap] at hreceive
  exact ⟨_, _, _, rfl, rfl, rfl, (bind_of_ok hchoice).trans hreceive⟩

end Session

end NetconfWire
