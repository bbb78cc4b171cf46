/-
Rows of chunks with gaps between them.

Reading looks for the next chunk marker wherever it stands.  So a frame need not be a
row of chunks to be read: octets in which the marker does not stand may lie in front of
its chunks and in front of the end-of-chunks marker, and they are passed over.  Nothing
else is:

* `gatherFrom_gap` — octets without the marker are passed over;
* `exists_halts`, `gatherFrom_of_spaced` — whatever the octets are, reading passes over gaps
  and chunks until no marker is left or it stops at a header line;
* `exists_stop` — up to the end of a frame, it stops at a header line;
* `decode_eq_ok_iff` — the frames that are read are the rows with such gaps, and their
  messages are those of their chunks.
-/
import NetconfWire.Proofs.Rows

namespace NetconfWire.Chunk

/-- A chunk, and the octets in front of it, in which no chunk begins. -/
structure Spaced where
  gap : Octets
  chunk : Legal
  marker_not_infix_gap : ¬ marker <:+: gap

/-- The octets of a gap and its chunk. -/
def Spaced.octets (c : Spaced) : Octets :=
  c.gap ++ c.chunk.octets

/-- A row of chunks with gaps, of which the last one lies in front of the end-of-chunks marker;
behind that there may be a tail. -/
def spacedRow (cs : List Spaced) (gap tail : Octets) : Octets :=
  cs.flatMap Spaced.octets ++ (gap ++ (terminator ++ tail))

section Reading

variable {frame rest gap message message' : Octets} {i : Nat}

/-! ### Passing over a gap -/

/-- The first marker behind a gap is the one right behind it: the two octets of a marker differ, so
that it does not begin inside the gap. -/
theorem find?_marker_append (hgap : ¬ marker <:+: gap) (hrest : marker <+: rest) :
    Octets.find? marker (gap ++ rest) = some gap.length := by
  refine Octets.find?_eq_some_iff.mpr ⟨?_, by rw [List.length_append]; omega, fun j hj hs => ?_⟩
  · rw [Octets.StandsAt, List.drop_left]
    exact hrest
  · by_cases hinside : j + marker.length ≤ gap.length
    · exact hgap (Octets.exists_standsAt_iff.mp ⟨j, hs.of_append hinside⟩)
    · have hlast : j + 1 = gap.length := by
        have : marker.length = 2 := rfl
        omega
      obtain ⟨more, rfl⟩ := hrest
      have hsign := hs.getElem? (show 1 < marker.length by decide)
      rw [hlast, List.getElem?_append_right (Nat.le_refl _), Nat.sub_self] at hsign
      exact absurd (show some (0x0A : UInt8) = some 0x23 from hsign) (by decide)

/-- Octets without the marker are passed over. -/
theorem gatherFrom_gap (message : Octets) (hdrop : frame.drop i = gap ++ rest)
    (hgap : ¬ marker <:+: gap) (hrest : marker <+: rest) :
    gatherFrom frame message i = gatherFrom frame message (i + gap.length) := by
  have hnext : frame.drop (i + gap.length) = rest := by
    rw [← List.drop_drop, hdrop, List.drop_left]
  have hnone : ¬ marker <:+: ([] : Octets) := by decide
  have hfind : Octets.find? marker (frame.drop i) = some gap.length := by
    rw [hdrop, find?_marker_append hgap hrest]
  have hfind' : Octets.find? marker (frame.drop (i + gap.length)) = some 0 := by
    rw [hnext]
    exact find?_marker_append hnone hrest
  have hlength : i + gap.length + 1 < frame.length := by
    have htwo : marker.length = 2 := rfl
    have hle := hrest.length_le
    have hlong := congrArg List.length hnext
    rw [List.length_drop] at hlong
    omega
  rw [gatherFrom, if_pos (by omega), hfind, gatherFrom, if_pos hlength, hfind']
  rfl

/-- Chunks with gaps in front of them are gathered, if enough octets follow them. -/
theorem gatherFrom_spaced (cs : List Spaced) (message : Octets)
    (hdrop : frame.drop i = cs.flatMap Spaced.octets ++ rest)
    (hrest : terminator.length ≤ rest.length) :
    gatherFrom frame message i
      = gatherFrom frame (message ++ rowMessage (cs.map Spaced.chunk))
        (i + (cs.flatMap Spaced.octets).length) := by
  induction cs generalizing message i with
  | nil => simp [rowMessage]
  | cons c cs ih =>
    rw [List.flatMap_cons, Spaced.octets, List.append_assoc, List.append_assoc] at hdrop
    have hchunk : frame.drop (i + c.gap.length)
        = c.chunk.octets ++ (cs.flatMap Spaced.octets ++ rest) := by
      rw [← List.drop_drop, hdrop, List.drop_left]
    have hmarker : marker <+: c.chunk.octets ++ (cs.flatMap Spaced.octets ++ rest) := by
      rw [Legal.octets, List.append_assoc]
      exact List.prefix_append _ _
    have hnext : frame.drop (i + c.gap.length + c.chunk.octets.length)
        = cs.flatMap Spaced.octets ++ rest := by
      rw [← List.drop_drop, hchunk, List.drop_left]
    have hroom : terminator.length ≤ (cs.flatMap Spaced.octets ++ rest).length := by
      rw [List.length_append]
      omega
    have hplace : i + c.gap.length + c.chunk.octets.length + (cs.flatMap Spaced.octets).length
        = i + ((c :: cs).flatMap Spaced.octets).length := by
      rw [List.flatMap_cons, Spaced.octets, List.length_append, List.length_append]
      omega
    rw [gatherFrom_gap message hdrop c.marker_not_infix_gap hmarker,
      gatherFrom_octets c.chunk message hchunk hroom, ih _ hnext, hplace, List.map_cons,
      rowMessage_cons, List.append_assoc]

/-! ### What reading meets -/

/-- The first marker has a gap in front of it and a header line behind it. -/
theorem exists_header (h : marker <:+: rest) :
    ∃ gap line tail, rest = gap ++ (marker ++ (line ++ tail)) ∧
      ¬ marker <:+: gap ∧ 0x0A ∉ line ∧ EndsLine tail := by
  cases hk : Octets.find? marker rest with
  | none => exact absurd h (Octets.find?_eq_none_iff_not_infix.mp hk)
  | some k =>
    have hparts : rest = rest.take k ++ (marker ++ rest.drop (k + marker.length)) := by
      rw [← List.append_assoc, ← (Octets.find?_eq_some_iff.mp hk).1.take_add,
        List.take_append_drop]
    have hgap := Octets.not_infix_take_of_find? (by decide) hk
    by_cases hfeed : (0x0A : UInt8) ∈ rest.drop (k + marker.length)
    · obtain ⟨line, more, hline, hfree⟩ := List.eq_append_cons_of_mem hfeed
      rw [hline] at hparts
      exact ⟨_, line, _, hparts, hgap, hfree, .inr ⟨more, rfl⟩⟩
    · rw [← List.append_nil (rest.drop (k + marker.length))] at hparts
      exact ⟨_, _, [], hparts, hgap, hfeed, .inl rfl⟩

/-- A header that is read, with enough octets behind it, is that of a chunk. -/
theorem exists_legal {line more : Octets} {offset decoded n : Nat}
    (hread : readHeader offset decoded line = .ok n) (hroom : n ≤ more.length) :
    ∃ c : Legal, marker ++ (line ++ 0x0A :: more) = c.octets ++ more.drop n := by
  obtain ⟨hdigits, hmany, hlength, hgreat⟩ := readHeader_eq_ok_iff.mp hread
  have hpayload : (more.take n).length = n := by
    rw [List.length_take]
    omega
  let c : Legal := ⟨line, more.take n, hdigits, hmany, hlength.trans hpayload.symm,
    hpayload.le.trans hgreat⟩
  refine ⟨c, ?_⟩
  rw [Legal.octets, List.append_assoc, List.append_assoc, List.cons_append, List.take_append_drop]

/-- What reading comes to at a header line with `more` behind it, where it does not go on: the line
is the end of the frame, it is refused, or its chunk has too few octets. -/
inductive Stops (offset decoded : Nat) (line more : Octets) : Except Fault Ending → Prop
  | marker (hline : line = [0x23]) : Stops offset decoded line more (.ok .marker)
  | refused {f : Fault} (hline : line ≠ [0x23]) (hread : readHeader offset decoded line = .error f) :
    Stops offset decoded line more (.error f)
  | overrun {n : Nat} (hline : line ≠ [0x23]) (hread : readHeader offset decoded line = .ok n)
    (hroom : more.length < n + terminator.length) :
    Stops offset decoded line more
      (.error (.chunkOverrun offset n (more.length - terminator.length) decoded))

/-- What reading comes to at `offset` where it gathers nothing more: no marker is left in the rest,
or it stops at the header line behind the first one. -/
inductive Halts (offset decoded : Nat) : Octets → Except Fault Ending → Prop
  | exhausted {rest : Octets} (h : ¬ marker <:+: rest) : Halts offset decoded rest (.ok .exhausted)
  | stopped {gap line tail : Octets} {outcome : Except Fault Ending} (hgap : ¬ marker <:+: gap)
    (hline : 0x0A ∉ line) (htail : EndsLine tail)
    (hstops : Stops (offset + gap.length) decoded line tail.tail outcome) :
    Halts offset decoded (gap ++ (marker ++ (line ++ tail))) outcome

/-- Reading halts at once, or meets a chunk with enough octets behind it. -/
theorem halts_or_spaced (offset decoded : Nat) (rest : Octets) :
    (∃ outcome, Halts offset decoded rest outcome) ∨
    ∃ (c : Spaced) (more : Octets), rest = c.octets ++ more ∧ terminator.length ≤ more.length := by
  by_cases hmarker : marker <:+: rest
  · obtain ⟨gap, line, tail, rfl, hgap, hline, htail⟩ := exists_header hmarker
    by_cases hmark : line = [0x23]
    · exact .inl ⟨_, .stopped hgap hline htail (.marker hmark)⟩
    cases hread : readHeader (offset + gap.length) decoded line with
    | error f => exact .inl ⟨_, .stopped hgap hline htail (.refused hmark hread)⟩
    | ok n =>
      by_cases hroom : tail.tail.length < n + terminator.length
      · exact .inl ⟨_, .stopped hgap hline htail (.overrun hmark hread hroom)⟩
      · have hfour : terminator.length = 4 := rfl
        rcases htail with rfl | ⟨more, rfl⟩
        · -- a line without a line feed has nothing behind it
          rw [List.tail_nil, List.length_nil] at hroom
          omega
        · rw [List.tail_cons] at hroom
          have hlength : n ≤ more.length := by omega
          obtain ⟨c, hchunk⟩ := exists_legal hread hlength
          refine .inr ⟨⟨gap, c, hgap⟩, more.drop n, ?_, ?_⟩
          · rw [hchunk, Spaced.octets, List.append_assoc]
          · rw [List.length_drop]
            omega
  · exact .inl ⟨_, .exhausted hmarker⟩

/-- Whatever the octets are, reading passes over gaps and chunks until it halts. -/
theorem exists_halts (offset decoded : Nat) (octets : Octets) :
    ∃ (cs : List Spaced) (rest : Octets) (outcome : Except Fault Ending),
      octets = cs.flatMap Spaced.octets ++ rest ∧ (cs = [] ∨ terminator.length ≤ rest.length) ∧
      Halts (offset + (cs.flatMap Spaced.octets).length)
        (decoded + (rowMessage (cs.map Spaced.chunk)).length) rest outcome := by
  -- the induction is on the octets left to read
  induction hn : octets.length using Nat.strongRecOn generalizing offset decoded octets with
  | _ n ih =>
    rcases halts_or_spaced offset decoded octets with ⟨outcome, hhalts⟩ | ⟨c, more, rfl, hmore⟩
    · exact ⟨[], octets, outcome, rfl, .inl rfl, hhalts⟩
    · have hless : more.length < n := by
        rw [← hn, List.length_append, Spaced.octets, List.length_append, Legal.length_octets]
        omega
      obtain ⟨cs, rest, outcome, rfl, hroom, hhalts⟩ :=
        ih _ hless (offset + c.octets.length) (decoded + c.chunk.payload.length) more rfl
      refine ⟨c :: cs, rest, outcome, ?_, .inr ?_, ?_⟩
      · rw [List.flatMap_cons, List.append_assoc]
      · rcases hroom with rfl | hroom
        · exact hmore
        · exact hroom
      · rw [List.flatMap_cons, List.length_append, ← Nat.add_assoc, List.map_cons, rowMessage_cons,
          List.length_append, ← Nat.add_assoc]
        exact hhalts

/-- Where reading halts, nothing more is gathered. -/
theorem gatherFrom_of_halts {outcome : Except Fault Ending} (hdrop : frame.drop i = rest)
    (h : Halts i message.length rest outcome) :
    gatherFrom frame message i = ⟨message, outcome⟩ := by
  cases h with
  | exhausted hnone =>
    rw [← hdrop] at hnone
    exact gatherFrom_exhausted message hnone
  | @stopped gap line tail outcome hgap hline htail hstops =>
    have hheader : frame.drop (i + gap.length) = marker ++ (line ++ tail) := by
      rw [← List.drop_drop, hdrop, List.drop_left]
    rw [gatherFrom_gap message hdrop hgap (List.prefix_append _ _),
      gatherFrom_line message hheader hline htail]
    cases hstops with
    | marker hmark => rw [if_pos hmark]
    | refused hmark hread => rw [if_neg hmark, hread]
    | overrun hmark hread hroom =>
      rw [if_neg hmark, hread]
      exact if_pos hroom

/-- What is gathered on the way is the message of the chunks. -/
theorem gatherFrom_of_spaced {cs : List Spaced} {outcome : Except Fault Ending}
    (hdrop : frame.drop i = cs.flatMap Spaced.octets ++ rest)
    (hroom : cs = [] ∨ terminator.length ≤ rest.length)
    (h : Halts (i + (cs.flatMap Spaced.octets).length)
      (message.length + (rowMessage (cs.map Spaced.chunk)).length) rest outcome) :
    gatherFrom frame message i = ⟨message ++ rowMessage (cs.map Spaced.chunk), outcome⟩ := by
  have hrest : frame.drop (i + (cs.flatMap Spaced.octets).length) = rest := by
    rw [← List.drop_drop, hdrop, List.drop_left]
  rw [← List.length_append] at h
  have hhalt := gatherFrom_of_halts hrest h
  rcases hroom with rfl | hroom
  · rw [← hhalt]
    exact congrArg (gatherFrom frame · i) (List.append_nil message).symm
  · rw [gatherFrom_spaced cs message hdrop hroom, hhalt]

/-- A row with gaps gives the message of its chunks. -/
theorem gatherFrom_spacedRow (cs : List Spaced) {tail : Octets} (message : Octets)
    (hgap : ¬ marker <:+: gap) (hdrop : frame.drop i = spacedRow cs gap tail) :
    gatherFrom frame message i = ⟨message ++ rowMessage (cs.map Spaced.chunk), .ok .marker⟩ := by
  have hroom : terminator.length ≤ (gap ++ (terminator ++ tail)).length := by
    simp only [List.length_append]
    omega
  have hsign : (0x0A : UInt8) ∉ ([0x23] : Octets) := by decide
  exact gatherFrom_of_spaced hdrop (.inr hroom)
    (.stopped hgap hsign (.inr ⟨tail, rfl⟩) (.marker rfl))

/-- Octets that end with the end-of-chunks marker end with a line feed, and so with no header line. -/
theorem tail_ne_nil {line tail : Octets} (hline : 0x0A ∉ line)
    (hend : terminator <:+ gap ++ (marker ++ (line ++ tail))) : tail ≠ [] := by
  rintro rfl
  obtain ⟨front, hfront⟩ := hend
  have hlast := congrArg List.getLast? hfront
  have hfeed : (front ++ terminator).getLast? = some 0x0A := by
    rw [List.getLast?_append]
    rfl
  have hsign : (gap ++ (marker ++ (line ++ []))).getLast? = (0x23 :: line).getLast? := by
    rw [List.append_nil, marker, List.getLast?_append, List.cons_append, List.singleton_append,
      List.getLast?_cons_cons, List.getLast?_cons]
    rfl
  rw [hfeed, hsign] at hlast
  rcases List.mem_cons.mp (List.mem_of_getLast? hlast.symm) with h | h
  · exact absurd h (by decide)
  · exact hline h

/-- Up to the end of a frame, reading passes over gaps and chunks until it stops at a header. -/
theorem exists_stop (message : Octets) (hend : terminator <:+ frame.drop i) :
    ∃ (cs : List Spaced) (gap line more : Octets),
      frame.drop i = cs.flatMap Spaced.octets ++ (gap ++ (marker ++ (line ++ 0x0A :: more))) ∧
      ¬ marker <:+: gap ∧
      (gatherFrom frame message i).message = message ++ rowMessage (cs.map Spaced.chunk) ∧
      Stops (i + (cs.flatMap Spaced.octets ++ gap).length)
        (message ++ rowMessage (cs.map Spaced.chunk)).length line more
        (gatherFrom frame message i).outcome := by
  obtain ⟨cs, rest, outcome, hdrop, hroom, hhalts⟩ := exists_halts i message.length (frame.drop i)
  rw [gatherFrom_of_spaced hdrop hroom hhalts]
  have hrest : terminator <:+ rest := by
    rcases hroom with rfl | hroom
    · rwa [hdrop] at hend
    · exact List.suffix_of_suffix_length_le hend ⟨_, hdrop.symm⟩ hroom
  cases hhalts with
  | exhausted hnone => exact absurd ((show marker <:+: terminator by decide).trans hrest.isInfix) hnone
  | @stopped gap line tail outcome hgap hline htail hstops =>
    rcases htail with rfl | ⟨more, rfl⟩
    · exact absurd rfl (tail_ne_nil hline hrest)
    · refine ⟨cs, gap, line, more, hdrop, hgap, rfl, ?_⟩
      rw [List.length_append, ← Nat.add_assoc, List.length_append]
      exact hstops

/-- What is gathered up to the end of a frame is a row with gaps. -/
theorem exists_spacedRow (hend : terminator <:+ frame.drop i) {ending : Ending}
    (hgather : gatherFrom frame message i = ⟨message', .ok ending⟩) :
    ending = .marker ∧ ∃ cs gap tail, frame.drop i = spacedRow cs gap tail ∧
      ¬ marker <:+: gap ∧ message' = message ++ rowMessage (cs.map Spaced.chunk) := by
  obtain ⟨cs, gap, line, more, hdrop, hgap, hmessage, hstops⟩ := exists_stop message hend
  rw [hgather] at hmessage hstops
  cases hstops with
  | marker hline =>
    subst hline
    exact ⟨rfl, cs, gap, more, hdrop, hgap, hmessage⟩

end Reading

theorem decode_spacedRow (cs : List Spaced) {gap tail : Octets} (hgap : ¬ marker <:+: gap) :
    decode (spacedRow cs gap tail) = .ok (rowMessage (cs.map Spaced.chunk), .marker) := by
  rw [decode_eq, gather, gatherFrom_spacedRow cs [] hgap List.drop_zero]
  rfl

/-- A tail would follow an end-of-chunks marker that does not stand at the end. -/
theorem tail_eq_nil_of_onlyEnds {cs : List Spaced} {gap tail : Octets}
    (h : Octets.OnlyEnds terminator (spacedRow cs gap tail)) : tail = [] := by
  have hstands := Octets.standsAt_length_append (cs.flatMap Spaced.octets ++ gap) terminator
  replace hstands := hstands.append (x := tail)
  have hlength := h _ (by rwa [List.append_assoc, List.append_assoc] at hstands)
  simp only [spacedRow, List.length_append] at hlength
  exact List.length_eq_zero_iff.mp (by omega)

/-- **A frame that is read is a row of chunks but for gaps.**  Up to the first end-of-chunks marker
that is met, every octet belongs to a chunk, and its payload to the message, or to a gap in which
no marker stands; if that marker stands only at the end of the frame, nothing follows it. -/
theorem decode_eq_ok_iff {frame message : Octets} {ending : Ending} (hend : terminator <:+ frame) :
    decode frame = .ok (message, ending) ↔
      ending = .marker ∧ ∃ cs gap tail, frame = spacedRow cs gap tail ∧ ¬ marker <:+: gap ∧
        message = rowMessage (cs.map Spaced.chunk) ∧
        (Octets.OnlyEnds terminator frame → tail = []) := by
  constructor
  · intro hdecode
    rw [decode_eq] at hdecode
    cases hgather : gather frame with
    | mk message' outcome =>
      rw [hgather] at hdecode
      cases outcome with
      | error f => cases hdecode
      | ok ending' =>
        cases hdecode
        have hend' : terminator <:+ frame.drop 0 := hend
        obtain ⟨hmarker, cs, gap, tail, hrow, hgap, hmessage⟩ := exists_spacedRow hend' hgather
        refine ⟨hmarker, cs, gap, tail, hrow, hgap, hmessage, fun honly => ?_⟩
        exact tail_eq_nil_of_onlyEnds (by rwa [← hrow])
  · rintro ⟨rfl, cs, gap, tail, rfl, hgap, rfl, -⟩
    exact decode_spacedRow cs hgap

/-- Two chunks with a hyphen between them. -/
theorem decode_eq_ok_iff_hyphen :
    terminator <:+ encode [0x61] ++ [0x2D] ++ encode [0x62, 0x63] ++ terminator ∧
    decode (encode [0x61] ++ [0x2D] ++ encode [0x62, 0x63] ++ terminator)
      = .ok ([0x61, 0x62, 0x63], .marker) := by
  have hend : terminator <:+ encode [0x61] ++ [0x2D] ++ encode [0x62, 0x63] ++ terminator :=
    List.suffix_append _ _
  let first : Spaced := ⟨[], Legal.ofPayload [0x61] (by decide), by decide⟩
  let second : Spaced := ⟨[0x2D], Legal.ofPayload [0x62, 0x63] (by decide), by decide⟩
  exact ⟨hend, (decode_eq_ok_iff hend).mpr
    ⟨rfl, [first, second], [], [], by decide, by decide, by decide, fun _ => rfl⟩⟩

/-- A frame that is no row of chunks is read: the octets in front of its chunk and behind it belong
to no chunk, and are passed over. -/
theorem decode_notRow :
    terminator <:+ [0x78] ++ encode [0x61] ++ [0x62] ++ terminator ∧
    decode ([0x78] ++ encode [0x61] ++ [0x62] ++ terminator) = .ok ([0x61], .marker) ∧
    ¬ marker <+: [0x78] ++ encode [0x61] ++ [0x62] ++ terminator ∧
    ∀ cs, [0x78] ++ encode [0x61] ++ [0x62] ++ terminator ≠ row cs := by
  have hgap : ¬ marker <:+: ([0x62] : Octets) := by decide
  have hrow : [0x78] ++ encode [0x61] ++ [0x62] ++ terminator
      = spacedRow [⟨[0x78], Legal.ofPayload [0x61] (by decide), by decide⟩] [0x62] [] := by
    decide
  have hfirst : ¬ marker <+: [0x78] ++ encode [0x61] ++ [0x62] ++ terminator := by decide
  refine ⟨List.suffix_append _ _, by rw [hrow]; exact decode_spacedRow _ hgap, hfirst, ?_⟩
  -- a row begins with a marker
  rintro cs hcs
  refine hfirst ?_
  rw [hcs]
  cases cs with
  | nil => exact ⟨[0x23, 0x0A], rfl⟩
  | cons c cs =>
    rw [row_cons, Legal.octets, List.append_assoc]
    exact List.prefix_append _ _

end NetconfWire.Chunk
