/-
Lengths that are announced.

A chunk announces its length before its octets.  What is announced and what is there
need not agree, and the two ends of a connection bound it apart from each other:

* `Chunk.overrun_exceeds_iff` — a refused chunk announces more octets than stand
  between its header and the marker that ends the frame, unless it announces none and
  its header shares the line feed with that marker;
* `Frame.decode_chunked_iff` — a payload of any length is framed, and it is read back
  from its frame exactly if its length is within the range that is read.
-/
import NetconfWire.Proofs.Ambiguity
import NetconfWire.Proofs.Reassembly

namespace NetconfWire

/-! ### Chunks that announce too much -/

namespace Chunk

section Overrun

variable {front line more : Octets}

/-- The marker has line feeds at its two ends only. -/
theorem lineFeed_in_terminator :
    ∀ n < terminator.length, terminator[n]? = some 0x0A → n = 0 ∨ n + 1 = terminator.length := by
  decide

/-- Behind a header line of digits the marker that ends a frame is whole, or it begins with the line
feed of the header. -/
theorem behind_header (hdigits : isLength line = true)
    (hend : terminator <:+ front ++ (line ++ 0x0A :: more)) :
    more = terminator.tail ∨ ∃ between, more = between ++ terminator := by
  have hlast : 0x0A :: more <:+ front ++ (line ++ 0x0A :: more) :=
    ⟨front ++ line, List.append_assoc _ _ _⟩
  by_cases hroom : terminator.length ≤ more.length
  · obtain ⟨between, hbetween⟩ :=
      List.suffix_of_suffix_length_le hend ((List.suffix_cons _ _).trans hlast) hroom
    exact .inr ⟨between, hbetween.symm⟩
  · obtain ⟨before, hbefore⟩ := List.suffix_of_suffix_length_le hlast hend
      (by rw [List.length_cons]; omega)
    have hplace : terminator[before.length]? = some 0x0A := by
      rw [← hbefore, List.getElem?_append_right (Nat.le_refl _), Nat.sub_self]
      rfl
    have hlength := congrArg List.length hbefore
    rw [List.length_append, List.length_cons] at hlength
    rcases lineFeed_in_terminator _ (by omega) hplace with hfirst | hbehind
    · rw [List.length_eq_zero_iff.mp hfirst] at hbefore
      exact .inl (List.cons.inj hbefore).2
    · -- in front of its last octet the marker has a number sign, which is no digit
      have hnil : more = [] := List.length_eq_zero_iff.mp (by omega)
      obtain ⟨hne, hdigit⟩ := isLength_iff.mp hdigits
      obtain ⟨t, ht⟩ := hend
      rw [hnil, ← List.append_assoc] at ht
      have hfront : t ++ [0x0A, 0x23, 0x23] = front ++ line :=
        List.append_cancel_right ((List.append_assoc t _ [0x0A]).trans ht)
      have hsign := congrArg List.getLast? hfront
      rw [List.getLast?_append_of_ne_nil _ (by decide),
        List.getLast?_append_of_ne_nil _ hne] at hsign
      exact absurd (hdigit _ (List.mem_of_getLast? hsign.symm)) (by decide)

/-- What is refused as too short announces a length in its header, of which the octets behind that
have no room for the marker. -/
theorem exists_overrun {frame message : Octets} {offset length available decoded : Nat}
    (hend : terminator <:+ frame)
    (h : gather frame = ⟨message, .error (.chunkOverrun offset length available decoded)⟩) :
    ∃ front digits more, frame = front ++ (marker ++ (digits ++ 0x0A :: more)) ∧
      front.length = offset ∧ isLength digits = true ∧ lengthOf digits = length ∧
      more.length < length + terminator.length ∧ available = more.length - terminator.length := by
  have hend' : terminator <:+ frame.drop 0 := hend
  obtain ⟨cs, gap, line, more, hdrop, -, -, hstops⟩ := exists_stop [] hend'
  rw [← gather, h] at hstops
  rw [List.drop_zero, ← List.append_assoc] at hdrop
  rw [Nat.zero_add] at hstops
  cases hstops with
  | refused _ hread =>
    rcases readHeader_error hread with hf | ⟨-, -, hf⟩ <;> cases hf
  | overrun _ hread hroom =>
    obtain ⟨hdigits, -, hlength, -⟩ := readHeader_eq_ok_iff.mp hread
    exact ⟨_, line, more, hdrop, rfl, hdigits, hlength, hroom, rfl⟩

end Overrun

/-- **A refused chunk announces more than there is, unless it announces nothing.**  The octets that
are reported as available are those between the line feed of its header and the marker at the end of
the frame, and none if the header shares that line feed with the marker.  The length announced is
greater, but for a length of zero in a header of that kind. -/
theorem overrun_exceeds_iff {buffer : Octets} {stop offset length available decoded : Nat}
    (hstop : stop ≤ buffer.length) (hend : terminator <:+ buffer.take stop)
    (h : (reassemble buffer (some stop)).outcome
      = .error (.chunkOverrun offset length available decoded)) :
    ∃ front digits more, buffer.take stop = front ++ (marker ++ (digits ++ 0x0A :: more)) ∧
      front.length = offset ∧ isLength digits = true ∧ lengthOf digits = length ∧
      (more = terminator.tail ∧ available = 0 ∨
        ∃ between, more = between ++ terminator ∧ available = between.length) ∧
      (available < length ↔ ¬ (length = 0 ∧ more = terminator.tail)) := by
  obtain ⟨message, outcome, hgather, -, hreassemble, -⟩ := reassemble_refines hstop
  rw [hreassemble] at h
  rw [error_of_map h] at hgather
  obtain ⟨front, digits, more, hframe, hoffset, hdigits, hlength, hroom, havailable⟩ :=
    exists_overrun hend hgather
  refine ⟨front, digits, more, hframe, hoffset, hdigits, hlength, ?_⟩
  have hend' := hend
  rw [hframe, ← List.append_assoc] at hend'
  rcases behind_header hdigits hend' with hshared | ⟨between, hbetween⟩
  · have hnone : available = 0 := by rw [havailable, hshared]; rfl
    refine ⟨.inl ⟨hshared, hnone⟩, ?_⟩
    rw [hnone, and_iff_left hshared]
    exact Nat.pos_iff_ne_zero
  · have hcount : available = between.length := by
      rw [havailable, hbetween, List.length_append, Nat.add_sub_cancel]
    refine ⟨.inr ⟨between, hbetween, hcount⟩, iff_of_true ?_ ?_⟩
    · rw [hbetween, List.length_append] at hroom
      omega
    · rintro ⟨-, hshared⟩
      have hshort := congrArg List.length (hbetween.symm.trans hshared)
      rw [List.length_append, List.length_tail] at hshort
      have hfour : terminator.length = 4 := rfl
      omega

/-- The outcome of reassembly is that of the way in which the frame is read. -/
theorem outcome_of_reads {buffer message : Octets} {outcome : Except Fault Ending} {stop : Nat}
    (hstop : stop ≤ buffer.length) (h : Reads (buffer.take stop) message outcome) :
    (reassemble buffer (some stop)).outcome = outcome.map (message.length, ·) := by
  obtain ⟨message', outcome', hgather, -, hreassemble, -⟩ := reassemble_refines hstop
  obtain ⟨rfl, rfl⟩ := Gathering.mk.inj (hgather.symm.trans (gather_eq_iff.mpr h))
  rw [hreassemble]

/-- The second chunk of a frame announces five octets and has three; the buffer goes on behind the
frame. -/
theorem overrun_exceeds_iff_five :
    16 ≤ (encode [0x61] ++ [0x0A, 0x23, 0x35, 0x0A, 0x61, 0x62, 0x63] ++ terminator
      ++ [0x7A]).length ∧
    terminator <:+ (encode [0x61] ++ [0x0A, 0x23, 0x35, 0x0A, 0x61, 0x62, 0x63] ++ terminator
      ++ [0x7A]).take 16 ∧
    (reassemble (encode [0x61] ++ [0x0A, 0x23, 0x35, 0x0A, 0x61, 0x62, 0x63] ++ terminator
      ++ [0x7A]) (some 16)).outcome = .error (.chunkOverrun 5 5 3 1) ∧
    ∃ more, (more = terminator.tail ∧ 3 = 0 ∨
        ∃ between, more = between ++ terminator ∧ 3 = between.length) ∧
      (3 < 5 ↔ ¬ (5 = 0 ∧ more = terminator.tail)) := by
  set buffer := encode [0x61] ++ [0x0A, 0x23, 0x35, 0x0A, 0x61, 0x62, 0x63] ++ terminator ++ [0x7A]
    with hbuffer
  have hstop : 16 ≤ buffer.length := by decide
  have hend : terminator <:+ buffer.take 16 := by decide
  have hoverrun : (reassemble buffer (some 16)).outcome = .error (.chunkOverrun 5 5 3 1) := by
    let c : Spaced := ⟨[], Legal.ofPayload [0x61] (by decide), by decide⟩
    have hnone : ¬ marker <:+: ([] : Octets) := by decide
    have hfeed : (0x0A : UInt8) ∉ ([0x35] : Octets) := by decide
    have hstops : Stops 5 1 [0x35] ([0x61, 0x62, 0x63] ++ terminator)
        (.error (.chunkOverrun 5 5 3 1)) :=
      .overrun (by decide) (readHeader_eq_ok_iff.mpr (by decide)) (by decide)
    have hreads : Reads (buffer.take 16) [0x61] (.error (.chunkOverrun 5 5 3 1)) := by
      refine ⟨[c], marker ++ ([0x35] ++ 0x0A :: ([0x61, 0x62, 0x63] ++ terminator)), by decide,
        by decide, .inr (by decide), ?_⟩
      rw [show ([c].flatMap Spaced.octets).length = 5 by decide]
      exact .stopped hnone hfeed (.inr ⟨_, rfl⟩) hstops
    exact outcome_of_reads hstop hreads
  obtain ⟨-, -, more, -, -, -, -, hmore, hexceeds⟩ := overrun_exceeds_iff hstop hend hoverrun
  exact ⟨hstop, hend, hoverrun, more, hmore, hexceeds⟩

/-- A chunk that announces no octets is refused, although none are missing: the line feed of its
header is the first octet of the marker. -/
theorem overrun_of_nothing :
    terminator <:+ [0x0A, 0x23, 0x30] ++ terminator ∧
    (reassemble ([0x0A, 0x23, 0x30] ++ terminator) none).outcome
      = .error (.chunkOverrun 0 0 0 0) := by
  have hnone : ¬ marker <:+: ([] : Octets) := by decide
  have hfeed : (0x0A : UInt8) ∉ ([0x30] : Octets) := by decide
  have hstops : Stops 0 0 [0x30] terminator.tail (.error (.chunkOverrun 0 0 0 0)) :=
    .overrun (by decide) (readHeader_eq_ok_iff.mpr (by decide)) (by decide)
  have hreads : Reads (([0x0A, 0x23, 0x30] ++ terminator).take 7) []
      (.error (.chunkOverrun 0 0 0 0)) :=
    ⟨[], _, rfl, rfl, .inl rfl, .stopped hnone hfeed (.inr ⟨_, rfl⟩) hstops⟩
  exact ⟨List.suffix_append _ _, outcome_of_reads (Nat.le_refl 7) hreads⟩

end Chunk

/-! ### Payloads of any length -/

namespace Frame

/-- A payload that is longer than a chunk may be is refused by its header. -/
theorem decode_chunked_of_long {payload : Octets} (h : Chunk.maxLength < payload.length) :
    ∃ f, Chunk.decode (chunked payload) = .error f ∧
      ((Chunk.decimalDigits payload.length).length ≤ Numeral.digitLimit →
        f = .chunkHeader 0 (Chunk.decimalDigits payload.length) 0) := by
  have hdigits := Chunk.isLength_decimalDigits payload.length
  have hline : (chunked payload).drop 0 = Chunk.marker ++ (Chunk.decimalDigits payload.length
      ++ 0x0A :: (payload ++ Chunk.terminator)) := by
    rw [List.drop_zero, chunked, Chunk.header, Chunk.decimalDigits]
    simp only [List.append_assoc, List.cons_append, List.nil_append]
  have hsign : Chunk.decimalDigits payload.length ≠ [0x23] := by
    intro heq
    rw [heq] at hdigits
    exact absurd hdigits (by decide)
  have hgather := Chunk.gatherFrom_header [] hline (Chunk.notMem_of_isLength hdigits rfl)
  rw [if_neg hsign] at hgather
  cases hread : Chunk.readHeader 0 0 (Chunk.decimalDigits payload.length) with
  | ok n =>
    -- the length that is read is that of the payload
    obtain ⟨-, -, hlength, hgreat⟩ := Chunk.readHeader_eq_ok_iff.mp hread
    rw [Chunk.lengthOf_decimalDigits] at hlength
    omega
  | error f =>
    rw [List.length_nil, hread] at hgather
    refine ⟨f, ?_, fun hfew => ?_⟩
    · rw [Chunk.decode_eq, Chunk.gather, hgather]
      rfl
    · rcases Chunk.readHeader_error hread with rfl | ⟨-, hmany, -⟩
      · rfl
      · omega

/-- **A payload is read back from its frame exactly if its length is one that is read.**  Framing
refuses no payload for its length, and where the length is greater the frame is refused for the
header that framing has written. -/
theorem decode_chunked_iff (store : OctetStore) (payload : Octets) :
    ofPayload (.version .base11) (.octets store payload) = .ok (chunked payload) ∧
    ((Chunk.decode (chunked payload)).map Prod.fst = .ok payload
      ↔ payload.length ≤ Chunk.maxLength) ∧
    (Chunk.maxLength < payload.length → ∃ f, Chunk.decode (chunked payload) = .error f ∧
      ((Chunk.decimalDigits payload.length).length ≤ Numeral.digitLimit →
        f = .chunkHeader 0 (Chunk.decimalDigits payload.length) 0)) := by
  refine ⟨rfl, ⟨fun h => ?_, fun h => ?_⟩, decode_chunked_of_long⟩
  · by_contra hlong
    obtain ⟨f, hf, -⟩ := decode_chunked_of_long (Nat.lt_of_not_le hlong)
    rw [hf] at h
    cases h
  · have hmessage : Chunk.rowMessage [Chunk.Legal.ofPayload payload h] = payload :=
      List.append_nil payload
    rw [chunked_eq_row payload h, Chunk.decode_eq, Chunk.gather_row, hmessage]
    rfl

/-- A payload of one octet more than a chunk may have is framed, and its frame is refused. -/
theorem decode_chunked_beyond :
    ofPayload (.version .base11) (.octets .frozen (List.replicate 4294967296 0x78))
      = .ok (chunked (List.replicate 4294967296 0x78)) ∧
    Chunk.decode (chunked (List.replicate 4294967296 0x78))
      = .error (.chunkHeader 0 [0x34, 0x32, 0x39, 0x34, 0x39, 0x36, 0x37, 0x32, 0x39, 0x36] 0) := by
  have hlength : (List.replicate 4294967296 (0x78 : UInt8)).length = 4294967296 :=
    List.length_replicate
  have hdigits : Chunk.decimalDigits 4294967296
      = [0x34, 0x32, 0x39, 0x34, 0x39, 0x36, 0x37, 0x32, 0x39, 0x36] := by
    decide
  generalize List.replicate 4294967296 (0x78 : UInt8) = payload at hlength
  have hlong : Chunk.maxLength < payload.length := by rw [hlength]; decide
  obtain ⟨f, hf, hheader⟩ := decode_chunked_of_long hlong
  rw [hlength, hdigits] at hheader
  rw [hheader (by decide)] at hf
  exact ⟨rfl, hf⟩

end Frame

end NetconfWire
