/-
Ambiguous payloads.

A frame is cut off behind the first marker, so a payload is received whole only
if the marker that ends its frame is the first one in it.  That depends on more
than what the payload contains: it may form a marker together with the octets
around it.

* `onlyEnds_delimited_iff` — the base 1.0 delimiter overlaps itself by three
  octets, so the payload must not end with these;
* `onlyEnds_chunked_iff` — in a base 1.1 frame the payload stands between two
  line feeds, which may be part of a marker;
* `receive_encode` — an unambiguous payload is received as it was sent.
-/
import NetconfWire.Proofs.Rows
import NetconfWire.Proofs.Tasks

namespace NetconfWire

namespace Frame

/-- The octets `]]>`, with which the base 1.0 delimiter both begins and ends. -/
def halfDelimiter : Octets :=
  [0x5D, 0x5D, 0x3E]

/-- What stands around the payload where a marker may form in a base 1.1 frame: a line feed before
it, and the end-of-chunks marker without its last octet behind it. -/
def betweenLines (payload : Octets) : Octets :=
  0x0A :: (payload ++ [0x0A, 0x23, 0x23])

/-- The payload can be told from what surrounds it in a frame of the version. -/
def Unambiguous : Version → Octets → Prop
  | .base10, payload => ¬ delimiter <:+: payload ∧ ¬ halfDelimiter <:+ payload
  | .base11, payload =>
    payload.length ≤ Chunk.maxLength ∧ ¬ Chunk.terminator <:+: betweenLines payload

/-! ### Base 1.0 -/

/-- The delimiter overlaps itself in its half only. -/
theorem delimiter_overlap : ∀ n ≤ delimiter.length,
    delimiter.drop n <+: delimiter.dropLast → n = halfDelimiter.length ∨ n = delimiter.length := by
  decide

/-- The delimiter stands at the end of its frame only if it is not in the payload and the payload
does not end with half of it. -/
theorem onlyEnds_delimited_iff (payload : Octets) :
    Octets.OnlyEnds delimiter (delimited payload)
      ↔ ¬ delimiter <:+: payload ∧ ¬ halfDelimiter <:+ payload := by
  have hlast : (delimited payload).dropLast = payload ++ delimiter.dropLast :=
    List.dropLast_append_of_ne_nil (by decide)
  rw [Octets.onlyEnds_iff (by decide) (by simp [delimited, delimiter]), hlast]
  constructor
  · intro h
    constructor
    · exact fun hin => h (hin.trans (List.prefix_append _ _).isInfix)
    · rintro ⟨front, rfl⟩
      refine h ⟨front, [0x5D, 0x5D], ?_⟩
      rw [List.append_assoc, List.append_assoc]
      rfl
  · rintro ⟨hin, hend⟩ ⟨front, back, h⟩
    rw [List.append_assoc, List.append_eq_append_iff] at h
    rcases h with ⟨inside, rfl, h⟩ | ⟨beyond, -, h⟩
    · -- the occurrence begins in the payload; `inside` is what follows there
      rcases List.append_eq_append_iff.mp h with ⟨more, rfl, -⟩ | ⟨outside, hparts, h⟩
      · exact hin ⟨front, more, by rw [List.append_assoc]⟩
      · have hinside : inside = delimiter.take inside.length := by
          rw [hparts, List.take_left]
        have houtside : delimiter.drop inside.length <+: delimiter.dropLast := by
          rw [h, hparts, List.drop_left]
          exact List.prefix_append _ _
        have hle : inside.length ≤ delimiter.length := by
          have hlength := congrArg List.length hparts
          rw [List.length_append] at hlength
          omega
        rcases delimiter_overlap _ hle houtside with hn | hn
        · rw [hn] at hinside
          exact hend ⟨front, by rw [hinside]; rfl⟩
        · rw [hn, List.take_length] at hinside
          exact hin ⟨front, [], by rw [hinside, List.append_nil]⟩
    · -- behind the payload there is no room for it
      have hlength := congrArg List.length h
      have hsix : delimiter.length = 6 := rfl
      rw [List.length_append, List.length_append, List.length_dropLast] at hlength
      omega

/-! ### Base 1.1 -/

theorem chunked_eq_row (payload : Octets) (h : payload.length ≤ Chunk.maxLength) :
    chunked payload = Chunk.row [Chunk.Legal.ofPayload payload h] := by
  rw [Chunk.row_cons, Chunk.row_nil, chunked, Chunk.header, Chunk.Legal.octets]
  simp only [Chunk.Legal.ofPayload, Chunk.decimalDigits, List.append_assoc, List.cons_append,
    List.nil_append]

/-- The end-of-chunks marker stands at the end of the frame only if the payload does not form one
with the octets around it. -/
theorem onlyEnds_chunked_iff {payload : Octets} (h : payload.length ≤ Chunk.maxLength) :
    Octets.OnlyEnds Chunk.terminator (chunked payload)
      ↔ ¬ Chunk.terminator <:+: betweenLines payload := by
  set c := Chunk.Legal.ofPayload payload h with hc
  have hlast : (chunked payload).dropLast = c.octets ++ [0x0A, 0x23, 0x23] := by
    rw [chunked_eq_row payload h, Chunk.row_cons, Chunk.row_nil]
    exact List.dropLast_append_of_ne_nil (by decide)
  -- in front of the payload and its line feeds there is no room for the marker
  have hsplit : c.octets ++ [0x0A, 0x23, 0x23]
      = (Chunk.marker ++ c.digits) ++ betweenLines payload := by
    simp only [Chunk.Legal.octets, betweenLines, List.append_assoc, List.cons_append]
    rfl
  rw [Octets.onlyEnds_iff (by decide) (by simp [chunked, Chunk.terminator]), hlast, not_iff_not]
  constructor
  · intro hin
    obtain ⟨n, hn⟩ := Octets.exists_standsAt_iff.mpr hin
    have hheader := c.le_of_standsAt_terminator hn
    have hfront : (Chunk.marker ++ c.digits).length = c.digits.length + 2 := by
      rw [List.length_append, Nat.add_comm]
      rfl
    have hdrop : (c.octets ++ [0x0A, 0x23, 0x23]).drop (c.digits.length + 2)
        = betweenLines payload := by
      rw [hsplit, ← hfront, List.drop_left]
    refine Octets.exists_standsAt_iff.mp ⟨n - (c.digits.length + 2), ?_⟩
    rw [← hdrop, Octets.standsAt_drop, Nat.add_sub_cancel' hheader]
    exact hn
  · intro hin
    rw [hsplit]
    exact hin.trans (List.suffix_append _ _).isInfix

/-! ### Both versions -/

theorem onlyEnds_encode {version : Version} {payload : Octets} (h : Unambiguous version payload) :
    Octets.OnlyEnds version.marker (encode version payload) := by
  cases version with
  | base10 => exact (onlyEnds_delimited_iff payload).mpr h
  | base11 => exact (onlyEnds_chunked_iff h.1).mpr h.2

theorem marker_suffix_encode (version : Version) (payload : Octets) :
    version.marker <:+ encode version payload := by
  cases version with
  | base10 => exact List.suffix_append _ _
  | base11 => exact List.suffix_append _ _

end Frame

/-! ### Unwrapping -/

namespace Version

theorem unwrap_row (cs : List Chunk.Legal) :
    base11.unwrap (Chunk.row cs) = .ok (Chunk.rowMessage cs) := by
  rw [unwrap, Chunk.decode_eq, Chunk.gather_row]
  rfl

/-- A row that was cut behind an earlier marker is refused. -/
theorem unwrap_row_cut {cs : List Chunk.Legal} {n : Nat}
    (hstands : Octets.StandsAt Chunk.terminator (Chunk.row cs) n)
    (hearly : n + Chunk.terminator.length < (Chunk.row cs).length) :
    ∃ offset length available decoded,
      base11.unwrap ((Chunk.row cs).take (n + Chunk.terminator.length))
        = .error (.chunkOverrun offset length available decoded) := by
  obtain ⟨offset, length, available, decoded, h⟩ :=
    Chunk.gatherFrom_row_cut cs [] hstands hearly (i := 0) rfl
  refine ⟨offset, length, available, decoded, ?_⟩
  rw [unwrap, Chunk.decode_eq, Chunk.gather, h]
  rfl

theorem unwrap_encode {version : Version} {payload : Octets}
    (h : Frame.Unambiguous version payload) :
    version.unwrap (Frame.encode version payload) = .ok payload := by
  cases version with
  | base10 =>
    rw [unwrap, Frame.encode, Frame.delimited, List.length_append, Nat.add_sub_cancel,
      List.take_left]
  | base11 =>
    rw [Frame.encode, Frame.chunked_eq_row payload h.1, unwrap_row]
    exact congrArg Except.ok (List.append_nil payload)

end Version

/-- An unambiguous payload is received as it was sent, and what follows its frame is left. -/
theorem Session.receive_encode {κ : Type} [Link κ] [Flow κ] {s : Session κ} {version : Version}
    {payload rest : Octets} (hs : s.Ready) (hversion : s.version = version)
    (h : Frame.Unambiguous version payload)
    (hahead : s.line.ahead = Frame.encode version payload ++ rest)
    (hlimit : (Frame.encode version payload).length ≤ s.line.window.limit) :
    ∃ l, l.ahead = rest ∧ Flow.Runs l.link ∧ receive s = .ok payload (s.withLine l) := by
  subst hversion
  obtain ⟨l, hrest, hruns, hreceive⟩ := receive_frame hs (Frame.marker_suffix_encode _ _)
    (Frame.onlyEnds_encode h) hahead hlimit
  rw [Version.unwrap_encode h] at hreceive
  exact ⟨l, hrest, hruns, hreceive⟩

end NetconfWire
