/-
Rows of chunks.

A peer cuts a message into chunks as it likes, and may write their lengths with
leading zeros.  The row of its chunks, with the end-of-chunks marker behind them,
is a legal frame:

* `gatherFrom_row` — a whole row gives the payloads, one after another;
* `gatherFrom_row_cut` — a row that was cut behind an earlier occurrence of the
  marker is refused, since that occurrence lies inside a chunk which then has
  fewer octets than it announces.
-/
import NetconfWire.Proofs.Gathering

namespace NetconfWire.Chunk

/-- A header is read as the length that its digits stand for. -/
theorem readHeader_eq_ok_iff {offset decoded n : Nat} {line : Octets} :
    readHeader offset decoded line = .ok n ↔
      isLength line = true ∧ line.length ≤ Numeral.digitLimit ∧ lengthOf line = n ∧
        n ≤ maxLength := by
  rw [readHeader]
  constructor
  · intro h
    split_ifs at h with hdigits hmany hgreat
    cases h
    exact ⟨by simpa using hdigits, by omega, rfl, by omega⟩
  · rintro ⟨hdigits, hmany, rfl, hgreat⟩
    rw [hdigits, if_neg (by decide), if_neg (by omega), if_neg (by omega)]

/-- A header is refused as no length, or for the number of its digits. -/
theorem readHeader_error {offset decoded : Nat} {line : Octets} {f : Fault}
    (h : readHeader offset decoded line = .error f) :
    f = .chunkHeader offset line decoded ∨
      isLength line = true ∧ Numeral.digitLimit < line.length ∧
        f = .numeral (.tooManyDigits line.length) := by
  rw [readHeader] at h
  split_ifs at h with hdigits hmany hgreat
  · cases h
    exact .inl rfl
  · cases h
    exact .inr ⟨by simpa using hdigits, hmany, rfl⟩
  · cases h
    exact .inl rfl

theorem isLength_iff {line : Octets} :
    isLength line = true ↔ line ≠ [] ∧ ∀ x ∈ line, isDigit x = true := by
  simp [isLength]

/-- A row of digits has none of the octets that end a line or a frame. -/
theorem notMem_of_isLength {line : Octets} {x : UInt8} (h : isLength line = true)
    (hx : isDigit x = false) : x ∉ line := by
  intro hmem
  have := (isLength_iff.mp h).2 x hmem
  rw [hx] at this
  cases this

/-- A chunk as a peer may write it. -/
structure Legal where
  /-- The digits of the length, with any number of leading zeros. -/
  digits : Octets
  payload : Octets
  isLength_digits : isLength digits = true
  length_digits_le : digits.length ≤ Numeral.digitLimit
  lengthOf_digits : lengthOf digits = payload.length
  length_payload_le : payload.length ≤ maxLength

namespace Legal

/-- The octets of a chunk: its header line and its payload. -/
def octets (c : Legal) : Octets :=
  marker ++ (c.digits ++ 0x0A :: c.payload)

theorem length_octets (c : Legal) :
    c.octets.length = c.digits.length + 3 + c.payload.length := by
  simp only [octets, marker, List.length_append, List.length_cons, List.length_nil]
  omega

theorem digits_ne_nil (c : Legal) : c.digits ≠ [] :=
  (isLength_iff.mp c.isLength_digits).1

theorem lineFeed_notMem_digits (c : Legal) : 0x0A ∉ c.digits :=
  notMem_of_isLength c.isLength_digits rfl

theorem numberSign_notMem_digits (c : Legal) : 0x23 ∉ c.digits :=
  notMem_of_isLength c.isLength_digits rfl

theorem readHeader_digits (c : Legal) (offset decoded : Nat) :
    readHeader offset decoded c.digits = .ok c.payload.length :=
  readHeader_eq_ok_iff.mpr
    ⟨c.isLength_digits, c.length_digits_le, c.lengthOf_digits, c.length_payload_le⟩

end Legal

/-! ### Lengths in decimal -/

/-- A length as it is written, digit by digit. -/
def decimalDigits (n : Nat) : Octets :=
  (Numeral.decimal n).map fun c => c.toNat.toUInt8

/-- A decimal digit as an octet keeps its code. -/
theorem toNat_octet_of_isDigit {c : Char} (h : c.isDigit) : c.toNat.toUInt8.toNat = c.toNat := by
  have hbounds := Char.isDigit_iff_toNat.mp h
  have hnine : '9'.toNat = 57 := rfl
  rw [Nat.toUInt8_eq, UInt8.toNat_ofNat', Nat.mod_eq_of_lt (by omega)]

theorem isLength_decimalDigits (n : Nat) : isLength (decimalDigits n) = true := by
  rw [isLength_iff]
  constructor
  · have hne : Numeral.decimal n ≠ [] := Nat.toDigits_ne_nil
    simpa [decimalDigits] using hne
  · intro x hx
    obtain ⟨c, hc, rfl⟩ := List.mem_map.mp hx
    have hdigit : c.isDigit := Nat.isDigit_of_mem_toDigits (by decide) (by decide) hc
    have hbounds := Char.isDigit_iff_toNat.mp hdigit
    have hcode := toNat_octet_of_isDigit hdigit
    have hzero : '0'.toNat = 48 := rfl
    have hnine : '9'.toNat = 57 := rfl
    rw [isDigit, Bool.and_eq_true, decide_eq_true_eq, decide_eq_true_eq, UInt8.le_iff_toNat_le,
      UInt8.le_iff_toNat_le, hcode]
    show 48 ≤ c.toNat ∧ c.toNat ≤ 57
    omega

/-- A length is read as it was written. -/
theorem lengthOf_decimalDigits (n : Nat) : lengthOf (decimalDigits n) = n := by
  have hvalues : (decimalDigits n).map (fun b => b.toNat - 0x30)
      = (Numeral.decimal n).map fun c => c.toNat - '0'.toNat := by
    rw [decimalDigits, List.map_map]
    refine List.map_congr_left fun c hc => ?_
    have hdigit : c.isDigit := Nat.isDigit_of_mem_toDigits (by decide) (by decide) hc
    show c.toNat.toUInt8.toNat - 0x30 = _
    rw [toNat_octet_of_isDigit hdigit]
    rfl
  calc lengthOf (decimalDigits n)
      = (Numeral.decimal n).foldl (fun m c => 10 * m + (c.toNat - '0'.toNat)) 0 := by
        rw [lengthOf, hvalues, Numeral.value, List.foldl_map]
    _ = n := Nat.ofDigitChars_ten_toDigits

/-- The length of a chunk has at most ten digits. -/
theorem length_decimalDigits_le {n : Nat} (h : n ≤ maxLength) : (decimalDigits n).length ≤ 10 := by
  rw [decimalDigits, List.length_map]
  refine (Nat.length_toDigits_le_iff (by decide) (by decide)).mpr (Nat.lt_of_le_of_lt h ?_)
  decide

/-- A payload as a chunk with its length in decimal. -/
def Legal.ofPayload (payload : Octets) (h : payload.length ≤ maxLength) : Legal where
  digits := decimalDigits payload.length
  payload := payload
  isLength_digits := isLength_decimalDigits _
  length_digits_le := (length_decimalDigits_le h).trans (by decide)
  lengthOf_digits := lengthOf_decimalDigits _
  length_payload_le := h

/-! ### Rows -/

/-- The frame of a row of chunks. -/
def row (cs : List Legal) : Octets :=
  cs.flatMap Legal.octets ++ terminator

/-- The message that a row of chunks carries. -/
def rowMessage (cs : List Legal) : Octets :=
  cs.flatMap Legal.payload

theorem row_nil : row [] = terminator := rfl

theorem row_cons (c : Legal) (cs : List Legal) : row (c :: cs) = c.octets ++ row cs := by
  rw [row, row, List.flatMap_cons, List.append_assoc]

theorem rowMessage_cons (c : Legal) (cs : List Legal) :
    rowMessage (c :: cs) = c.payload ++ rowMessage cs :=
  List.flatMap_cons

theorem terminator_suffix_row (cs : List Legal) : terminator <:+ row cs :=
  List.suffix_append _ _

theorem length_terminator_le_row (cs : List Legal) : terminator.length ≤ (row cs).length :=
  (terminator_suffix_row cs).length_le

/-! ### Reading a row -/

section Reading

variable {frame more : Octets} {i n : Nat}

/-- The marker ends a frame, whatever follows. -/
theorem gatherFrom_terminator (message : Octets) (hdrop : frame.drop i = terminator ++ more) :
    gatherFrom frame message i = ⟨message, .ok .marker⟩ := by
  have hline : frame.drop i = marker ++ ([0x23] ++ 0x0A :: more) := hdrop
  rw [gatherFrom_header message hline (by decide), if_pos rfl]

/-- A chunk whose header stands at a place is gathered or found too short. -/
theorem gatherFrom_legal (c : Legal) (message : Octets)
    (hdrop : frame.drop i = marker ++ (c.digits ++ 0x0A :: more)) :
    gatherFrom frame message i
      = if more.length < c.payload.length + terminator.length then
          ⟨message, .error (.chunkOverrun i c.payload.length (more.length - terminator.length)
            message.length)⟩
        else gatherFrom frame (message ++ more.take c.payload.length) (i + c.octets.length) := by
  have hsign : c.digits ≠ [0x23] := fun h => c.numberSign_notMem_digits (by rw [h]; decide)
  rw [gatherFrom_header message hdrop c.lineFeed_notMem_digits, if_neg hsign,
    c.readHeader_digits, c.length_octets, ← Nat.add_assoc, ← Nat.add_assoc]

/-- A chunk with enough octets behind it is gathered. -/
theorem gatherFrom_octets (c : Legal) (message : Octets) (hdrop : frame.drop i = c.octets ++ more)
    (hmore : terminator.length ≤ more.length) :
    gatherFrom frame message i
      = gatherFrom frame (message ++ c.payload) (i + c.octets.length) := by
  have hheader : frame.drop i = marker ++ (c.digits ++ 0x0A :: (c.payload ++ more)) := by
    rw [hdrop, Legal.octets, List.append_assoc, List.append_assoc, List.cons_append]
  rw [gatherFrom_legal c message hheader, List.take_left,
    if_neg (by rw [List.length_append]; omega)]

/-- A whole row gives its message. -/
theorem gatherFrom_row (cs : List Legal) (message : Octets) (hdrop : frame.drop i = row cs) :
    gatherFrom frame message i = ⟨message ++ rowMessage cs, .ok .marker⟩ := by
  induction cs generalizing message i with
  | nil =>
    rw [rowMessage, List.flatMap_nil, List.append_nil]
    exact gatherFrom_terminator message (by rw [hdrop, row_nil, List.append_nil])
  | cons c cs ih =>
    rw [row_cons] at hdrop
    rw [gatherFrom_octets c message hdrop (length_terminator_le_row cs), rowMessage_cons,
      ← List.append_assoc]
    refine ih (message ++ c.payload) ?_
    rw [← List.drop_drop, hdrop, List.drop_left]

theorem gather_row (cs : List Legal) : gather (row cs) = ⟨rowMessage cs, .ok .marker⟩ :=
  gatherFrom_row cs [] rfl

/-! ### Reading a row that was cut -/

/-- The end-of-chunks marker does not begin in front of what follows a header line. -/
theorem le_of_standsAt_terminator {digits rest : Octets} (hne : digits ≠ []) (hfeed : 0x0A ∉ digits)
    (hsign : 0x23 ∉ digits) (h : Octets.StandsAt terminator (marker ++ (digits ++ rest)) n) :
    digits.length + 2 ≤ n := by
  by_contra hlt
  have h0 := h.getElem? (show 0 < terminator.length by decide)
  have h2 := h.getElem? (show 2 < terminator.length by decide)
  have hdigits : ∀ j < digits.length, (marker ++ (digits ++ rest))[j + 2]? = digits[j]? := by
    intro j hj
    show (digits ++ rest)[j]? = _
    rw [List.getElem?_append_left hj]
  have hpos : 0 < digits.length := List.length_pos_iff.mpr hne
  rcases n with _ | _ | n
  · -- the second number sign would be among the digits
    rw [Nat.zero_add, ← Nat.zero_add 2, hdigits 0 hpos] at h2
    exact hsign (List.mem_of_getElem? h2)
  · -- the line feed would be the number sign of the header
    exact absurd (show some (0x23 : UInt8) = some 0x0A from h0) (by decide)
  · rw [Nat.add_zero, hdigits n (by omega)] at h0
    exact hfeed (List.mem_of_getElem? h0)

/-- It does not begin inside the header of a chunk, before the line feed that ends it. -/
theorem Legal.le_of_standsAt_terminator (c : Legal) {rest : Octets}
    (h : Octets.StandsAt terminator (c.octets ++ rest) n) : c.digits.length + 2 ≤ n := by
  rw [octets, List.append_assoc, List.append_assoc] at h
  exact Chunk.le_of_standsAt_terminator c.digits_ne_nil c.lineFeed_notMem_digits
    c.numberSign_notMem_digits h

/-- A row that was cut behind an earlier occurrence of the marker is refused: a chunk announces
more octets than are left. -/
theorem gatherFrom_row_cut (cs : List Legal) (message : Octets)
    (hstands : Octets.StandsAt terminator (row cs) n)
    (hearly : n + terminator.length < (row cs).length)
    (hdrop : frame.drop i = (row cs).take (n + terminator.length)) :
    ∃ offset length available decoded,
      (gatherFrom frame message i).outcome
        = .error (.chunkOverrun offset length available decoded) := by
  -- the induction passes over the chunks that end before the marker
  induction cs generalizing message i n with
  | nil =>
    rw [row_nil] at hearly
    omega
  | cons c cs ih =>
    rw [row_cons] at hstands hearly hdrop
    have hheader := c.le_of_standsAt_terminator hstands
    have hlength := c.length_octets
    have hmarker : terminator.length = 4 := rfl
    by_cases hinside : n < c.octets.length
    · -- the marker lies in this chunk, or begins with the line feed of its header
      have hregroup : c.octets ++ row cs
          = (marker ++ (c.digits ++ [0x0A])) ++ (c.payload ++ row cs) := by
        simp only [Legal.octets, List.append_assoc, List.cons_append, List.nil_append]
      have hlong : (marker ++ (c.digits ++ [0x0A])).length = c.digits.length + 3 := by
        simp only [marker, List.length_append, List.length_cons, List.length_nil]
        omega
      have hheader : frame.drop i = marker ++ (c.digits ++ 0x0A ::
          (c.payload ++ row cs).take (n + terminator.length - (c.digits.length + 3))) := by
        rw [hdrop, hregroup, List.take_append, List.take_of_length_le (by omega), hlong]
        simp only [List.append_assoc, List.cons_append, List.nil_append]
      rw [gatherFrom_legal c message hheader, if_pos (by rw [List.length_take]; omega)]
      exact ⟨_, _, _, _, rfl⟩
    · have hrest : frame.drop i
          = c.octets ++ (row cs).take (n - c.octets.length + terminator.length) := by
        rw [hdrop, List.take_append, List.take_of_length_le (by omega),
          Nat.sub_add_comm (by omega)]
      have hstay : (c.octets ++ row cs).drop c.octets.length = row cs := List.drop_left
      rw [List.length_append] at hearly
      rw [gatherFrom_octets c message hrest (by rw [List.length_take]; omega)]
      refine ih (n := n - c.octets.length) (message ++ c.payload) ?_ (by omega) ?_
      · rw [← hstay, Octets.standsAt_drop, Nat.add_sub_cancel' (by omega)]
        exact hstands
      · rw [← List.drop_drop, hrest, List.drop_left]

end Reading

end NetconfWire.Chunk
