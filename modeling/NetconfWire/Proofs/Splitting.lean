/-
A stream cut at a delimiter.

Whoever waits for the same delimiter again and again receives the parts of the
stream between its delimiters, and at the end of the stream is left with the part
that none of them ends.  The parts are those of the stream as a whole: where reads
have cut it does not matter, and neither does how often the delimiter overlaps
itself.

* `Octets.split` — the parts, from the left and without overlap;
* `Line.attempts_split` — the outcomes of repeated waits on a flowing link;
* `Reception.waits_split` — the same for a stream that comes in parts of any sizes.
-/
import NetconfWire.Proofs.Calls
import NetconfWire.Proofs.Reception

namespace NetconfWire

namespace Octets

/-- The parts of a string between the delimiters in it, where each delimiter is the first one behind
the part before. -/
def split (delimiter b : Octets) : List Octets :=
  match _hk : find? delimiter b with
  | none => [b]
  | some k =>
    if _hd : delimiter = [] then [b]
    else b.take k :: split delimiter (b.drop (k + delimiter.length))
termination_by b.length
decreasing_by
  have hpos : 0 < delimiter.length := List.length_pos_iff.mpr _hd
  have hle := find?_le_length _hd _hk
  rw [List.length_drop]
  omega

variable {delimiter b : Octets} {k : Nat}

theorem split_of_find? (hd : delimiter ≠ []) (h : find? delimiter b = some k) :
    split delimiter b = b.take k :: split delimiter (b.drop (k + delimiter.length)) := by
  rw [split]
  split
  · next hnone => rw [h] at hnone; cases hnone
  · next j hj =>
    rw [h] at hj
    cases hj
    rw [dif_neg hd]

theorem split_of_find?_none (h : find? delimiter b = none) : split delimiter b = [b] := by
  rw [split]
  split
  · rfl
  · next j hj => rw [h] at hj; cases hj

theorem split_ne_nil (delimiter b : Octets) : split delimiter b ≠ [] := by
  rw [split]
  split
  · exact List.cons_ne_nil _ _
  · split <;> exact List.cons_ne_nil _ _

/-- What was split can be joined again. -/
theorem intercalate_split (hd : delimiter ≠ []) (b : Octets) :
    delimiter.intercalate (split delimiter b) = b := by
  fun_induction split delimiter b with
  | case1 b h => exact List.intercalate_singleton
  | case2 b k h hempty => exact absurd hempty hd
  | case3 b k h _ ih =>
    have hstands := (find?_eq_some_iff.mp h).1
    rw [List.intercalate_cons_of_ne_nil (split_ne_nil _ _), ih, ← hstands.take_add,
      List.take_append_drop]

end Octets

namespace Line

variable {κ : Type} [Link κ] [Flow κ] {delimiter : Octets} {l : Line κ} {k : Nat}

/-- A wait gives the part before the first delimiter, and leaves what follows that. -/
theorem waitForOctets_hit (hd : delimiter ≠ []) (hruns : Flow.Runs l.link)
    (hquantum : 0 < l.window.quantum) (hk : Octets.find? delimiter l.ahead = some k)
    (hlimit : k + delimiter.length ≤ l.window.limit + 1) :
    ∃ l', waitForOctets delimiter l = .ok (l.ahead.take k) l' ∧
      l'.ahead = l.ahead.drop (k + delimiter.length) ∧ Flow.Runs l'.link ∧
      l'.window.limit = l.window.limit ∧ l'.window.quantum = l.window.quantum := by
  obtain ⟨l', hwait, hahead, hruns'⟩ := waitFrom_hit hd (l := { l with looks := [] }) hruns hquantum
    (Nat.zero_le _) (by rw [List.take_zero, List.infix_nil]; exact hd) hk hlimit
  have hsettings := waitFrom_settings (Boundary.ofDelimiter delimiter) 0 { l with looks := [] }
  rw [hwait] at hsettings
  refine ⟨l', ?_, hahead, hruns', hsettings⟩
  have hframe : l.ahead.take (k + delimiter.length) = l.ahead.take k ++ delimiter :=
    (Octets.find?_eq_some_iff.mp hk).1.take_add
  change waitFor (Boundary.ofDelimiter delimiter) l
    = .ok (l.ahead.take (k + delimiter.length), ()) l' at hwait
  rw [hframe] at hwait
  rw [waitForOctets_eq hd, hwait]
  simp only [List.length_append, Nat.add_sub_cancel, List.take_left]

/-- Without a delimiter the part that is left stays in the window. -/
theorem waitForOctets_miss (hd : delimiter ≠ []) (hruns : Flow.Runs l.link)
    (hquantum : 0 < l.window.quantum) (hmiss : Octets.find? delimiter l.ahead = none)
    (hlimit : l.ahead.length ≤ l.window.limit) :
    ∃ l', waitForOctets delimiter l = .error (.frameIncomplete l.ahead.length) l' ∧
      l'.window.held = l.ahead := by
  obtain ⟨l', hwait, hheld, -⟩ := waitFrom_miss hd (l := { l with looks := [] }) hruns hquantum
    (Nat.zero_le l.window.held.length) (Octets.find?_eq_none_iff_not_infix.mp hmiss) hlimit
  refine ⟨l', ?_, hheld⟩
  rw [waitForOctets_eq hd, waitFor, hwait]
  rfl

/-- Waits that are made again and again give the parts of what lies ahead, as long as the window
has room for them. -/
theorem attempts_split (hd : delimiter ≠ []) (hruns : Flow.Runs l.link)
    (hquantum : 0 < l.window.quantum) {parts : List Octets} {last : Octets}
    (hsplit : Octets.split delimiter l.ahead = parts ++ [last])
    (hparts : ∀ part ∈ parts, part.length + delimiter.length ≤ l.window.limit + 1)
    (hlast : last.length ≤ l.window.limit) :
    ∃ l', attempts (waitForOctets delimiter) (parts.length + 1) l
        = (parts.map .ok ++ [.error (.frameIncomplete last.length)], l') ∧
      l'.window.held = last := by
  -- the induction is on the parts: a wait takes the first one off what lies ahead
  induction parts generalizing l with
  | nil =>
    cases hfind : Octets.find? delimiter l.ahead with
    | none =>
      rw [Octets.split_of_find?_none hfind] at hsplit
      cases hsplit
      obtain ⟨l', hwait, hheld⟩ := waitForOctets_miss hd hruns hquantum hfind hlast
      refine ⟨l', ?_, hheld⟩
      rw [attempts, hwait]
      rfl
    | some k =>
      -- behind a delimiter there is a further part
      rw [Octets.split_of_find? hd hfind, List.nil_append, List.cons.injEq] at hsplit
      exact absurd hsplit.2 (Octets.split_ne_nil _ _)
  | cons part parts ih =>
    cases hfind : Octets.find? delimiter l.ahead with
    | none =>
      rw [Octets.split_of_find?_none hfind, List.cons_append, List.cons.injEq] at hsplit
      exact absurd hsplit.2.symm (List.append_ne_nil_of_right_ne_nil _ (List.cons_ne_nil _ _))
    | some k =>
      rw [Octets.split_of_find? hd hfind, List.cons_append, List.cons.injEq] at hsplit
      obtain ⟨hpart, hrest⟩ := hsplit
      have hk : part.length = k := by
        rw [← hpart, List.length_take]
        exact Nat.min_eq_left (Nat.le_of_add_right_le (Octets.find?_le_length hd hfind))
      have hroom := hparts part List.mem_cons_self
      rw [hk] at hroom
      obtain ⟨l', hwait, hahead, hruns', hlimit, hquantum'⟩ :=
        waitForOctets_hit hd hruns hquantum hfind hroom
      rw [← hahead] at hrest
      obtain ⟨l'', hlater, hheld⟩ := ih hruns' (by rw [hquantum']; exact hquantum) hrest
        (fun q hq => by rw [hlimit]; exact hparts q (List.mem_cons_of_mem _ hq))
        (by rw [hlimit]; exact hlast)
      refine ⟨l'', ?_, hheld⟩
      rw [List.length_cons, attempts, hwait]
      show (Except.ok _ :: (attempts _ _ l').1, (attempts _ _ l').2) = _
      rw [hlater, hpart]
      rfl

end Line

namespace Reception

/-- **Repeated waits split the stream.**  On a fresh session, whose stream comes in parts of any
sizes, they give the parts of the stream between the delimiters, in order, and then come to the end
of the stream with the last part held, provided that the window has room for each part.  Joined by
the delimiter, these parts are the stream. -/
theorem waits_split {delimiter stream : Octets} (hd : delimiter ≠ []) (r : Reception stream)
    {parts : List Octets} {last : Octets}
    (hsplit : Octets.split delimiter stream = parts ++ [last])
    (hparts : ∀ part ∈ parts, (part.length + delimiter.length : Int) ≤ r.limit + 1)
    (hlast : (last.length : Int) ≤ r.limit) :
    (∃ l, attempts (Line.waitForOctets delimiter) (parts.length + 1) r.session.line
        = (parts.map .ok ++ [.error (.frameIncomplete last.length)], l) ∧
      l.window.held = last) ∧
    delimiter.intercalate (parts ++ [last]) = stream := by
  obtain ⟨hready, -, hahead, hlimit⟩ := r.ready
  have hjoin : delimiter.intercalate (parts ++ [last]) = stream := by
    rw [← hsplit, Octets.intercalate_split hd]
  rw [← hahead] at hsplit
  refine ⟨?_, hjoin⟩
  refine Line.attempts_split hd hready.runs hready.quantum_pos hsplit (fun part hpart => ?_) ?_
  · have := hparts part hpart
    omega
  · omega

/-- The stream `xababa`, cut inside both of the delimiters `aba` that it could be cut at: they
overlap, and the first one counts. -/
theorem waits_split_overlap :
    ([0x61, 0x62, 0x61] : Octets) ≠ [] ∧
    Octets.split [0x61, 0x62, 0x61] [0x78, 0x61, 0x62, 0x61, 0x62, 0x61] = [[0x78], [0x62, 0x61]] ∧
    ∃ l, attempts (Line.waitForOctets [0x61, 0x62, 0x61]) 2
        (ofParts [[0x78, 0x61], [0x62], [0x61, 0x62, 0x61]] (by decide)).session.line
        = ([.ok [0x78], .error (.frameIncomplete 2)], l) ∧
      l.window.held = [0x62, 0x61] := by
  have hd : ([0x61, 0x62, 0x61] : Octets) ≠ [] := by decide
  have hsplit : Octets.split [0x61, 0x62, 0x61] [0x78, 0x61, 0x62, 0x61, 0x62, 0x61]
      = [[0x78]] ++ [[0x62, 0x61]] := by
    have hfirst : Octets.find? [0x61, 0x62, 0x61] [0x78, 0x61, 0x62, 0x61, 0x62, 0x61]
        = some 1 := by
      decide
    have hrest : Octets.find? [0x61, 0x62, 0x61] [0x62, 0x61] = none := by decide
    rw [Octets.split_of_find? hd hfirst]
    exact congrArg _ (Octets.split_of_find?_none hrest)
  exact ⟨hd, hsplit, (waits_split hd
    (ofParts [[0x78, 0x61], [0x62], [0x61, 0x62, 0x61]] (by decide)) hsplit
    (by decide) (by decide)).1⟩

end Reception

end NetconfWire
