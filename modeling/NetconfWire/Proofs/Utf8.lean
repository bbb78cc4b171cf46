/-
UTF-8 is read back.

A character is written as one octet or as a first octet and up to three that continue
it.  The reader refuses some sequences that look like this: those that are longer than
they need be, and those of surrogates or of codes beyond the last one.  What is written
is never one of them:

* `decodeFrom_encodeChar` — a character is read back from its octets, whatever follows;
* `decode_encode` — so is every text;
* `eq_of_isPrefix_encodeChar` — the octets of a character do not begin with those of another one;
* `mem_encode` — an octet below 128 stands for its own character only.
-/
import Mathlib.Tactic.Common
import NetconfWire.Text.Utf8

namespace NetconfWire.Utf8

/-! ### Sequences of octets -/

section Sequences

variable {n : Nat} {x y z w : UInt8} {rest : Octets}

theorem decodeFrom_one (hx : x < 0x80) :
    decodeFrom n (x :: rest) = (decodeFrom (n + 1) rest).map (Char.ofNat x.toNat :: ·) := by
  rw [decodeFrom.eq_def]
  exact if_pos hx

theorem decodeFrom_two (hx : 0xC2 ≤ x) (hx' : x < 0xE0) (hy : isTail y = true) :
    decodeFrom n (x :: y :: rest) = (decodeFrom (n + 2) rest).map
      (Char.ofNat ((x.toNat - 0xC0) * 64 + tailBits y) :: ·) := by
  have hsecond : isSecond x y = true := by grind [isSecond]
  rw [decodeFrom.eq_def]
  simp only
  rw [if_neg (by grind), if_neg (by grind), hsecond, if_neg (by simp), if_pos (by grind)]

theorem isSecond_of_isTail (hy : isTail y = true) (hshort : x = 0xE0 → 0xA0 ≤ y)
    (hsurrogate : x = 0xED → y ≤ 0x9F) (hshort' : x = 0xF0 → 0x90 ≤ y)
    (hbeyond : x = 0xF4 → y ≤ 0x8F) : isSecond x y = true := by
  grind [isSecond, isTail]

theorem decodeFrom_three (hx : 0xE0 ≤ x) (hx' : x < 0xF0) (hy : isSecond x y = true)
    (hz : isTail z = true) :
    decodeFrom n (x :: y :: z :: rest) = (decodeFrom (n + 3) rest).map
      (Char.ofNat ((x.toNat - 0xE0) * 4096 + tailBits y * 64 + tailBits z) :: ·) := by
  rw [decodeFrom.eq_def]
  simp only
  rw [if_neg (by grind), if_neg (by grind), hy, if_neg (by simp), if_neg (by grind), hz,
    if_neg (by simp), if_pos (by grind)]

theorem decodeFrom_four (hx : 0xF0 ≤ x) (hx' : x ≤ 0xF4) (hy : isSecond x y = true)
    (hz : isTail z = true) (hw : isTail w = true) :
    decodeFrom n (x :: y :: z :: w :: rest) = (decodeFrom (n + 4) rest).map
      (Char.ofNat ((x.toNat - 0xF0) * 262144 + tailBits y * 4096 + tailBits z * 64
        + tailBits w) :: ·) := by
  rw [decodeFrom.eq_def]
  simp only
  rw [if_neg (by grind), if_neg (by grind), hy, if_neg (by simp), if_neg (by grind), hz,
    if_neg (by simp), if_neg (by grind), hw, if_neg (by simp)]

end Sequences

/-! ### Characters -/

section Characters

variable {n : Nat} {x : UInt8}

theorem toNat_toUInt8 (h : n < 256) : n.toUInt8.toNat = n := by
  simp [Nat.toUInt8, UInt8.toNat_ofNat', Nat.mod_eq_of_lt h]

theorem toUInt8_lt (h : n < x.toNat) : n.toUInt8 < x := by
  have hx := x.toNat_lt
  rwa [UInt8.lt_iff_toNat_lt, toNat_toUInt8 (by omega)]

theorem toUInt8_le (h : n ≤ x.toNat) : n.toUInt8 ≤ x := by
  have hx := x.toNat_lt
  rwa [UInt8.le_iff_toNat_le, toNat_toUInt8 (by omega)]

theorem le_toUInt8 (hn : n < 256) (h : x.toNat ≤ n) : x ≤ n.toUInt8 := by
  rwa [UInt8.le_iff_toNat_le, toNat_toUInt8 hn]

theorem isTail_mod (n : Nat) : isTail (0x80 + n % 64).toUInt8 = true := by
  have hle : (0x80 + n % 64).toUInt8 ≤ 0xBF := toUInt8_le (show _ ≤ 0xBF by omega)
  have hge : 0x80 ≤ (0x80 + n % 64).toUInt8 := le_toUInt8 (by omega) (show 0x80 ≤ _ by omega)
  simp only [isTail, hge, hle, decide_true, Bool.and_self]

theorem isTail_eq_false (hn : n < 256) (h : n < 0x80 ∨ 0xC0 ≤ n) : isTail n.toUInt8 = false := by
  rw [isTail, Bool.and_eq_false_iff, decide_eq_false_iff_not, decide_eq_false_iff_not,
    UInt8.le_iff_toNat_le, UInt8.le_iff_toNat_le, toNat_toUInt8 hn]
  show ¬ 0x80 ≤ n ∨ ¬ n ≤ 0xBF
  omega

theorem tailBits_mod (n : Nat) : tailBits (0x80 + n % 64).toUInt8 = n % 64 := by
  have hlt : 0x80 + n % 64 < 256 := by omega
  have hoctet := congrArg (fun m => m - 0x80) (toNat_toUInt8 hlt)
  exact hoctet.trans (Nat.add_sub_cancel_left 0x80 (n % 64))

/-- A character is read back from its octets. -/
theorem decodeFrom_encodeChar (n : Nat) (c : Char) (rest : Octets) :
    decodeFrom n (encodeChar c ++ rest)
      = (decodeFrom (n + (encodeChar c).length) rest).map (c :: ·) := by
  have hvalid : c.toNat < 0xD800 ∨ 0xDFFF < c.toNat ∧ c.toNat < 0x110000 := c.valid
  have hc : ∀ m, m = c.toNat → Char.ofNat m = c := fun m h => by rw [h, Char.ofNat_toNat]
  fun_cases encodeChar c with
  | case1 m h =>
    refine (decodeFrom_one (toUInt8_lt h)).trans ?_
    rw [hc _ (toNat_toUInt8 (by omega))]
    rfl
  | case2 m h h' =>
    refine (decodeFrom_two (le_toUInt8 (by omega) (show 0xC2 ≤ _ by omega))
      (toUInt8_lt (show _ < 0xE0 by omega)) (isTail_mod m)).trans ?_
    rw [tailBits_mod, toNat_toUInt8 (by omega), hc _ (by omega)]
    rfl
  | case3 m h h' h'' =>
    have hfirst : (0xE0 + m / 4096).toUInt8.toNat = 0xE0 + m / 4096 := toNat_toUInt8 (by omega)
    have hsecond : isSecond (0xE0 + m / 4096).toUInt8 (0x80 + m / 64 % 64).toUInt8 = true := by
      refine isSecond_of_isTail (isTail_mod _) ?_ ?_ ?_ ?_ <;> intro hx <;> rw [hx] at hfirst
      · exact le_toUInt8 (by omega) (show 0xA0 ≤ _ by change 0xE0 = _ at hfirst; omega)
      · exact toUInt8_le (show _ ≤ 0x9F by change 0xED = _ at hfirst; omega)
      · change 0xF0 = _ at hfirst; omega
      · change 0xF4 = _ at hfirst; omega
    refine (decodeFrom_three (le_toUInt8 (by omega) (show 0xE0 ≤ _ by omega))
      (toUInt8_lt (show _ < 0xF0 by omega)) hsecond (isTail_mod m)).trans ?_
    rw [tailBits_mod, tailBits_mod, hfirst, hc _ (by omega)]
    rfl
  | case4 m h h' h'' =>
    have hfirst : (0xF0 + m / 262144).toUInt8.toNat = 0xF0 + m / 262144 := toNat_toUInt8 (by omega)
    have hsecond : isSecond (0xF0 + m / 262144).toUInt8 (0x80 + m / 4096 % 64).toUInt8 = true := by
      refine isSecond_of_isTail (isTail_mod _) ?_ ?_ ?_ ?_ <;> intro hx <;> rw [hx] at hfirst
      · change 0xE0 = _ at hfirst; omega
      · change 0xED = _ at hfirst; omega
      · exact le_toUInt8 (by omega) (show 0x90 ≤ _ by change 0xF0 = _ at hfirst; omega)
      · exact toUInt8_le (show _ ≤ 0x8F by change 0xF4 = _ at hfirst; omega)
    refine (decodeFrom_four (le_toUInt8 (by omega) (show 0xF0 ≤ _ by omega))
      (toUInt8_le (show _ ≤ 0xF4 by omega)) hsecond (isTail_mod _) (isTail_mod m)).trans ?_
    rw [tailBits_mod, tailBits_mod, tailBits_mod, hfirst, hc _ (by omega)]
    rfl

/-- The octets of a character do not begin with those of another one. -/
theorem eq_of_isPrefix_encodeChar {c d : Char} (h : encodeChar c <+: encodeChar d) : c = d := by
  obtain ⟨rest, hrest⟩ := h
  -- both characters are read from the octets of the second one
  have hread := decodeFrom_encodeChar 0 c rest
  have hread' := decodeFrom_encodeChar 0 d []
  rw [List.append_nil] at hread'
  rw [hrest, hread'] at hread
  cases hlater : decodeFrom (0 + (encodeChar c).length) rest with
  | error f =>
    rw [hlater] at hread
    cases hread
  | ok later =>
    rw [hlater] at hread
    cases hread
    rfl

theorem decodeFrom_encode (n : Nat) (s : List Char) : decodeFrom n (encode s) = .ok s := by
  induction s generalizing n with
  | nil => rfl
  | cons c s ih =>
    rw [encode, List.flatMap_cons, decodeFrom_encodeChar]
    exact congrArg (Except.map (c :: ·)) (ih _)

/-- Text is read back from its octets. -/
theorem decode_encode (s : List Char) : decode (encode s) = .ok s :=
  decodeFrom_encode 0 s

/-- A character of ASCII stands in the octets of no other character. -/
theorem mem_encode {x : UInt8} {s : List Char} (hx : x < 0x80) (h : x ∈ encode s) :
    Char.ofNat x.toNat ∈ s := by
  rw [encode, List.mem_flatMap] at h
  obtain ⟨c, hc, hmem⟩ := h
  have hlow : ∀ {m : Nat}, m < 256 → 0x80 ≤ m → x ≠ m.toUInt8 := by
    rintro m hm hge rfl
    rw [UInt8.lt_iff_toNat_lt, toNat_toUInt8 hm] at hx
    exact absurd hx (Nat.not_lt.mpr hge)
  have hvalid : c.toNat < 0xD800 ∨ 0xDFFF < c.toNat ∧ c.toNat < 0x110000 := c.valid
  revert hmem
  fun_cases encodeChar c with
  | case1 m h =>
    intro hmem
    rw [List.mem_singleton.mp hmem, toNat_toUInt8 (by omega), Char.ofNat_toNat]
    exact hc
  | case2 m h h' =>
    intro hmem
    simp only [List.mem_cons, List.not_mem_nil, or_false] at hmem
    rcases hmem with h | h <;> exact absurd h (hlow (by omega) (by omega))
  | case3 m h h' h'' =>
    intro hmem
    simp only [List.mem_cons, List.not_mem_nil, or_false] at hmem
    rcases hmem with h | h | h <;> exact absurd h (hlow (by omega) (by omega))
  | case4 m h h' h'' =>
    intro hmem
    simp only [List.mem_cons, List.not_mem_nil, or_false] at hmem
    rcases hmem with h | h | h | h <;> exact absurd h (hlow (by omega) (by omega))

end Characters
end NetconfWire.Utf8
