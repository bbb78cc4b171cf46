/-
Characters in a stream of octets.

A text is sought in a stream by its octets, and the reads may cut the stream inside a character.
What is found are characters all the same: in each charset the octets of a character begin with one
that continues no character, so that the octets of a text can stand in those of another one only
where a character begins, and they can stand there only if the characters do.

* `Charset.prefix_of_spell` — spelled texts are prefixes of each other only if the texts are;
* `Charset.standsAt_spell_iff` — a spelled text stands in another one where the text does;
* `Charset.find?_spell` — its first occurrence in octets is the first one in characters;
* `Reception.waitForText_first` — so whoever waits for a text gets the text before it.
-/
import NetconfWire.Proofs.Splitting
import NetconfWire.Proofs.Utf8

namespace NetconfWire

namespace Charset

variable {charset : Charset} {c d : Char} {s t : List Char} {b : Octets} {k n : Nat}

/-- The charset has the character. -/
def Has (charset : Charset) (c : Char) : Prop :=
  c.toNat < charset.size

/-- The octets of a character that the charset has. -/
def spellChar (charset : Charset) (c : Char) : Octets :=
  match charset with
  | utf8 => Utf8.encodeChar c
  | _ => [c.toNat.toUInt8]

/-- The octet stands in characters, but never first. -/
def continues (charset : Charset) (x : UInt8) : Bool :=
  match charset with
  | utf8 => Utf8.isTail x
  | _ => false

/-- The octets of a text. -/
def spell (charset : Charset) (s : List Char) : Octets :=
  s.flatMap charset.spellChar

@[simp] theorem spell_nil : charset.spell [] = [] := rfl

theorem spell_cons : charset.spell (c :: s) = charset.spellChar c ++ charset.spell s :=
  List.flatMap_cons

theorem spell_append (charset : Charset) (s t : List Char) :
    charset.spell (s ++ t) = charset.spell s ++ charset.spell t :=
  List.flatMap_append

theorem spell_eq (charset : Charset) (t : List Char) (k : Nat) :
    charset.spell t = charset.spell (t.take k) ++ charset.spell (t.drop k) := by
  rw [← spell_append, List.take_append_drop]

/-- The octets of the first characters are the first octets. -/
theorem take_spell (charset : Charset) (t : List Char) (k : Nat) :
    (charset.spell t).take (charset.spell (t.take k)).length = charset.spell (t.take k) := by
  rw [spell_eq charset t k, List.take_left]

theorem drop_spell (charset : Charset) (t : List Char) (k : Nat) :
    (charset.spell t).drop (charset.spell (t.take k)).length = charset.spell (t.drop k) := by
  rw [spell_eq charset t k, List.drop_left]

/-! ### Charsets of single octets -/

section Single

variable (h : charset ≠ utf8)
include h

theorem size_le : charset.size ≤ 256 := by
  cases charset with
  | utf8 => exact absurd rfl h
  | latin1 => exact Nat.le_refl _
  | ascii => decide

theorem spellChar_single (c : Char) : charset.spellChar c = [c.toNat.toUInt8] := by
  cases charset with
  | utf8 => exact absurd rfl h
  | latin1 => rfl
  | ascii => rfl

theorem encode_single (s : String) : charset.encode s = encodeSingle charset 0 s.toList := by
  cases charset with
  | utf8 => exact absurd rfl h
  | latin1 => rfl
  | ascii => rfl

theorem decode_single (b : Octets) :
    charset.decode b = (decodeSingle charset 0 b).map String.ofList := by
  cases charset with
  | utf8 => exact absurd rfl h
  | latin1 => rfl
  | ascii => rfl

theorem encodeSingle_eq_ok_iff :
    encodeSingle charset n s = .ok b ↔ (∀ c ∈ s, charset.Has c) ∧ charset.spell s = b := by
  induction s generalizing n b with
  | nil => simp [encodeSingle, spell]
  | cons c s ih =>
    rw [encodeSingle, spell_cons, spellChar_single h, List.forall_mem_cons]
    by_cases hc : c.toNat < charset.size
    · rw [if_pos hc]
      constructor
      · intro hok
        cases hrest : encodeSingle charset (n + 1) s with
        | error f =>
          rw [hrest] at hok
          cases hok
        | ok b' =>
          obtain ⟨hall, rfl⟩ := ih.mp hrest
          rw [hrest] at hok
          cases hok
          exact ⟨⟨hc, hall⟩, rfl⟩
      · rintro ⟨⟨-, hall⟩, rfl⟩
        rw [ih.mpr ⟨hall, rfl⟩]
        rfl
    · rw [if_neg hc]
      exact iff_of_false (fun hok => by cases hok) fun hall => hc hall.1.1

theorem decodeSingle_spell (hs : ∀ c ∈ s, charset.Has c) :
    decodeSingle charset n (charset.spell s) = .ok s := by
  have hsize := size_le h
  induction s generalizing n with
  | nil => rfl
  | cons c s ih =>
    obtain ⟨hc, hrest⟩ := List.forall_mem_cons.mp hs
    rw [Has] at hc
    have hnat : c.toNat.toUInt8.toNat = c.toNat := Utf8.toNat_toUInt8 (Nat.lt_of_lt_of_le hc hsize)
    rw [spell_cons, spellChar_single h, List.singleton_append, decodeSingle, hnat, if_pos hc,
      ih hrest, Char.ofNat_toNat]
    rfl

end Single

/-! ### The octets of a character -/

theorem has_utf8 (c : Char) : utf8.Has c := by
  have hvalid : c.toNat < 0xD800 ∨ 0xDFFF < c.toNat ∧ c.toNat < 0x110000 := c.valid
  rw [Has, size]
  omega

/-- A character begins with an octet that continues none, and all others continue it. -/
theorem spellChar_eq (charset : Charset) (c : Char) : ∃ x xs, charset.spellChar c = x :: xs ∧
    charset.continues x = false ∧ ∀ y ∈ xs, charset.continues y = true := by
  cases charset with
  | latin1 => exact ⟨_, [], rfl, rfl, fun _ h => absurd h List.not_mem_nil⟩
  | ascii => exact ⟨_, [], rfl, rfl, fun _ h => absurd h List.not_mem_nil⟩
  | utf8 =>
    have hvalid : c.toNat < 0xD800 ∨ 0xDFFF < c.toNat ∧ c.toNat < 0x110000 := c.valid
    rw [spellChar]
    fun_cases Utf8.encodeChar c with
    | case1 m h =>
      exact ⟨_, [], rfl, Utf8.isTail_eq_false (by omega) (.inl h),
        fun _ h => absurd h List.not_mem_nil⟩
    | case2 m h h' =>
      refine ⟨_, _, rfl, Utf8.isTail_eq_false (by omega) (.inr (by omega)), ?_⟩
      rw [List.forall_mem_singleton]
      exact Utf8.isTail_mod m
    | case3 m h h' h'' =>
      refine ⟨_, _, rfl, Utf8.isTail_eq_false (by omega) (.inr (by omega)), ?_⟩
      rw [List.forall_mem_cons, List.forall_mem_singleton]
      exact ⟨Utf8.isTail_mod _, Utf8.isTail_mod m⟩
    | case4 m h h' h'' =>
      refine ⟨_, _, rfl, Utf8.isTail_eq_false (by omega) (.inr (by omega)), ?_⟩
      rw [List.forall_mem_cons, List.forall_mem_cons, List.forall_mem_singleton]
      exact ⟨Utf8.isTail_mod _, Utf8.isTail_mod _, Utf8.isTail_mod m⟩

/-- The octets of a character do not begin with those of another one. -/
theorem eq_of_isPrefix_spellChar (hc : charset.Has c) (hd : charset.Has d)
    (h : charset.spellChar c <+: charset.spellChar d) : c = d := by
  by_cases hutf8 : charset = utf8
  · subst hutf8
    exact Utf8.eq_of_isPrefix_encodeChar h
  · have hsize := size_le hutf8
    rw [Has] at hc hd
    rw [spellChar_single hutf8, spellChar_single hutf8, List.cons_prefix_cons] at h
    have hnat := congrArg UInt8.toNat h.1
    rw [Utf8.toNat_toUInt8 (by omega), Utf8.toNat_toUInt8 (by omega)] at hnat
    exact Char.toNat_inj.mp hnat

/-! ### The octets of a text -/

/-- A text can be encoded exactly if the charset has its characters. -/
theorem encode_eq_ok_iff {s : String} :
    charset.encode s = .ok b ↔ (∀ c ∈ s.toList, charset.Has c) ∧ charset.spell s.toList = b := by
  by_cases hutf8 : charset = utf8
  · subst hutf8
    have hall : ∀ c ∈ s.toList, utf8.Has c := fun c _ => has_utf8 c
    show Except.ok (Utf8.encode s.toList) = .ok b ↔ _
    rw [Except.ok.injEq, and_iff_right hall]
    rfl
  · rw [encode_single hutf8, encodeSingle_eq_ok_iff hutf8]

/-- The octets of a text are read back. -/
theorem decode_spell (hs : ∀ c ∈ s, charset.Has c) :
    charset.decode (charset.spell s) = .ok (String.ofList s) := by
  by_cases hutf8 : charset = utf8
  · subst hutf8
    have hread : Utf8.decode (utf8.spell s) = .ok s := Utf8.decode_encode s
    rw [decode]
    simp only [hread]
  · rw [decode_single hutf8, decodeSingle_spell hutf8 hs]
    rfl

/-! ### Texts in texts -/

theorem spellChar_ne_nil (charset : Charset) (c : Char) : charset.spellChar c ≠ [] := by
  obtain ⟨x, xs, hchar, -⟩ := charset.spellChar_eq c
  rw [hchar]
  exact List.cons_ne_nil x xs

theorem spell_ne_nil (hne : s ≠ []) : charset.spell s ≠ [] := by
  obtain ⟨c, s', rfl⟩ := List.exists_cons_of_ne_nil hne
  rw [spell_cons]
  exact List.append_ne_nil_of_left_ne_nil (charset.spellChar_ne_nil c) _

/-- Spelled texts are prefixes of each other only if the texts are. -/
theorem prefix_of_spell (hs : ∀ c ∈ s, charset.Has c) (ht : ∀ c ∈ t, charset.Has c)
    (h : charset.spell s <+: charset.spell t) : s <+: t := by
  induction s generalizing t with
  | nil => exact List.nil_prefix
  | cons c s ih =>
    obtain ⟨hc, hs'⟩ := List.forall_mem_cons.mp hs
    rw [spell_cons] at h
    cases t with
    | nil =>
      rw [spell_nil, List.prefix_nil, List.append_eq_nil_iff] at h
      exact absurd h.1 (charset.spellChar_ne_nil c)
    | cons d t =>
      obtain ⟨hd, ht'⟩ := List.forall_mem_cons.mp ht
      rw [spell_cons] at h
      -- of two characters that stand at the same place one begins with the other
      have heq : c = d := by
        rcases List.prefix_or_prefix_of_prefix ((List.prefix_append _ _).trans h)
          (List.prefix_append (charset.spellChar d) (charset.spell t)) with hleft | hright
        · exact eq_of_isPrefix_spellChar hc hd hleft
        · exact (eq_of_isPrefix_spellChar hd hc hright).symm
      subst heq
      exact List.cons_prefix_cons.mpr
        ⟨rfl, ih hs' ht' ((List.prefix_append_right_inj _).mp h)⟩

/-- An octet that continues no character stands where a character begins. -/
theorem exists_take_of_getElem? {x : UInt8} (h : (charset.spell t)[n]? = some x)
    (hx : charset.continues x = false) :
    ∃ k, n = (charset.spell (t.take k)).length := by
  induction t generalizing n with
  | nil => cases h
  | cons c t ih =>
    obtain ⟨y, ys, hchar, -, htails⟩ := charset.spellChar_eq c
    by_cases hn : n < (charset.spellChar c).length
    · cases n with
      | zero => exact ⟨0, rfl⟩
      | succ n =>
        -- all further octets of the character continue it
        rw [spell_cons, List.getElem?_append_left hn, hchar, List.getElem?_cons_succ] at h
        rw [htails x (List.mem_of_getElem? h)] at hx
        cases hx
    · rw [spell_cons, List.getElem?_append_right (Nat.le_of_not_lt hn)] at h
      obtain ⟨k, hk⟩ := ih h
      refine ⟨k + 1, ?_⟩
      rw [List.take_succ_cons, spell_cons, List.length_append]
      omega

/-- A spelled text stands in another one exactly where the text stands in the other one. -/
theorem standsAt_spell_iff (hne : s ≠ []) (hs : ∀ c ∈ s, charset.Has c)
    (ht : ∀ c ∈ t, charset.Has c) :
    Octets.StandsAt (charset.spell s) (charset.spell t) n ↔
      ∃ k, n = (charset.spell (t.take k)).length ∧ s <+: t.drop k := by
  constructor
  · intro h
    -- the first octet of the text continues no character
    obtain ⟨c, s', rfl⟩ := List.exists_cons_of_ne_nil hne
    obtain ⟨x, xs, hchar, hx, -⟩ := charset.spellChar_eq c
    have hspell : charset.spell (c :: s') = x :: (xs ++ charset.spell s') := by
      rw [spell_cons, hchar, List.cons_append]
    have hfirst : (charset.spell t)[n]? = some x := by
      have hzero := h.getElem? (j := 0) (by rw [hspell, List.length_cons]; exact Nat.succ_pos _)
      rwa [hspell, Nat.add_zero] at hzero
    obtain ⟨k, rfl⟩ := exists_take_of_getElem? hfirst hx
    refine ⟨k, rfl, prefix_of_spell hs (fun c hc => ht c (List.mem_of_mem_drop hc)) ?_⟩
    rw [← drop_spell]
    exact h
  · rintro ⟨k, rfl, h⟩
    rw [Octets.StandsAt, drop_spell]
    exact h.flatMap charset.spellChar

/-- The text stands in the other one behind the first `k` characters, and nowhere before. -/
def FirstAt (s t : List Char) (k : Nat) : Prop :=
  s <+: t.drop k ∧ ∀ j < k, ¬ s <+: t.drop j

/-- The first occurrence in octets is the first one in characters. -/
theorem find?_spell (hne : s ≠ []) (ht : ∀ c ∈ t, charset.Has c) (h : FirstAt s t k) :
    Octets.find? (charset.spell s) (charset.spell t)
      = some (charset.spell (t.take k)).length := by
  obtain ⟨hstands, hfirst⟩ := h
  have hs : ∀ c ∈ s, charset.Has c := fun c hc => ht c (List.mem_of_mem_drop (hstands.subset hc))
  refine Octets.find?_eq_some_iff.mpr ⟨(standsAt_spell_iff hne hs ht).mpr ⟨k, rfl, hstands⟩,
    ((List.take_prefix k t).flatMap charset.spellChar).length_le, fun n hn hn' => ?_⟩
  obtain ⟨j, rfl, hj⟩ := (standsAt_spell_iff hne hs ht).mp hn'
  refine hfirst j (Nat.lt_of_not_le fun hkj => ?_) hj
  have hle : (charset.spell (t.take k)).length ≤ (charset.spell (t.take j)).length :=
    ((List.take_prefix_take_left hkj).flatMap charset.spellChar).length_le
  omega

/-- What stands before an occurrence, and the text, are spelled one behind the other. -/
theorem length_spell_take_add (charset : Charset) (h : s <+: t.drop k) :
    (charset.spell (t.take k)).length + (charset.spell s).length
      = (charset.spell (t.take (k + s.length))).length := by
  rw [List.take_add, ← List.prefix_iff_eq_take.mp h, spell_append, List.length_append]

end Charset

/-! ### Waiting for a text -/

/-- A wait for a text gives what stands before its first occurrence, and leaves what stands behind
it. -/
theorem Line.waitForText_hit {κ : Type} [Link κ] [Flow κ] {charset : Charset} {sought : String}
    {t : List Char} {k : Nat} {l : Line κ} (hne : sought ≠ "") (ht : ∀ c ∈ t, charset.Has c)
    (hfirst : Charset.FirstAt sought.toList t k) (hahead : l.ahead = charset.spell t)
    (hruns : Flow.Runs l.link) (hquantum : 0 < l.window.quantum)
    (hroom : (charset.spell (t.take (k + sought.length))).length ≤ l.window.limit + 1) :
    ∃ l', waitForText sought charset l = .ok (String.ofList (t.take k)) l' ∧
      l'.ahead = charset.spell (t.drop (k + sought.length)) := by
  have hne' : sought.toList ≠ [] := fun h => hne (String.toList_eq_nil_iff.mp h)
  -- the charset has the text that is sought, for it stands in the other one
  have hsought : charset.encode sought = .ok (charset.spell sought.toList) :=
    Charset.encode_eq_ok_iff.mpr
      ⟨fun c hc => ht c (List.mem_of_mem_drop (hfirst.1.subset hc)), rfl⟩
  have hk := Charset.find?_spell hne' ht hfirst
  have hend := Charset.length_spell_take_add charset hfirst.1
  rw [String.length_toList] at hend
  rw [← hahead] at hk
  obtain ⟨l', hwait, hrest, -⟩ := waitForOctets_hit (Charset.spell_ne_nil hne') hruns hquantum hk
    (by rw [hend]; exact hroom)
  rw [hahead, Charset.take_spell] at hwait
  rw [hahead, hend, Charset.drop_spell] at hrest
  refine ⟨l', ?_, hrest⟩
  rw [waitForText_of_encode hsought, bind_of_ok hwait,
    Charset.decode_spell fun c hc => ht c (List.mem_of_mem_take hc)]
  exact ofExcept_ok _

/-- **A text is found where its characters are.**  On a fresh session, whose stream is a text that
comes in parts of any sizes, whoever waits for another text gets what stands before its first
occurrence, and has before them the octets of what stands behind it, provided that the window has
room for the frame. -/
theorem Reception.waitForText_first {charset : Charset} {sought text : String}
    {stream frame : Octets} {k : Nat} (hne : sought ≠ "")
    (hfirst : Charset.FirstAt sought.toList text.toList k)
    (hstream : charset.encode text = .ok stream)
    (hframe : charset.encode (String.ofList (text.toList.take (k + sought.length))) = .ok frame)
    (r : Reception stream) (hlimit : (frame.length : Int) ≤ r.limit + 1) :
    ∃ l, Line.waitForText sought charset r.session.line
        = .ok (String.ofList (text.toList.take k)) l ∧
      charset.encode (String.ofList (text.toList.drop (k + sought.length))) = .ok l.ahead := by
  obtain ⟨hready, -, hahead, hwindow⟩ := r.ready
  obtain ⟨htext, hspell⟩ := Charset.encode_eq_ok_iff.mp hstream
  obtain ⟨-, hframe'⟩ := Charset.encode_eq_ok_iff.mp hframe
  rw [String.toList_ofList] at hframe'
  obtain ⟨l, hwait, hrest⟩ := Line.waitForText_hit hne htext hfirst (hahead.trans hspell.symm)
    hready.runs hready.quantum_pos (by rw [hframe']; omega)
  refine ⟨l, hwait, ?_⟩
  rw [Charset.encode_eq_ok_iff, String.toList_ofList]
  exact ⟨fun c hc => htext c (List.mem_of_mem_drop hc), hrest.symm⟩

/-- The text `aüü;b` in UTF-8, cut inside both of the characters of two octets, of which the second
one begins what is sought. -/
theorem Reception.waitForText_first_cut :
    ∃ l, Line.waitForText "ü;" .utf8
        (ofParts [[0x61, 0xC3], [0xBC, 0xC3], [0xBC, 0x3B, 0x62]] (by decide)).session.line
        = .ok "aü" l ∧ l.ahead = [0x62] := by
  have hencode {s : String} : Charset.utf8.encode s = .ok (Charset.utf8.spell s.toList) :=
    Charset.encode_eq_ok_iff.mpr ⟨fun c _ => Charset.has_utf8 c, rfl⟩
  have hfirst : Charset.FirstAt "ü;".toList "aüü;b".toList 2 := ⟨by decide, by decide⟩
  obtain ⟨l, hwait, hrest⟩ := waitForText_first (by decide) hfirst hencode hencode
    (ofParts [[0x61, 0xC3], [0xBC, 0xC3], [0xBC, 0x3B, 0x62]] (by decide)) (by decide)
  rw [hencode] at hrest
  injection hrest with hrest
  exact ⟨l, hwait, hrest.symm⟩

end NetconfWire
