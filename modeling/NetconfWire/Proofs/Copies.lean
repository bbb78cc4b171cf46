/-
Introductions that are read and written again.

Whatever a document looks like, the message that is read from it is one that can be
written: its capabilities are texts that a document can hold, without white space around
them, and its session id has no more digits than are written.  Reading what is written
gives the same message again:

* `Numeral.length_of_ofText` — an integer that is read is not too long to be written;
* `Hello.ofElement_eq_ok_iff` — the message of a root element;
* `Hello.write_of_read` — a message that is read is written, and comes back, whichever way the
  octets of its document were decoded.
-/
import Mathlib.Data.List.Induction
import Mathlib.Data.Nat.Digits.Defs
import NetconfWire.Proofs.Trees
import NetconfWire.Proofs.Writing

namespace NetconfWire

open Xml

/-! ### White space and digits -/

namespace Text

variable {p : Char → Bool} {s : List Char}

theorem trimBoth_subset : trimBoth p s ⊆ s := by
  intro c hc
  rw [trimBoth, List.mem_reverse] at hc
  have hc := (List.dropWhile_sublist p).subset hc
  exact (List.dropWhile_sublist p).subset (List.mem_reverse.mp hc)

/-- What is trimmed is not trimmed any further. -/
theorem trimBoth_trimBoth : trimBoth p (trimBoth p s) = trimBoth p s := by
  have hlast : ∀ c ∈ (trimBoth p s).getLast?, p c = false := by
    intro c hc
    rw [trimBoth, List.getLast?_reverse] at hc
    have hstop := List.head?_dropWhile_not p (s.dropWhile p).reverse
    rwa [Option.mem_def.mp hc] at hstop
  have hfirst : ∀ c ∈ (trimBoth p s).head?, p c = false := by
    intro c hc
    -- what is left begins like the text that is trimmed at its front only
    have hprefix : trimBoth p s <+: s.dropWhile p := by
      rw [← List.reverse_suffix, trimBoth, List.reverse_reverse]
      exact List.dropWhile_suffix p
    obtain ⟨rest, hrest⟩ := hprefix
    have hstop := List.head?_dropWhile_not p s
    rw [← hrest, List.head?_append, Option.mem_def.mp hc] at hstop
    exact hstop
  exact trimBoth_eq_self_iff.mpr ⟨hfirst, hlast⟩

end Text

namespace Numeral

theorem value_lt {digits : List Nat} (h : ∀ d ∈ digits, d < 10) :
    value digits < 10 ^ digits.length := by
  induction digits using List.reverseRecOn with
  | nil => decide
  | append_singleton digits d ih =>
    have hd : d < 10 := h d (by simp)
    have hvalue : value (digits ++ [d]) = 10 * value digits + d := by
      rw [value, List.foldl_append]
      rfl
    have hless := ih fun e he => h e (by simp [he])
    rw [hvalue, List.length_append, List.length_singleton, Nat.pow_succ]
    omega

theorem digitValue?_lt {c : Char} {n : Nat} (h : Text.digitValue? c = some n) : n < 10 := by
  obtain ⟨z, hz, rfl⟩ := Option.map_eq_some_iff.mp h
  have hfound := List.find?_some hz
  simp only [Bool.and_eq_true, decide_eq_true_eq] at hfound
  omega

/-- An integer that is read is not too long to be written. -/
theorem length_of_ofText {s : String} {n : Int} (h : ofText s = .ok n) :
    (decimal n.natAbs).length ≤ digitLimit := by
  have hlength : ∀ digits : List Char, (digits.filterMap Text.digitValue?).length ≤ digitLimit →
      (decimal (value (digits.filterMap Text.digitValue?))).length ≤ digitLimit := by
    intro digits hlimit
    have hless : value (digits.filterMap Text.digitValue?) < 10 ^ _ := value_lt fun d hd => by
      obtain ⟨c, -, hc⟩ := List.mem_filterMap.mp hd
      exact digitValue?_lt hc
    refine Nat.toDigits_length 10 _ _ (by decide) (Nat.lt_of_lt_of_le hless ?_)
    exact Nat.pow_le_pow_right (by decide) hlimit
  rw [ofText] at h
  unfold read at h
  extract_lets body negative unsigned inRun run digits at h
  split at h
  · cases h
  split at h
  · cases h
  next hlimit =>
  have hlimit := Nat.not_lt.mp hlimit
  split at h
  · cases h
  split at h
  · cases h
    rw [Int.natAbs_neg, Int.natAbs_natCast]
    exact hlength _ hlimit
  · cases h
    rw [Int.natAbs_natCast]
    exact hlength _ hlimit

end Numeral

namespace Hello

/-! ### What is read -/

/-- Of a decoding only what it makes of the octets of the document counts. -/
theorem read_of_decoding_eq {decoding decoding' : Decoding} {raw : Octets}
    (hsame : decoding' raw = decoding raw) (store : OctetStore) :
    read (.octets store raw) decoding' = read (.octets store raw) decoding := by
  rw [read, read, Document.read, Document.read, Document.ofOctets, Document.ofOctets, hsame]

theorem read_octets_eq_ok_iff {decoding : Decoding} {store : OctetStore} {raw : Octets}
    {h : Hello} : read (.octets store raw) decoding = .ok h ↔ ∃ s root, decoding raw = some s ∧
      Document.ofChars s = some root ∧ ofElement root = .ok h := by
  rw [read, Document.read, Document.ofOctets]
  constructor
  · intro hread
    cases hroot : (decoding raw).bind Document.ofChars with
    | none =>
      rw [hroot] at hread
      cases hread
    | some root =>
      rw [hroot] at hread
      obtain ⟨s, hs, hroot⟩ := Option.bind_eq_some_iff.mp hroot
      exact ⟨s, root, hs, hroot, mapError_eq_ok_iff.mp hread⟩
  · rintro ⟨s, root, hs, hroot, hmessage⟩
    rw [hs, Option.bind_some, hroot]
    exact mapError_eq_ok_iff.mpr hmessage

/-- The message of a root element has the texts of its capabilities, and the integer of its session
id unless that is zero. -/
theorem ofElement_eq_ok_iff {root : Element} {h : Hello} : ofElement root = .ok h ↔
    root.tag = baseTag "hello" ∧ advertised root ≠ [] ∧ ∃ id, sessionIdOf root = .ok id ∧
      h = ofParts ((advertised root).map .text) id := by
  constructor
  · intro hread
    rw [ofElement] at hread
    split at hread
    · cases hread
    next htag =>
    have htag : root.tag = baseTag "hello" := by simpa using htag
    dsimp only at hread
    split at hread
    · cases hread
    next hsome =>
    obtain ⟨id, hid, hread⟩ := bind_eq_ok_iff.mp hread
    cases hread
    exact ⟨htag, by simpa using hsome, id, hid, rfl⟩
  · rintro ⟨htag, hsome, id, hid, rfl⟩
    exact ofElement_of_hello htag hsome hid

theorem sessionIdOf_eq_ok {root : Element} {d : Datum} (h : sessionIdOf root = .ok d) :
    ∃ id : Option Int, d = (id.map Datum.integer).getD .null ∧
      ∀ n ∈ id, (Numeral.decimal n.natAbs).length ≤ Numeral.digitLimit := by
  rw [sessionIdOf] at h
  split at h
  · cases h
    exact ⟨none, rfl, fun n hn => by cases hn⟩
  · split at h
    · next n hn =>
      cases h
      refine ⟨some n, rfl, ?_⟩
      rintro m ⟨⟩
      exact Numeral.length_of_ofText hn
    · cases h

theorem plain_of_below {root e : Element} {tag : Tag} (hroot : ∀ n ∈ root.children, n.Plain)
    (he : e ∈ root.below tag) : ∀ n ∈ e.children, n.Plain := by
  obtain ⟨node, hnode, hfound⟩ := List.mem_filterMap.mp he
  have hplain := hroot node hnode
  cases hplain with
  | element hchildren =>
    dsimp only at hfound
    split at hfound
    · cases hfound
      exact hchildren
    · cases hfound
  | text => cases hfound
  | aside => cases hfound

theorem chars_leadingTexts {nodes : List Node} (h : ∀ n ∈ nodes, n.Plain) :
    Chars (Element.leadingTexts nodes).flatten := by
  induction nodes with
  | nil => exact nofun
  | cons node nodes ih =>
    rw [List.forall_mem_cons] at h
    cases h.1 with
    | text hs => exact Chars.append_iff.mpr ⟨hs, ih h.2⟩
    | element => exact nofun
    | aside => exact nofun

theorem getD_text? (e : Element) : e.text?.getD [] = (Element.leadingTexts e.children).flatten := by
  rw [Element.text?]
  split
  · next h => rw [h]; rfl
  · rfl

/-- The capabilities of a document are texts that a document can hold, without white space around
them. -/
theorem advertised_plain {root : Element} (hroot : ∀ n ∈ root.children, n.Plain) :
    ∀ s ∈ advertised root, Chars s.toList ∧ Text.strip s.toList = s.toList := by
  intro s hs
  rw [advertised] at hs
  split at hs
  · obtain ⟨e, he, rfl⟩ := List.mem_map.mp hs
    obtain ⟨list, hlist, he⟩ := List.mem_flatMap.mp he
    have hplain := plain_of_below (plain_of_below hroot hlist) he
    rw [String.toList_ofList, trimmedText, getD_text?]
    exact ⟨(chars_leadingTexts hplain).of_subset Text.trimBoth_subset, Text.trimBoth_trimBoth⟩
  · cases hs

/-- A message of texts and perhaps an integer. -/
def ofTexts (texts : List String) (id : Option Int) : Hello :=
  ⟨texts.map .text, (id.map .integer).getD .null⟩

/-- A session id of zero counts as absent. -/
theorem exists_ofTexts (texts : List String) (n : Option Int) : ∃ id : Option Int,
    ofParts (texts.map .text) ((n.map .integer).getD .null) = ofTexts texts id ∧
      ∀ m ∈ id, m ∈ n ∧ m ≠ 0 := by
  cases n with
  | none => exact ⟨none, rfl, nofun⟩
  | some m =>
    by_cases hzero : m = 0
    · exact ⟨none, by simp [ofParts, ofTexts, Datum.isAbsent, hzero], nofun⟩
    · refine ⟨some m, by simp [ofParts, ofTexts, Datum.isAbsent, hzero], ?_⟩
      rintro _ ⟨⟩
      exact ⟨rfl, hzero⟩

section Texts

variable {texts : List String} {id : Option Int}

theorem ofParts_ofTexts (hzero : ∀ m ∈ id, m ≠ 0) :
    ofParts (texts.map .text) ((id.map .integer).getD .null) = ofTexts texts id := by
  cases id with
  | none => rfl
  | some m => simp [ofParts, ofTexts, Datum.isAbsent, hzero m rfl]

theorem same_ofTexts : (ofTexts texts id).same (ofTexts texts id) = true := by
  rw [same, Bool.and_eq_true]
  refine ⟨sameItems_text.mpr rfl, ?_⟩
  cases id with
  | none => rfl
  | some m => simp [ofTexts, Datum.same, Datum.quantity?, Datum.Quantity.same]

/-- A message of texts that are trimmed already is written and read again. -/
theorem write_ofTexts (hsome : texts ≠ [])
    (htexts : ∀ s ∈ texts, Chars s.toList ∧ Text.strip s.toList = s.toList)
    (hid : ∀ m ∈ id, m ≠ 0 ∧ (Numeral.decimal m.natAbs).length ≤ Numeral.digitLimit) :
    ∃ octets, (ofTexts texts id).write = .ok octets ∧
      ∀ store, read (.octets store octets) = .ok (ofTexts texts id) := by
  have hchars : ∀ s ∈ texts, ∀ c ∈ s.toList, isChar c = true := fun s hs => (htexts s hs).1
  have hlimit : ∀ m ∈ id, (Numeral.decimal m.natAbs).length ≤ Numeral.digitLimit :=
    fun m hm => (hid m hm).2
  have hnumeral : sessionNumeral ((id.map .integer).getD .null) = .ok (id.map Numeral.signed) := by
    cases id with
    | none => rfl
    | some m =>
      have hpresent : (Datum.integer m).isAbsent = false := by simpa [Datum.isAbsent] using (hid m rfl).1
      rw [Option.map_some, Option.getD_some, sessionNumeral_of_integerOf hpresent rfl,
        if_neg (Nat.not_lt.mpr (hlimit m rfl))]
      rfl
  refine ⟨_, write_eq_ok_iff.mpr ⟨_, _, by simpa [ofTexts] using hsome, contents_text hchars, hnumeral,
    rfl⟩, fun store => ?_⟩
  have hread := @read_document store (texts.map fun s => some s.toList) id (by simpa using hsome)
    (by simpa using hchars) hlimit
  have htrimmed : (texts.map fun s => some s.toList).map
      (fun held => Datum.text (String.ofList (Text.strip (held.getD [])))) = texts.map .text := by
    rw [List.map_map]
    refine List.map_congr_left fun s hs => ?_
    simp [(htexts s hs).2]
  rw [hread, htrimmed, ofParts_ofTexts fun m hm => (hid m hm).1]

end Texts

/-- **A message that is read is one that can be written, and comes back the same**: it has a
capability, its capabilities are texts without white space around them, and its session id is null
or an integer other than zero.  The document may have been in any coding; the one that is written is
in UTF-8, and comes back to every reader that takes it for that. -/
theorem write_of_read {decoding : Decoding} {store : OctetStore} {raw : Octets} {h : Hello}
    (hread : read (.octets store raw) decoding = .ok h) :
    h.capabilities ≠ [] ∧
      (∀ d ∈ h.capabilities, ∃ s : String, d = .text s ∧ (∀ c ∈ s.toList, isChar c = true) ∧
        Text.strip s.toList = s.toList) ∧
      (h.sessionId = .null ∨ ∃ n : Int, n ≠ 0 ∧ h.sessionId = .integer n) ∧
      ∃ octets, h.write = .ok octets ∧ (∀ store', read (.octets store' octets) = .ok h) ∧
        (∀ (decoding' : Decoding) (store' : OctetStore),
          decoding' octets = Coding.characters? octets →
          read (.octets store' octets) decoding' = .ok h) ∧
        h.same h = true := by
  obtain ⟨s, root, -, hroot, hmessage⟩ := read_octets_eq_ok_iff.mp hread
  obtain ⟨-, hsome, d, hd, rfl⟩ := ofElement_eq_ok_iff.mp hmessage
  have hplain := advertised_plain (Document.plain_of_ofChars hroot)
  obtain ⟨n, rfl, hlimit⟩ := sessionIdOf_eq_ok hd
  obtain ⟨id, hparts, hid⟩ := exists_ofTexts (advertised root) n
  rw [hparts]
  obtain ⟨octets, hwrite, hback⟩ := write_ofTexts hsome hplain fun m hm =>
    ⟨(hid m hm).2, hlimit m (hid m hm).1⟩
  refine ⟨by simpa [ofTexts] using hsome, fun d hd => ?_, ?_, octets, hwrite, hback,
    fun decoding' store' hsame => (read_of_decoding_eq hsame store').trans (hback store'),
    same_ofTexts⟩
  · obtain ⟨s, hs, rfl⟩ := List.mem_map.mp hd
    exact ⟨s, rfl, hplain s hs⟩
  · cases id with
    | none => exact .inl rfl
    | some m => exact .inr ⟨m, (hid m rfl).2, rfl⟩

/-- A document with a blank in front of a capability, an empty one and a negative session id. -/
theorem write_of_read_blank : ∃ (raw : Octets) (h : Hello), read (.octets .frozen raw) = .ok h ∧
    h.capabilities = ["urn:a", ""].map .text ∧ h.sessionId = .integer (-7) ∧
    ∃ octets, h.write = .ok octets ∧ read (.octets .growable octets) = .ok h := by
  have hall : " urn:a".toList.all isChar = true := by decide
  have hchars : ∀ held ∈ [some " urn:a".toList, none], ∀ s ∈ held, ∀ c ∈ s, isChar c = true := by
    rintro held hheld s rfl
    obtain rfl : s = " urn:a".toList := by simpa using hheld
    exact List.all_eq_true.mp hall
  have hread := @read_document .frozen [some " urn:a".toList, none] (some (-7)) (by simp) hchars
    (by decide)
  have htrimmed : [some " urn:a".toList, none].map (fun held => String.ofList (Text.strip (held.getD [])))
      = ["urn:a", ""] := by
    decide +kernel
  obtain ⟨-, -, -, octets, hwrite, hback, -, -⟩ := write_of_read hread
  refine ⟨_, _, hread, ?_, rfl, octets, hwrite, hback .growable⟩
  rw [← htrimmed]
  rfl

end Hello

end NetconfWire
