/-
Introductions that are written and read again.

A message is written if it has a capability, each capability can stand in a document and
the session id converts to an integer that is not too long.  Whatever values these were,
the document is one of texts and perhaps an integer:

* `Hello.write_eq_ok_iff`, `Hello.write_eq_ok` — what is written;
* `Hello.read_of_write` — all that is written can be read;
* `Hello.read_write` — a message of text comes back with trimmed capabilities.
-/
import Mathlib.Data.List.Forall2
import NetconfWire.Proofs.Introductions

namespace NetconfWire

open Xml

/-! ### Computations that succeed -/

section Computations

variable {ε ε' α β : Type} {x : Except ε α} {a : α} {b : β}

theorem bind_eq_ok_iff {f : α → Except ε β} :
    (x >>= f) = .ok b ↔ ∃ a, x = .ok a ∧ f a = .ok b := by
  cases x <;> simp [bind, Except.bind]

theorem mapError_eq_ok_iff {g : ε → ε'} : x.mapError g = .ok a ↔ x = .ok a := by
  cases x <;> simp [Except.mapError]

theorem mapM_eq_ok_iff {f : α → Except ε β} {as : List α} {bs : List β} :
    as.mapM f = .ok bs ↔ List.Forall₂ (fun a b => f a = .ok b) as bs := by
  induction as generalizing bs with
  | nil =>
    rw [List.mapM_nil, List.forall₂_nil_left_iff]
    show Except.ok [] = Except.ok bs ↔ _
    rw [Except.ok.injEq, eq_comm]
  | cons a as ih =>
    rw [List.mapM_cons, bind_eq_ok_iff, List.forall₂_cons_left_iff]
    constructor
    · rintro ⟨b, ha, h⟩
      obtain ⟨more, has, h⟩ := bind_eq_ok_iff.mp h
      cases h
      exact ⟨b, more, ha, ih.mp has, rfl⟩
    · rintro ⟨b, more, ha, has, rfl⟩
      exact ⟨b, ha, bind_eq_ok_iff.mpr ⟨more, ih.mpr has, rfl⟩⟩

end Computations

namespace Hello

/-! ### What can be written -/

theorem asciiText_eq_ok {b : Octets} {s : List Char} (h : asciiText b = .ok s) :
    ∀ c ∈ s, isChar c = true := by
  rw [asciiText] at h
  split at h
  · next hall =>
    cases h
    intro c hc
    have hc := List.all_eq_true.mp hall c hc
    simp only [Bool.and_eq_true] at hc
    exact hc.2
  · cases h

/-- What an element holds for a value is text that XML can hold. -/
theorem content_eq_ok {d : Datum} {held : Option (List Char)} (h : content d = .ok held) :
    ∀ s ∈ held, ∀ c ∈ s, isChar c = true := by
  have hascii : ∀ b : Octets, (asciiText b).map some = .ok held →
      ∀ s ∈ held, ∀ c ∈ s, isChar c = true := by
    intro b h s hs
    cases hb : asciiText b with
    | error why => rw [hb] at h; cases h
    | ok t =>
      rw [hb] at h
      cases h
      cases hs
      exact asciiText_eq_ok hb
  cases d with
  | text t =>
    rw [content] at h
    split at h
    · next hall =>
      cases h
      intro s hs
      cases hs
      exact List.all_eq_true.mp hall
    · cases h
  | octets store b =>
    cases store with
    | view => cases h
    | frozen => exact hascii b h
    | growable => exact hascii b h
  | null =>
    cases h
    intro s hs
    cases hs
  | _ => cases h

theorem chars_of_contents {ds : List Datum} {capabilities : List (Option (List Char))}
    (h : List.Forall₂ (fun d held => content d = .ok held) ds capabilities) :
    ∀ held ∈ capabilities, ∀ s ∈ held, ∀ c ∈ s, isChar c = true := by
  induction h with
  | nil => simp
  | cons hd h ih => exact List.forall_mem_cons.mpr ⟨content_eq_ok hd, ih⟩

theorem sessionNumeral_of_integerOf {d : Datum} {n : Int} (hd : d.isAbsent = false)
    (hn : integerOf d = .ok n) :
    sessionNumeral d = if Numeral.digitLimit < (Numeral.decimal n.natAbs).length
      then .error (.helloUnwritable (.numeral .tooLarge)) else .ok (some (Numeral.signed n)) := by
  rw [sessionNumeral, if_neg (by simp [hd]), hn]
  show ((Numeral.write n).mapError _ >>= _) = _
  rw [Numeral.write]
  split <;> rfl

theorem sessionNumeral_eq_ok {d : Datum} {digits : Option (List Char)}
    (h : sessionNumeral d = .ok digits) :
    ∃ id : Option Int, digits = id.map Numeral.signed ∧
      ∀ n ∈ id, (Numeral.decimal n.natAbs).length ≤ Numeral.digitLimit := by
  cases habsent : d.isAbsent with
  | true =>
    rw [sessionNumeral, if_pos habsent] at h
    cases h
    exact ⟨none, rfl, fun n hn => by cases hn⟩
  | false =>
    obtain ⟨n, hn, -⟩ : ∃ n, integerOf d = .ok n ∧ _ := by
      rw [sessionNumeral, if_neg (by simp [habsent])] at h
      exact bind_eq_ok_iff.mp h
    rw [sessionNumeral_of_integerOf habsent hn] at h
    split at h
    · cases h
    · next hlimit =>
      cases h
      refine ⟨some n, rfl, fun m hm => ?_⟩
      cases hm
      exact Nat.not_lt.mp hlimit

/-- A message is written if it has a capability and each of its values can be written. -/
theorem write_eq_ok_iff {h : Hello} {octets : Octets} :
    h.write = .ok octets ↔ ∃ capabilities digits, h.capabilities ≠ [] ∧
      h.capabilities.mapM content = .ok capabilities ∧
      sessionNumeral h.sessionId = .ok digits ∧
      octets = Utf8.encode (document capabilities digits) := by
  constructor
  · intro hwrite
    rw [write] at hwrite
    split at hwrite
    · cases hwrite
    · next hsome =>
      obtain ⟨capabilities, hcapabilities, hwrite⟩ := bind_eq_ok_iff.mp hwrite
      obtain ⟨digits, hdigits, hwrite⟩ := bind_eq_ok_iff.mp hwrite
      cases hwrite
      exact ⟨capabilities, digits, by simpa using hsome, mapError_eq_ok_iff.mp hcapabilities,
        hdigits, rfl⟩
  · rintro ⟨capabilities, digits, hsome, hcapabilities, hdigits, rfl⟩
    rw [write, if_neg (by simpa using hsome), hcapabilities, hdigits]
    rfl

/-- What is written is the document of capabilities and a session id that XML can hold. -/
theorem write_eq_ok {h : Hello} {octets : Octets} (hwrite : h.write = .ok octets) :
    ∃ (capabilities : List (Option (List Char))) (id : Option Int),
      List.Forall₂ (fun d held => content d = .ok held) h.capabilities capabilities ∧
      sessionNumeral h.sessionId = .ok (id.map Numeral.signed) ∧
      capabilities ≠ [] ∧
      (∀ held ∈ capabilities, ∀ s ∈ held, ∀ c ∈ s, isChar c = true) ∧
      (∀ n ∈ id, (Numeral.decimal n.natAbs).length ≤ Numeral.digitLimit) ∧
      octets = Utf8.encode (document capabilities (id.map Numeral.signed)) := by
  obtain ⟨capabilities, digits, hsome, hcapabilities, hdigits, rfl⟩ := write_eq_ok_iff.mp hwrite
  obtain ⟨id, rfl, hlimit⟩ := sessionNumeral_eq_ok hdigits
  have hcontents := mapM_eq_ok_iff.mp hcapabilities
  refine ⟨capabilities, id, hcontents, hdigits, ?_, chars_of_contents hcontents, hlimit, rfl⟩
  rintro rfl
  exact hsome (List.forall₂_nil_right_iff.mp hcontents)

/-! ### Writing and reading -/

/-- What is written is read, whatever values were written. -/
theorem read_of_write {h : Hello} {octets : Octets} (store : OctetStore)
    (hwrite : h.write = .ok octets) :
    ∃ back, read (.octets store octets) = .ok back := by
  obtain ⟨capabilities, id, -, -, hsome, hchars, hlimit, rfl⟩ := write_eq_ok hwrite
  exact ⟨_, read_document store hsome hchars hlimit⟩

theorem contents_text {texts : List String} (h : ∀ s ∈ texts, ∀ c ∈ s.toList, isChar c = true) :
    (texts.map Datum.text).mapM content = .ok (texts.map fun s => some s.toList) := by
  rw [mapM_eq_ok_iff, List.forall₂_map_left_iff, List.forall₂_map_right_iff, List.forall₂_same]
  intro s hs
  rw [content, if_pos (List.all_eq_true.mpr (h s hs))]

theorem sameItems_text {ss ts : List String} :
    Datum.sameItems (ss.map .text) (ts.map .text) = true ↔ ss = ts := by
  induction ss generalizing ts with
  | nil => cases ts <;> simp [Datum.sameItems]
  | cons s ss ih => cases ts <;> simp [Datum.sameItems, Datum.same, ih]

/-- A session id that is null or an integer other than zero, and not too long to be written. -/
def Numbered (d : Datum) : Prop :=
  d = .null ∨ ∃ n, d.quantity? = some (.exact n) ∧ n ≠ 0 ∧
    (Numeral.decimal n.natAbs).length ≤ Numeral.digitLimit

theorem sessionNumeral_of_numbered {d : Datum} (hd : Numbered d) :
    ∃ id : Option Int, sessionNumeral d = .ok (id.map Numeral.signed) ∧
      (∀ n ∈ id, (Numeral.decimal n.natAbs).length ≤ Numeral.digitLimit) ∧
      ∀ capabilities, (ofParts capabilities d).sessionId = d ∧
        (ofParts capabilities ((id.map .integer).getD .null)).sessionId.same d = true := by
  obtain rfl | ⟨n, hn, hzero, hlimit⟩ := hd
  · exact ⟨none, rfl, by simp, fun _ => ⟨rfl, rfl⟩⟩
  · have hnumber : d.isAbsent = false ∧ integerOf d = .ok n ∧ (Datum.integer n).same d = true := by
      cases d with
      | truth b =>
        -- a true value is the number one, and is read back as that number
        cases hn
        cases b with
        | false => exact absurd rfl hzero
        | true => exact ⟨rfl, rfl, rfl⟩
      | integer m =>
        cases hn
        exact ⟨by simpa [Datum.isAbsent] using hzero, rfl,
          by simp [Datum.same, Datum.quantity?, Datum.Quantity.same]⟩
      | _ => cases hn
    obtain ⟨hpresent, hinteger, hsame⟩ := hnumber
    have hwritten : (Datum.integer n).isAbsent = false := by simpa [Datum.isAbsent] using hzero
    refine ⟨some n, ?_, ?_, fun capabilities => ⟨?_, ?_⟩⟩
    · rw [sessionNumeral_of_integerOf hpresent hinteger, if_neg (Nat.not_lt.mpr hlimit)]
      rfl
    · rintro m ⟨⟩
      exact hlimit
    · rw [ofParts, if_neg (by simp [hpresent])]
    · rw [Option.map_some, Option.getD_some, ofParts, if_neg (by simp [hwritten])]
      exact hsame

/-- Text without white space around it. -/
def trimmed (s : String) : String :=
  String.ofList (Text.strip s.toList)

theorem trimmed_eq_self_iff {s : String} : trimmed s = s ↔
    (∀ c ∈ s.toList.head?, Text.isBlank c = false) ∧
      ∀ c ∈ s.toList.getLast?, Text.isBlank c = false := by
  rw [← Text.trimBoth_eq_self_iff, trimmed, Text.strip, ← String.toList_inj, String.toList_ofList]

/-- A message of text that XML can hold is written, and what is written is read as the message
with trimmed capabilities. -/
theorem read_write {h : Hello} {texts : List String} (store : OctetStore)
    (hcapabilities : h.capabilities = texts.map .text) (hsome : texts ≠ [])
    (hchars : ∀ s ∈ texts, ∀ c ∈ s.toList, isChar c = true) (hid : Numbered h.sessionId) :
    ∃ octets back, h.write = .ok octets ∧ read (.octets store octets) = .ok back ∧
      back.capabilities = (texts.map trimmed).map .text ∧
      back.same (ofParts ((texts.map trimmed).map .text) h.sessionId) = true ∧
      (back.same h = true ↔ ∀ s ∈ texts, (∀ c ∈ s.toList.head?, Text.isBlank c = false) ∧
        ∀ c ∈ s.toList.getLast?, Text.isBlank c = false) := by
  obtain ⟨id, hnumeral, hlimit, hparts⟩ := sessionNumeral_of_numbered hid
  have hwrite : h.write
      = .ok (Utf8.encode (document (texts.map fun s => some s.toList) (id.map Numeral.signed))) :=
    write_eq_ok_iff.mpr ⟨_, _, by simpa [hcapabilities] using hsome,
      hcapabilities ▸ contents_text hchars, hnumeral, rfl⟩
  have hread := @read_document store (texts.map fun s => some s.toList) id (by simpa using hsome)
    (by simpa using hchars) hlimit
  -- no capability is null, so that each is read as its own text
  have htrimmed : (texts.map fun s => some s.toList).map
        (fun held => Datum.text (String.ofList (Text.strip (held.getD []))))
      = (texts.map trimmed).map .text := by
    simp [trimmed]
  rw [htrimmed] at hread
  obtain ⟨hkept, hsame⟩ := hparts ((texts.map trimmed).map .text)
  refine ⟨_, _, hwrite, hread, rfl, ?_, ?_⟩
  · rw [same, hkept, hsame, Bool.and_true]
    exact sameItems_text.mpr rfl
  · rw [same, hsame, Bool.and_true, hcapabilities]
    show Datum.sameItems ((texts.map trimmed).map .text) (texts.map .text) = true ↔ _
    have hfixed := @List.map_inj_left _ _ texts trimmed (fun s => s)
    rw [List.map_id'] at hfixed
    rw [sameItems_text, hfixed]
    exact forall₂_congr fun s _ => trimmed_eq_self_iff

/-- A capability with a blank in front of the characters that are not written as they are, two empty
ones and a negative session id. -/
theorem read_write_marker : ∃ octets back,
    write ⟨[.text " ]]>]]>&<\r𝔸", .text "", .text ""], .integer (-7)⟩ = .ok octets ∧
      read (.octets .frozen octets) = .ok back ∧
      back.capabilities = [.text "]]>]]>&<\r𝔸", .text "", .text ""] := by
  have hchars : ∀ s ∈ [" ]]>]]>&<\r𝔸", "", ""], s.toList.all isChar = true := by decide
  obtain ⟨octets, back, hwrite, hread, hcapabilities, -⟩ :=
    @read_write ⟨[.text " ]]>]]>&<\r𝔸", .text "", .text ""], .integer (-7)⟩
      [" ]]>]]>&<\r𝔸", "", ""] .frozen rfl (by decide)
      (fun s hs => List.all_eq_true.mp (hchars s hs)) (.inr ⟨-7, rfl, by decide, by decide⟩)
  have htrimmed : [" ]]>]]>&<\r𝔸", "", ""].map trimmed = ["]]>]]>&<\r𝔸", "", ""] := by
    decide +kernel
  rw [htrimmed] at hcapabilities
  exact ⟨octets, back, hwrite, hread, hcapabilities⟩

end Hello

end NetconfWire
