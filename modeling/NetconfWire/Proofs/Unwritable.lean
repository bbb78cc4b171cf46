/-
Introductions that cannot be written.

A caller may put values of any kind into an introduction, and should get a document of
its texts or be told that it cannot be written.  Two kinds of values come to something
else: a session id that is infinite, whose conversion fails with a fault of its own, and
capabilities that are null or ASCII octets, which are written although they are no text.

* `Hello.writable_iff` — the values that an element can hold;
* `Hello.write_ok_iff`, `Hello.write_error` — when a message is written, and what its
  writing fails with;
* `Hello.write_foreseen_iff` — the messages whose writing comes to what it should.
-/
import NetconfWire.Fault.Report
import NetconfWire.Proofs.Writing

namespace NetconfWire.Hello

open Xml

/-! ### Values that an element can hold -/

/-- A value that an element can hold: null, text, or octets that are ASCII; the characters are ones
that XML can hold. -/
inductive Writable : Datum → Prop
  | null : Writable .null
  | text {s : String} : (∀ c ∈ s.toList, isChar c = true) → Writable (.text s)
  | octets {store : OctetStore} {b : Octets} : store ≠ .view →
      (∀ x ∈ b, x.toNat < 128 ∧ isChar (Char.ofNat x.toNat) = true) → Writable (.octets store b)

/-- A value that is text, and no other kind of value. -/
def IsText (d : Datum) : Prop :=
  ∃ s, d = .text s

theorem toNat_ofNat_octet (x : UInt8) : (Char.ofNat x.toNat).toNat = x.toNat := by
  have hx := x.toNat_lt
  rw [Char.ofNat, dif_pos (.inl (by omega))]
  rfl

theorem asciiText_ok_iff {b : Octets} : (∃ s, asciiText b = .ok s) ↔
    ∀ x ∈ b, x.toNat < 128 ∧ isChar (Char.ofNat x.toNat) = true := by
  have hall : ((b.map fun x => Char.ofNat x.toNat).all fun c => c.toNat < 128 && isChar c) = true ↔
      ∀ x ∈ b, x.toNat < 128 ∧ isChar (Char.ofNat x.toNat) = true := by
    simp [toNat_ofNat_octet]
  rw [asciiText, ← hall]
  split
  · next h => exact iff_of_true ⟨_, rfl⟩ h
  · next h =>
    refine iff_of_false ?_ h
    rintro ⟨s, hs⟩
    cases hs

theorem writable_iff {d : Datum} : Writable d ↔ ∃ held, content d = .ok held := by
  have hoctets : ∀ b : Octets, (∃ held, (asciiText b).map some = .ok held) ↔
      ∀ x ∈ b, x.toNat < 128 ∧ isChar (Char.ofNat x.toNat) = true := by
    intro b
    rw [← asciiText_ok_iff]
    cases asciiText b <;> simp [Except.map]
  constructor
  · rintro (_ | hchars | ⟨hstore, hchars⟩)
    · exact ⟨none, rfl⟩
    · exact ⟨_, if_pos (List.all_eq_true.mpr hchars)⟩
    · next store b =>
      cases store with
      | view => exact absurd rfl hstore
      | frozen => exact (hoctets b).mpr hchars
      | growable => exact (hoctets b).mpr hchars
  · rintro ⟨held, h⟩
    cases d with
    | null => exact .null
    | text s =>
      rw [content] at h
      split at h
      · next hall => exact .text (List.all_eq_true.mp hall)
      · cases h
    | octets store b =>
      cases store with
      | view => cases h
      | frozen => exact .octets (by decide) ((hoctets b).mp ⟨held, h⟩)
      | growable => exact .octets (by decide) ((hoctets b).mp ⟨held, h⟩)
    | _ => cases h

theorem contents_ok_iff {ds : List Datum} :
    (∃ held, ds.mapM content = .ok held) ↔ ∀ d ∈ ds, Writable d := by
  simp only [mapM_eq_ok_iff, writable_iff]
  induction ds with
  | nil => simp
  | cons d ds ih =>
    rw [List.forall_mem_cons, ← ih]
    simp only [List.forall₂_cons_left_iff]
    constructor
    · rintro ⟨_, held, more, hd, hmore, rfl⟩
      exact ⟨⟨held, hd⟩, more, hmore⟩
    · rintro ⟨⟨held, hd⟩, more, hmore⟩
      exact ⟨_, held, more, hd, hmore, rfl⟩

/-! ### Session ids -/

/-- A value that is an infinite number. -/
def IsInfinite (d : Datum) : Prop :=
  ∃ negative, d = .real (.infinite negative)

theorem integerOf_error {d : Datum} {f : Fault} (h : integerOf d = .error f) :
    (∃ why, f = .helloUnwritable why) ∨ f = .infiniteInteger ∧ IsInfinite d := by
  have hnumeral : ∀ x : Except NumeralFault Int,
      (x.mapError fun why => Fault.helloUnwritable (.numeral why)) = .error f →
        ∃ why, f = .helloUnwritable why := by
    rintro (why | n) h
    · cases h
      exact ⟨_, rfl⟩
    · cases h
  cases d with
  | truth b => cases h
  | integer n => cases h
  | real x =>
    cases x with
    | nan =>
      cases h
      exact .inl ⟨_, rfl⟩
    | infinite negative =>
      cases h
      exact .inr ⟨rfl, negative, rfl⟩
    | finite => cases h
  | text s => exact .inl (hnumeral _ h)
  | octets store b => exact .inl (hnumeral _ h)
  | _ =>
    cases h
    exact .inl ⟨_, rfl⟩

theorem sessionNumeral_error {d : Datum} {f : Fault} (h : sessionNumeral d = .error f) :
    (∃ why, f = .helloUnwritable why) ∨ f = .infiniteInteger ∧ IsInfinite d := by
  cases habsent : d.isAbsent with
  | true =>
    rw [sessionNumeral, if_pos habsent] at h
    cases h
  | false =>
    cases hn : integerOf d with
    | error g =>
      rw [sessionNumeral, if_neg (by simp [habsent]), hn] at h
      cases h
      exact integerOf_error hn
    | ok n =>
      rw [sessionNumeral_of_integerOf habsent hn] at h
      split at h
      · cases h
        exact .inl ⟨_, rfl⟩
      · cases h

theorem sessionNumeral_infinite {d : Datum} (h : IsInfinite d) :
    sessionNumeral d = .error .infiniteInteger := by
  obtain ⟨negative, rfl⟩ := h
  rfl

/-! ### What writing comes to -/

variable {h : Hello} {f : Fault}

/-- A message is written if it has a capability, its capabilities can be held by elements and its
session id has a numeral. -/
theorem write_ok_iff : (∃ octets, h.write = .ok octets) ↔
    h.capabilities ≠ [] ∧ (∀ d ∈ h.capabilities, Writable d) ∧
      ∃ digits, sessionNumeral h.sessionId = .ok digits := by
  rw [← contents_ok_iff]
  constructor
  · rintro ⟨octets, hwrite⟩
    obtain ⟨held, digits, hsome, hheld, hdigits, -⟩ := write_eq_ok_iff.mp hwrite
    exact ⟨hsome, ⟨held, hheld⟩, digits, hdigits⟩
  · rintro ⟨hsome, ⟨held, hheld⟩, digits, hdigits⟩
    exact ⟨_, write_eq_ok_iff.mpr ⟨held, digits, hsome, hheld, hdigits, rfl⟩⟩

/-- An infinite session id is looked at after the capabilities, and fails with a fault of its own. -/
theorem write_infinite (hsome : h.capabilities ≠ []) (hheld : ∀ d ∈ h.capabilities, Writable d)
    (hid : IsInfinite h.sessionId) : h.write = .error .infiniteInteger := by
  obtain ⟨held, hheld⟩ := contents_ok_iff.mpr hheld
  rw [write, if_neg (by simpa using hsome), hheld, sessionNumeral_infinite hid]
  rfl

theorem write_error (hwrite : h.write = .error f) :
    f = .helloEmpty ∨ (∃ why, f = .helloUnwritable why) ∨
      f = .infiniteInteger ∧ h.capabilities ≠ [] ∧ (∀ d ∈ h.capabilities, Writable d) ∧
        IsInfinite h.sessionId := by
  rw [write] at hwrite
  split at hwrite
  · cases hwrite
    exact .inl rfl
  · next hsome =>
    cases hheld : h.capabilities.mapM content with
    | error why =>
      rw [hheld] at hwrite
      cases hwrite
      exact .inr (.inl ⟨why, rfl⟩)
    | ok held =>
      cases hdigits : sessionNumeral h.sessionId with
      | error g =>
        rw [hheld, hdigits] at hwrite
        cases hwrite
        -- the session id is looked at only when the capabilities can be held
        rcases sessionNumeral_error hdigits with hwhy | ⟨hf, hid⟩
        · exact .inr (.inl hwhy)
        · exact .inr (.inr ⟨hf, by simpa using hsome, contents_ok_iff.mp ⟨held, hheld⟩, hid⟩)
      | ok digits =>
        rw [hheld, hdigits] at hwrite
        cases hwrite

/-- What the writing of a message should come to: the document of a message of texts, or a refusal
of the message. -/
inductive Foreseen (h : Hello) : Except Fault Octets → Prop
  | document (octets : Octets) : h.capabilities ≠ [] →
      (∀ d ∈ h.capabilities, ∃ s, d = .text s ∧ ∀ c ∈ s.toList, isChar c = true) →
      Foreseen h (.ok octets)
  | refusal (f : Fault) : f.report.kind = .helloEncoding → Foreseen h (.error f)

/-- **Writing comes to what it should, unless the session id is infinite or a capability that is no
text can be written nevertheless**: then the conversion of the session id fails with an overflow, or
a document is written. -/
theorem write_foreseen_iff (h : Hello) :
    (Foreseen h h.write ↔ ¬ (h.capabilities ≠ [] ∧ (∀ d ∈ h.capabilities, Writable d) ∧
      (IsInfinite h.sessionId ∨
        (∃ digits, sessionNumeral h.sessionId = .ok digits) ∧
          ∃ d ∈ h.capabilities, ¬ IsText d))) ∧
    ∀ f, h.write = .error f → f.report.kind = .helloEncoding ∨
      f.report.kind = .overflow ∧ IsInfinite h.sessionId := by
  have hkinds : ∀ f, h.write = .error f → f.report.kind = .helloEncoding ∨
      f.report.kind = .overflow ∧ IsInfinite h.sessionId := by
    intro f hwrite
    obtain rfl | ⟨why, rfl⟩ | ⟨rfl, -, -, hinfinite⟩ := write_error hwrite
    · exact .inl rfl
    · exact .inl rfl
    · exact .inr ⟨rfl, hinfinite⟩
  refine ⟨⟨?_, fun hnot => ?_⟩, hkinds⟩
  -- both exceptions are reached only behind capabilities that can be held
  · rintro hforeseen ⟨hsome, hheld, hinfinite | ⟨hdigits, d, hd, hnotext⟩⟩
    · rw [write_infinite hsome hheld hinfinite] at hforeseen
      cases hforeseen with
      | refusal _ hkind => cases hkind
    · obtain ⟨octets, hwrite⟩ := write_ok_iff.mpr ⟨hsome, hheld, hdigits⟩
      rw [hwrite] at hforeseen
      cases hforeseen with
      | document _ _ htexts =>
        obtain ⟨s, hs, -⟩ := htexts d hd
        exact hnotext ⟨s, hs⟩
  · cases hwrite : h.write with
    | error f =>
      refine .refusal f ?_
      obtain rfl | ⟨why, rfl⟩ | ⟨-, hsome, hheld, hinfinite⟩ := write_error hwrite
      · rfl
      · rfl
      · exact absurd ⟨hsome, hheld, .inl hinfinite⟩ hnot
    | ok octets =>
      obtain ⟨hsome, hheld, hdigits⟩ := write_ok_iff.mp ⟨octets, hwrite⟩
      refine .document octets hsome fun d hd => ?_
      have htext : IsText d := by
        by_contra hnotext
        exact hnot ⟨hsome, hheld, .inr ⟨hdigits, d, hd, hnotext⟩⟩
      obtain ⟨s, rfl⟩ := htext
      cases hheld _ hd with
      | text hchars => exact ⟨s, rfl, hchars⟩

/-- An infinite session id leads to an overflow; a null capability, and one of octets, are
written. -/
theorem write_infinite_and_null :
    write ⟨[.text "urn:a"], .real (.infinite false)⟩ = .error .infiniteInteger ∧
      Fault.infiniteInteger.report.kind = .overflow ∧
      ¬ Foreseen ⟨[.text "urn:a"], .real (.infinite false)⟩
        (write ⟨[.text "urn:a"], .real (.infinite false)⟩) ∧
      ¬ Foreseen ⟨[.null], .null⟩ (write ⟨[.null], .null⟩) ∧
      ¬ Foreseen ⟨[.octets .frozen [0x61]], .null⟩ (write ⟨[.octets .frozen [0x61]], .null⟩) := by
  refine ⟨rfl, rfl, ?_, ?_, ?_⟩
  · intro h
    cases h with
    | refusal _ hkind => cases hkind
  · intro h
    cases h with
    | document _ _ htexts =>
      obtain ⟨s, hs, -⟩ := htexts .null List.mem_cons_self
      cases hs
  · intro h
    cases h with
    | document _ _ htexts =>
      obtain ⟨s, hs, -⟩ := htexts (.octets .frozen [0x61]) List.mem_cons_self
      cases hs

end NetconfWire.Hello
