/-
Text that is trimmed, and numerals that are read back.

Text stays as it is when it is trimmed exactly if it neither begins nor ends with a
character to be trimmed.  What is written for an integer, which begins with a sign or
a digit and ends with a digit, is such text, and is read back:

* `Text.trimBoth_eq_self_iff` — the texts that trimming leaves alone;
* `Numeral.ofText_signed` — an integer is read as it was written.
-/
import Mathlib.Data.List.TakeWhile
import Mathlib.Tactic.Common
import NetconfWire.Number.Numeral

namespace NetconfWire

/-! ### Trimming -/

namespace Text

section Trimming

variable {p : Char → Bool} {s : List Char}

theorem dropWhile_eq_self_iff : s.dropWhile p = s ↔ ∀ c ∈ s.head?, p c = false := by
  cases s with
  | nil => simp
  | cons c s =>
    by_cases h : p c = true
    · have hlength := List.length_dropWhile_le p s
      refine iff_of_false (fun hsame => ?_) (by simp [h])
      rw [List.dropWhile_cons_of_pos h] at hsame
      rw [hsame, List.length_cons] at hlength
      omega
    · simp [List.dropWhile_cons_of_neg h, h]

/-- Trimming leaves text alone if its ends are not to be trimmed. -/
theorem trimBoth_eq_self_iff :
    trimBoth p s = s ↔ (∀ c ∈ s.head?, p c = false) ∧ ∀ c ∈ s.getLast?, p c = false := by
  rw [← List.head?_reverse, ← dropWhile_eq_self_iff, ← dropWhile_eq_self_iff]
  constructor
  · intro h
    -- nothing can have been dropped at the front, since nothing is added at the end
    have hfront : s.dropWhile p = s := by
      refine (List.dropWhile_suffix p).eq_of_length_le ?_
      have hlength := List.length_dropWhile_le p (s.dropWhile p).reverse
      rw [← List.length_reverse, @List.length_reverse _ (s.dropWhile p)] at hlength
      rwa [← trimBoth, h] at hlength
    rw [trimBoth, hfront, List.reverse_eq_iff] at h
    exact ⟨hfront, h⟩
  · rintro ⟨hfront, hback⟩
    rw [trimBoth, hfront, hback, List.reverse_reverse]

end Trimming

end Text

namespace Numeral

section Digits

variable {c : Char} {n : Nat}

theorem digitValue?_of_isDigit (hc : c.isDigit = true) :
    Text.digitValue? c = some (c.toNat - '0'.toNat) := by
  have hbounds := Char.isDigit_iff_toNat.mp hc
  have hzero : '0'.toNat = 48 := rfl
  have hnine : '9'.toNat = 57 := rfl
  rw [Text.digitValue?, Text.zeroCodes, List.find?_cons_of_pos (by simp; omega)]
  rfl

theorem not_isBlank_of_isDigit (hc : c.isDigit = true) : Text.isBlank c = false := by
  have hbounds := Char.isDigit_iff_toNat.mp hc
  have hzero : '0'.toNat = 48 := rfl
  have hnine : '9'.toNat = 57 := rfl
  rw [hzero, hnine] at hbounds
  simp [Text.isBlank, Text.blankCodes]
  omega

theorem isDigit_of_mem_decimal (hc : c ∈ decimal n) : c.isDigit = true :=
  Nat.isDigit_of_mem_toDigits (by decide) (by decide) hc

theorem filterMap_digitValue? {digits : List Char} (h : ∀ c ∈ digits, c.isDigit = true) :
    digits.filterMap Text.digitValue? = digits.map fun c => c.toNat - '0'.toNat := by
  induction digits with
  | nil => rfl
  | cons c digits ih =>
    rw [List.filterMap_cons_some (digitValue?_of_isDigit (h c List.mem_cons_self)),
      ih fun d hd => h d (List.mem_cons_of_mem _ hd), List.map_cons]

theorem wellSpaced_of_digits {digits : List Char} (h : ∀ c ∈ digits, c.isDigit = true) :
    wellSpaced digits = true := by
  have hnone : '_' ∉ digits := fun hmem => absurd (h _ hmem) (by decide)
  have hpair : ('_', '_') ∉ digits.zip digits.tail := fun hmem =>
    hnone (List.of_mem_zip hmem).1
  have hfirst : digits.head? ≠ some '_' := fun hfirst => hnone (List.mem_of_head? hfirst)
  have hlast : digits.getLast? ≠ some '_' := fun hlast => hnone (List.mem_of_getLast? hlast)
  simp [wellSpaced, hfirst, hlast, hpair]

end Digits

/-- Digits after a sign or none are read as the number that they make up. -/
theorem read_digits {pads : Char → Bool} (shown : String) {digits : List Char} (negative : Bool)
    (h : ∀ c ∈ digits, c.isDigit = true) (hne : digits ≠ []) (hlength : digits.length ≤ digitLimit)
    (hpads : ∀ c, c = '-' ∨ c.isDigit = true → pads c = false) :
    read pads Text.digitValue? shown ((if negative then ['-'] else []) ++ digits)
      = .ok (if negative then -(value (digits.filterMap Text.digitValue?) : Int)
          else value (digits.filterMap Text.digitValue?)) := by
  obtain ⟨c, more, rfl⟩ := List.exists_cons_of_ne_nil hne
  have hc := h c List.mem_cons_self
  have hminus : c ≠ '-' := by rintro rfl; cases hc
  have hplus : c ≠ '+' := by rintro rfl; cases hc
  have hrun : (c :: more).takeWhile (fun c => (Text.digitValue? c).isSome || c == '_') = c :: more := by
    refine List.takeWhile_eq_self_iff.mpr fun d hd => ?_
    rw [digitValue?_of_isDigit (h d hd)]
    rfl
  have hrest : (c :: more).dropWhile (fun c => (Text.digitValue? c).isSome || c == '_') = [] := by
    refine List.dropWhile_eq_nil_iff.mpr fun d hd => ?_
    rw [digitValue?_of_isDigit (h d hd)]
    rfl
  have hcount : ((c :: more).filterMap Text.digitValue?).length ≤ digitLimit := by
    rw [filterMap_digitValue? h, List.length_map]
    exact hlength
  have hwell := wellSpaced_of_digits h
  -- a sign and a digit are no padding, so that the numeral begins with the first character
  cases negative with
  | true =>
    have hbody : ('-' :: c :: more).dropWhile pads = '-' :: c :: more :=
      List.dropWhile_cons_of_neg (by simp [hpads '-' (.inl rfl)])
    simp only [read, if_true, List.cons_append, List.nil_append, hbody]
    simp [hrun, hrest, hwell, Nat.not_lt.mpr hcount]
  | false =>
    have hbody : (c :: more).dropWhile pads = c :: more :=
      List.dropWhile_cons_of_neg (by simp [hpads c (.inr hc)])
    simp only [read, Bool.false_eq_true, if_false, List.nil_append, hbody]
    simp [hrun, hrest, hwell, Nat.not_lt.mpr hcount, hminus, hplus]

theorem not_isPadding (c : Char) (h : c = '-' ∨ c.isDigit = true) : isPadding c = false := by
  rcases h with rfl | hc
  · rfl
  · rw [isPadding, not_isBlank_of_isDigit hc, Bool.false_and]

theorem value_decimal (n : Nat) : value ((decimal n).filterMap Text.digitValue?) = n := by
  rw [filterMap_digitValue? fun c => isDigit_of_mem_decimal, value, List.foldl_map]
  exact Nat.ofDigitChars_ten_toDigits

theorem signed_eq (n : Int) :
    signed n = (if decide (n < 0) then ['-'] else []) ++ decimal n.natAbs := by
  rw [signed]
  by_cases h : n < 0 <;> simp [h]

/-- An integer is read as it was written, if it has not too many digits. -/
theorem ofText_signed {n : Int} (h : (decimal n.natAbs).length ≤ digitLimit) :
    ofText (String.ofList (signed n)) = .ok n := by
  rw [ofText, String.toList_ofList, signed_eq, read_digits _ _ (fun c => isDigit_of_mem_decimal)
    Nat.toDigits_ne_nil h not_isPadding, value_decimal]
  by_cases hn : n < 0
  · rw [if_pos (decide_eq_true hn)]
    congr
    omega
  · rw [if_neg (by simpa using hn)]
    congr
    omega

theorem minus_or_isDigit_of_mem_signed {n : Int} {c : Char} (hc : c ∈ signed n) :
    c = '-' ∨ c.isDigit = true := by
  rw [signed] at hc
  split at hc
  · rcases List.mem_cons.mp hc with hc | hc
    · exact .inl hc
    · exact .inr (isDigit_of_mem_decimal hc)
  · exact .inr (isDigit_of_mem_decimal hc)

/-- There is no white space around a written integer. -/
theorem strip_signed (n : Int) : Text.strip (signed n) = signed n := by
  have hblank : ∀ c ∈ signed n, Text.isBlank c = false := by
    intro c hc
    rcases minus_or_isDigit_of_mem_signed hc with rfl | hc
    · rfl
    · exact not_isBlank_of_isDigit hc
  exact Text.trimBoth_eq_self_iff.mpr
    ⟨fun c hc => hblank c (List.mem_of_head? hc), fun c hc => hblank c (List.mem_of_getLast? hc)⟩

end Numeral

end NetconfWire
