/-
Floating-point numbers that are written as version numbers.

A number is written with the fewest digits that read back as it, and what reads back differs
from it by half a unit of its last place at most.  Among the numbers in their normal form only
one is that near to `1.0`, and only one to `1.1`:

* `Binary64.near_shortest` — the digits of a number are near to it;
* `Binary64.eq_of_layout` — what is written with one digit on either side of the point;
* `Binary64.toText_eq_label_iff` — hence one number for each version is written as its number.
-/
import Mathlib.Data.List.TakeWhile
import NetconfWire.Frame.Version
import NetconfWire.Proofs.Rounding

namespace NetconfWire

namespace Binary64

/-! ### Multiples of a power of ten -/

theorem scaleTen_ratio (num den : Nat) (power : Int) :
    ((scaleTen num den power).1 : ℚ) / (scaleTen num den power).2 = num / den * 10 ^ power := by
  rw [scaleTen]
  split
  · next hpower =>
    obtain ⟨n, rfl⟩ := Int.eq_ofNat_of_zero_le hpower
    simp
    ring
  · next hpower =>
    obtain ⟨n, rfl⟩ : ∃ n : Nat, power = -(n : Int) := ⟨(-power).toNat, by omega⟩
    simp
    ring

theorem scaleTen_pos {den : Nat} (h : 0 < den) (num : Nat) (power : Int) :
    0 < (scaleTen num den power).2 := by
  rw [scaleTen]
  split
  · exact h
  · exact Nat.mul_pos h (Nat.pow_pos (by decide))

/-! ### Digits that read back -/

section Near

variable {m k : Nat} {e power : Int}

/-- One unit of the rounding range, of the unit that it has in common with the grid. -/
def step (e power : Int) : Nat :=
  (scaleDown 1 1 (2 - e)).1 * (scaleTen 1 1 power).2

/-- One unit of the grid, of the unit that it has in common with the rounding range. -/
def grid (e power : Int) : Nat :=
  (scaleTen 1 1 power).1 * (scaleDown 1 1 (2 - e)).2

/-- A multiple of `10 ^ power` reads back as `m * 2 ^ e`. -/
def ReadsBack (m : Nat) (e power : Int) (k : Nat) : Prop :=
  if m % 2 = 0 then
    (roundingRange m e).1 * step e power ≤ k * grid e power ∧
      k * grid e power ≤ (roundingRange m e).2.2 * step e power
  else
    (roundingRange m e).1 * step e power < k * grid e power ∧
      k * grid e power < (roundingRange m e).2.2 * step e power

instance : DecidablePred (ReadsBack m e power) := fun _ =>
  inferInstanceAs (Decidable (if m % 2 = 0 then _ ≤ _ ∧ _ ≤ _ else _ < _ ∧ _ < _))

theorem readsBack_of_hitOnGrid (h : hitOnGrid m e power = some k) : ReadsBack m e power k := by
  have hhit : ∃ (below : Nat) (nearer : Prop) (_ : Decidable nearer), hitOnGrid m e power =
      if ReadsBack m e power below then
        if ReadsBack m e power (below + 1) then
          if nearer then some below else some (below + 1)
        else some below
      else if ReadsBack m e power (below + 1) then some (below + 1)
      else none :=
    ⟨_, _, inferInstance, rfl⟩
  obtain ⟨below, nearer, _, hhit⟩ := hhit
  rw [hhit] at h
  split_ifs at h <;> cases h <;> assumption

/-- A multiple of a power of ten is within half a unit of the last place of a number. -/
def Near (m : Nat) (e : Int) (k : Nat) (power : Int) : Prop :=
  |(k : ℚ) * 10 ^ power - m * 2 ^ e| ≤ 2 ^ e / 2

/-- What reads back lies between the ends of the rounding range. -/
theorem ReadsBack.within (h : ReadsBack m e power k) :
    (roundingRange m e).1 * step e power ≤ k * grid e power ∧
      k * grid e power ≤ (4 * m + 2) * step e power := by
  rw [ReadsBack] at h
  split at h
  · exact h
  · exact ⟨h.1.le, h.2.le⟩

/-- The units in fractions of what they have in common. -/
theorem exists_common (e power : Int) : ∃ c : ℚ, 0 < c ∧
    (step e power : ℚ) = 2 ^ e / 4 * c ∧ (grid e power : ℚ) = 10 ^ power * c := by
  have hunit : ((scaleDown 1 1 (2 - e)).1 : ℚ) / (scaleDown 1 1 (2 - e)).2 = 2 ^ e / 4 := by
    rw [scaleDown_ratio, zpow_sub₀ (by norm_num)]
    norm_num
  have hgrid : ((scaleTen 1 1 power).1 : ℚ) / (scaleTen 1 1 power).2 = 10 ^ power := by
    rw [scaleTen_ratio]
    norm_num
  have hunitDen : (0 : ℚ) < (scaleDown 1 1 (2 - e)).2 := by
    exact_mod_cast scaleDown_pos Nat.one_pos 1 (2 - e)
  have hgridDen : (0 : ℚ) < (scaleTen 1 1 power).2 := by
    exact_mod_cast scaleTen_pos Nat.one_pos 1 power
  refine ⟨(scaleDown 1 1 (2 - e)).2 * (scaleTen 1 1 power).2, mul_pos hunitDen hgridDen, ?_, ?_⟩
  · rw [step, Nat.cast_mul, (div_eq_iff hunitDen.ne').mp hunit]
    ring
  · rw [grid, Nat.cast_mul, (div_eq_iff hgridDen.ne').mp hgrid]
    ring

/-- What reads back is near. -/
theorem ReadsBack.near (h : ReadsBack m e power k) : Near m e k power := by
  obtain ⟨c, hc, hstep, hgrid⟩ := exists_common e power
  obtain ⟨hleft, hright⟩ := h.within
  have hleft : ((roundingRange m e).1 : ℚ) * (2 ^ e / 4) * c ≤ k * 10 ^ power * c := by
    rw [mul_assoc, mul_assoc, ← hstep, ← hgrid]
    exact_mod_cast hleft
  have hright : (k : ℚ) * 10 ^ power * c ≤ (4 * m + 2) * (2 ^ e / 4) * c := by
    rw [mul_assoc, mul_assoc, ← hstep, ← hgrid]
    exact_mod_cast hright
  -- the range may be narrower below a power of two
  have hlow : (4 : ℚ) * m ≤ (roundingRange m e).1 + 2 := by
    have hlow : 4 * m ≤ (roundingRange m e).1 + 2 := by
      simp only [roundingRange]
      split <;> omega
    exact_mod_cast hlow
  have hlow : (4 * (m : ℚ) - 2) * (2 ^ e / 4) ≤ (roundingRange m e).1 * (2 ^ e / 4) :=
    mul_le_mul_of_nonneg_right (by linarith) (by positivity)
  have hleft := le_of_mul_le_mul_right hleft hc
  have hright := le_of_mul_le_mul_right hright hc
  rw [Near, abs_le]
  constructor <;> linarith

/-- The digits that are found read back, unless none are found. -/
theorem readsBack_of_fewestDigits {top : Int} {count fuel : Nat}
    (h : fewestDigits m e top count fuel = (k, power)) :
    (k = 0 ∧ power = 0) ∨ ReadsBack m e power k := by
  induction fuel generalizing count with
  | zero =>
    cases h
    exact .inl ⟨rfl, rfl⟩
  | succ fuel ih =>
    rw [fewestDigits] at h
    split at h
    · next hhit =>
      cases h
      exact .inr (readsBack_of_hitOnGrid hhit)
    · exact ih h

theorem Near.of_zeros {j : Nat} (h : Near m e (10 ^ j * k) power) : Near m e k (power + j) := by
  have hsame : (k : ℚ) * 10 ^ (power + j) = ((10 ^ j * k : Nat) : ℚ) * 10 ^ power := by
    rw [zpow_add₀ (by norm_num), zpow_natCast, Nat.cast_mul, Nat.cast_pow]
    push_cast
    ring
  rw [Near, hsame]
  exact h

/-- Digits without the zeros at their end. -/
def bare (digits : List Char) : List Char :=
  (digits.reverse.dropWhile (· == '0')).reverse

theorem exists_zeros (digits : List Char) :
    ∃ j, digits = bare digits ++ List.replicate j '0' := by
  refine ⟨(digits.reverse.takeWhile (· == '0')).length, ?_⟩
  have hzeros : (digits.reverse.takeWhile (· == '0')).reverse
      = List.replicate (digits.reverse.takeWhile (· == '0')).length '0' := by
    refine List.eq_replicate_iff.mpr ⟨List.length_reverse, fun c hc => ?_⟩
    have hc := List.mem_takeWhile_imp (List.mem_reverse.mp hc)
    exact eq_of_beq hc
  rw [bare, ← hzeros, ← List.reverse_append, List.takeWhile_append_dropWhile, List.reverse_reverse]

theorem shortest_eq (m : Nat) (e : Int) : ∃ top, shortest m e =
    (bare (Nat.toDigits 10 (fewestDigits m e top 1 17).1),
      (fewestDigits m e top 1 17).2 + (Nat.toDigits 10 (fewestDigits m e top 1 17).1).length - 1) :=
  ⟨_, rfl⟩

/-- **What is written is near.**  The digits of a number, of which the first one stands at the given
power of ten, are within half a unit of its last place. -/
theorem near_shortest (hdigits : (shortest m e).1 ≠ []) :
    Near m e (Nat.ofDigitChars 10 (shortest m e).1 0)
      ((shortest m e).2 + 1 - (shortest m e).1.length) := by
  obtain ⟨top, hshortest⟩ := shortest_eq m e
  rw [hshortest] at hdigits ⊢
  cases hfewest : fewestDigits m e top 1 17 with
  | mk k low =>
    rw [hfewest] at hdigits
    obtain ⟨j, hj⟩ := exists_zeros (Nat.toDigits 10 k)
    have hk : k = 10 ^ j * Nat.ofDigitChars 10 (bare (Nat.toDigits 10 k)) 0 := by
      rw [← Nat.ofDigitChars_replicate_zero, ← Nat.ofDigitChars_append, ← hj,
        Nat.ofDigitChars_ten_toDigits]
    have hlength := congrArg List.length hj
    rw [List.length_append, List.length_replicate] at hlength
    have hpower : low + (Nat.toDigits 10 k).length - 1 + 1 - (bare (Nat.toDigits 10 k)).length
        = low + j := by
      omega
    rw [hpower]
    obtain ⟨rfl, -⟩ | hback := readsBack_of_fewestDigits hfewest
    · have hnil : bare (Nat.toDigits 10 0) = [] := by decide
      dsimp only at hdigits
      exact absurd hnil hdigits
    · have hnear := hback.near
      rw [hk] at hnear
      exact hnear.of_zeros

end Near

/-! ### Layouts -/

/-- Only one or two digits of which the first one stands before the point are laid out as three
characters that begin with a one. -/
theorem eq_of_layout {digits : List Char} {power : Int} {d : Char}
    (h : layout digits power = ['1', '.', d]) :
    power = 0 ∧ (digits = ['1', d] ∨ digits = ['1'] ∧ d = '0') := by
  have hlength := congrArg List.length h
  by_cases hrange : power < -4 ∨ 16 ≤ power
  · -- the exponent alone takes four characters
    have hexponent : 2 ≤ (if (Nat.toDigits 10 power.natAbs).length < 2 then
        '0' :: Nat.toDigits 10 power.natAbs else Nat.toDigits 10 power.natAbs).length := by
      have hsize : 0 < (Nat.toDigits 10 power.natAbs).length := Nat.length_toDigits_pos
      split
      · rw [List.length_cons]
        omega
      · omega
    simp only [layout, if_pos hrange, List.length_append, List.length_cons, List.length_nil]
      at hlength
    omega
  by_cases hnegative : power < 0
  · rw [layout.eq_def, if_neg hrange, if_pos hnegative] at h
    cases h
  obtain ⟨n, rfl⟩ := Int.eq_ofNat_of_zero_le (not_lt.mp hnegative)
  rw [layout.eq_def, if_neg hrange, if_neg hnegative] at h
  simp only [Int.toNat_natCast] at h
  -- the point stands behind as many digits as there are before it
  have hback : 0 < (if (digits.drop (n + 1)).isEmpty then ['0'] else digits.drop (n + 1)).length := by
    split
    · exact Nat.one_pos
    · next hne => exact List.length_pos_of_ne_nil (mt List.isEmpty_iff.mpr hne)
  have hlength := congrArg List.length h
  simp only [List.length_append, List.length_take, List.length_replicate, List.length_cons,
    List.length_nil] at hlength
  obtain rfl : n = 0 := by omega
  refine ⟨rfl, ?_⟩
  rcases digits with _ | ⟨c, _ | ⟨c', rest⟩⟩
  · cases h
  · cases h
    exact .inr ⟨rfl, rfl⟩
  · cases h
    exact .inl rfl

theorem letter_notMem_toDigits (n : Nat) : 'v' ∉ Nat.toDigits 10 n := fun hv =>
  absurd (Nat.isDigit_of_mem_toDigits (by decide) (by decide) hv) (by decide)

theorem letter_notMem_layout {digits : List Char} (h : 'v' ∉ digits) (power : Int) :
    'v' ∉ layout digits power := by
  have hsize := letter_notMem_toDigits power.natAbs
  rw [layout.eq_def]
  split
  · simp only [List.mem_append, not_or]
    refine ⟨⟨?_, by split <;> decide⟩, ?_⟩
    · rcases digits with _ | ⟨d, _ | ⟨d', rest⟩⟩ <;> simp_all
    · split <;> simp [hsize]
  · split
    · simp [h]
    · simp only [List.mem_append, List.mem_cons, not_or]
      refine ⟨fun hv => ?_, by decide, ?_⟩
      · have hv := List.mem_of_mem_take hv
        simp [h] at hv
      · split
        · decide
        · exact fun hv => h (List.mem_of_mem_drop hv)

/-- No number is written with a letter `v`. -/
theorem letter_notMem_toText (x : Binary64) : 'v' ∉ x.toText.toList := by
  cases x with
  | nan => decide
  | infinite negative => cases negative <;> decide
  | finite negative m e =>
    have hbody : 'v' ∉ (if m = 0 then ['0', '.', '0'] else layout (shortest m e).1 (shortest m e).2) := by
      split
      · decide
      · refine letter_notMem_layout (fun hv => ?_) _
        obtain ⟨top, hshortest⟩ := shortest_eq m e
        rw [hshortest, bare, List.mem_reverse] at hv
        have hv := (List.dropWhile_suffix _).subset hv
        exact letter_notMem_toDigits _ (List.mem_reverse.mp hv)
    rw [toText, String.toList_ofList]
    cases negative with
    | true => simp [hbody]
    | false => exact hbody

/-- What is written as `1.0`, `1.1` and so on is near to that. -/
theorem near_of_toText {x : Binary64} {d : Char} (h : x.toText = String.ofList ['1', '.', d]) :
    ∃ m e, x = .finite false m e ∧ Near m e (10 + (d.toNat - '0'.toNat)) (-1) := by
  have h := congrArg String.toList h
  rw [String.toList_ofList] at h
  cases x with
  | nan => cases h
  | infinite negative => cases negative <;> cases h
  | finite negative m e =>
    rw [toText, String.toList_ofList] at h
    cases negative with
    | true => cases h
    | false =>
      refine ⟨m, e, rfl, ?_⟩
      by_cases hm : m = 0
      · simp only [if_pos hm] at h
        cases h
      simp only [if_neg hm, Bool.false_eq_true, if_false] at h
      obtain ⟨hpower, hdigits⟩ := eq_of_layout h
      have hne : (shortest m e).1 ≠ [] := by
        rintro hnil
        simp [hnil] at hdigits
      have hnear := near_shortest hne
      rw [hpower] at hnear
      obtain hdigits | ⟨hdigits, rfl⟩ := hdigits <;> rw [hdigits] at hnear
      · exact hnear
      · have hsame : ((10 : Nat) : ℚ) * 10 ^ (-1 : Int) = ((1 : Nat) : ℚ) * 10 ^ (0 : Int) := by
          norm_num
        rw [Near] at hnear ⊢
        exact hsame ▸ hnear

/-! ### Numbers in their normal form -/

/-- A number that is near to one between one and two has a unit of `2 ^ -52`. -/
theorem exponent_of_near {m k : Nat} {e power : Int} (hx : (finite false m e).IsCanonical)
    (h : Near m e k power) (hone : (1 : ℚ) ≤ k * 10 ^ power) (htwo : (k : ℚ) * 10 ^ power ≤ 3 / 2) :
    e = -52 := by
  obtain ⟨hbound, hfull⟩ := hx
  rw [Near, abs_le] at h
  have hbound : (m : ℚ) + 1 ≤ 2 ^ 53 := by exact_mod_cast hbound
  have hunit : (0 : ℚ) < 2 ^ e := by positivity
  have hge : -52 ≤ e := by
    -- in smaller units not even the greatest mantissa makes up one
    by_contra hlt
    have hsmall : (2 : ℚ) ^ e ≤ 2 ^ (-53 : Int) := zpow_le_zpow_right₀ (by norm_num) (by omega)
    norm_num at hsmall
    nlinarith
  have hle : e ≤ -52 := by
    obtain hfull | rfl := hfull
    · -- in larger units the least full mantissa makes up two
      by_contra hlt
      have hlarge : (2 : ℚ) ^ (-51 : Int) ≤ 2 ^ e := zpow_le_zpow_right₀ (by norm_num) (by omega)
      have hfull : (2 : ℚ) ^ 52 ≤ m := by exact_mod_cast hfull
      norm_num at hlarge
      nlinarith
    · decide
  omega

/-- The mantissa of a number that is near to a multiple of a tenth, if its unit is `2 ^ -52`. -/
theorem mantissa_of_near {m k : Nat} (h : Near m (-52) k (-1)) :
    k * 2 ^ 52 ≤ 10 * m + 5 ∧ 10 * m ≤ k * 2 ^ 52 + 5 := by
  rw [Near, abs_le] at h
  obtain ⟨hleft, hright⟩ := h
  norm_num at hleft hright
  constructor
  · have hcast : (k : ℚ) * 2 ^ 52 ≤ 10 * m + 5 := by
      norm_num
      linarith
    exact_mod_cast hcast
  · have hcast : (10 : ℚ) * m ≤ k * 2 ^ 52 + 5 := by
      norm_num
      linarith
    exact_mod_cast hcast

end Binary64

/-- The floating-point number nearest to the version number. -/
def Version.number : Version → Binary64
  | base10 => .ofDecimal false 10 (-1)
  | base11 => .ofDecimal false 11 (-1)

namespace Binary64

/-- **One number each is written as a version number.** -/
theorem toText_eq_label_iff {x : Binary64} (hx : x.IsCanonical) (v : Version) :
    x.toText = v.label ↔ x = v.number := by
  constructor
  · intro h
    cases v with
    | base10 =>
      obtain ⟨m, e, rfl, hnear⟩ := near_of_toText (d := '0') h
      have hnear : Near m e 10 (-1) := hnear
      obtain rfl := exponent_of_near hx hnear (by norm_num) (by norm_num)
      have hm := mantissa_of_near hnear
      obtain rfl : m = 4503599627370496 := by omega
      decide
    | base11 =>
      obtain ⟨m, e, rfl, hnear⟩ := near_of_toText (d := '1') h
      have hnear : Near m e 11 (-1) := hnear
      obtain rfl := exponent_of_near hx hnear (by norm_num) (by norm_num)
      have hm := mantissa_of_near hnear
      obtain rfl : m = 4953959590107546 := by omega
      decide
  · rintro rfl
    cases v <;> decide

end Binary64

end NetconfWire
