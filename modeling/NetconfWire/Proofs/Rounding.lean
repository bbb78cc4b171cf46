/-
Numbers that are kept in a normal form.

The mantissa of a finite number has all its 53 digits, unless the exponent is the least one, so
that no number is kept in two ways.  Rounding a ratio finds an exponent that leaves so many
digits in front of the point, and so every number that is read is in this form:

* `Binary64.fullExponent_bounds` — the ratio in units of that exponent;
* `Binary64.isCanonical_ofRatio`, `Binary64.isCanonical_of_ofText?` — what rounding and reading
  come to.
-/
import Mathlib.Algebra.Order.Field.Power
import Mathlib.Algebra.Order.Floor.Semifield
import Mathlib.Data.Rat.Floor
import Mathlib.Tactic.FieldSimp
import Mathlib.Tactic.Linarith
import Mathlib.Tactic.NormNum
import Mathlib.Tactic.Positivity
import Mathlib.Tactic.Ring
import NetconfWire.Number.Shortest

namespace NetconfWire.Binary64

/-- The mantissa of a finite number has all its digits, unless the exponent is the least one. -/
def IsCanonical : Binary64 → Prop
  | .finite _ m e => m < mantissaBound ∧ (Nat.pow 2 52 ≤ m ∨ e = minExponent)
  | _ => True

/-! ### Ratios in units of a power of two -/

theorem scaleDown_ratio (num den : Nat) (e : Int) :
    ((scaleDown num den e).1 : ℚ) / (scaleDown num den e).2 = num / den / 2 ^ e := by
  rw [scaleDown]
  split
  · next he =>
    obtain ⟨n, rfl⟩ := Int.eq_ofNat_of_zero_le he
    simp [div_div]
  · next he =>
    obtain ⟨n, rfl⟩ : ∃ n : Nat, e = -(n : Int) := ⟨(-e).toNat, by omega⟩
    simp
    ring

theorem scaleDown_pos {den : Nat} (h : 0 < den) (num : Nat) (e : Int) :
    0 < (scaleDown num den e).2 := by
  rw [scaleDown]
  split
  · exact Nat.mul_pos h (Nat.pow_pos (by decide))
  · exact h

theorem quotient_eq (num den : Nat) (e : Int) :
    (scaleDown num den e).1 / (scaleDown num den e).2 = ⌊(num : ℚ) / den / 2 ^ e⌋₊ := by
  rw [← scaleDown_ratio, Nat.floor_div_eq_div]

theorem roundDiv_bounds (n d : Nat) : n / d ≤ roundDiv n d ∧ roundDiv n d ≤ n / d + 1 := by
  simp only [roundDiv]
  split_ifs <;> omega

/-- A guess at the exponent with which the mantissa of a ratio has all its digits: it may be too
small by one. -/
def guess (num den : Nat) : Int :=
  (Nat.log2 num : Int) - (Nat.log2 den : Int) - 53

theorem log2_bounds {n : Nat} (hn : n ≠ 0) :
    (2 : ℚ) ^ n.log2 ≤ n ∧ (n : ℚ) < 2 * 2 ^ n.log2 := by
  rw [← pow_succ']
  constructor
  · exact_mod_cast Nat.log2_self_le hn
  · exact_mod_cast Nat.lt_log2_self

theorem guess_bounds {num den : Nat} (hnum : num ≠ 0) (hden : den ≠ 0) :
    (2 : ℚ) ^ 52 ≤ num / den / 2 ^ guess num den ∧ (num : ℚ) / den / 2 ^ guess num den < 2 ^ 54 := by
  have hpow : (2 : ℚ) ^ guess num den = 2 ^ num.log2 / 2 ^ den.log2 / 2 ^ 53 := by
    rw [guess, zpow_sub₀ (by norm_num), zpow_sub₀ (by norm_num), zpow_natCast, zpow_natCast]
    norm_num
  obtain ⟨hnumLow, hnumHigh⟩ := log2_bounds hnum
  obtain ⟨hdenLow, hdenHigh⟩ := log2_bounds hden
  have hpos : (0 : ℚ) < den := lt_of_lt_of_le (by positivity) hdenLow
  have hunit : (num : ℚ) / den / 2 ^ guess num den
      = num * 2 ^ den.log2 * 2 ^ 53 / (den * 2 ^ num.log2) := by
    rw [hpow]
    field_simp
  rw [hunit, le_div_iff₀ (by positivity), div_lt_iff₀ (by positivity)]
  constructor
  · calc (2 : ℚ) ^ 52 * ((den : ℚ) * 2 ^ num.log2) ≤ 2 ^ 52 * (2 * 2 ^ den.log2 * (num : ℚ)) := by
          gcongr
      _ = (num : ℚ) * 2 ^ den.log2 * 2 ^ 53 := by ring
  · calc (num : ℚ) * 2 ^ den.log2 * 2 ^ 53 < 2 * 2 ^ num.log2 * 2 ^ den.log2 * 2 ^ 53 := by gcongr
      _ = 2 ^ 54 * (2 ^ den.log2 * 2 ^ num.log2) := by ring
      _ ≤ 2 ^ 54 * (den * 2 ^ num.log2) := by gcongr

/-- The exponent with which the mantissa of a ratio has all its digits. -/
def fullExponent (num den : Nat) : Int :=
  if mantissaBound ≤ (scaleDown num den (guess num den)).1 / (scaleDown num den (guess num den)).2
  then guess num den + 1 else guess num den

/-- In units of that exponent a ratio has 53 digits in front of the point. -/
theorem fullExponent_bounds {num den : Nat} (hnum : num ≠ 0) (hden : den ≠ 0) :
    (2 : ℚ) ^ 52 ≤ num / den / 2 ^ fullExponent num den ∧
      (num : ℚ) / den / 2 ^ fullExponent num den < 2 ^ 53 := by
  obtain ⟨hlow, hhigh⟩ := guess_bounds hnum hden
  rw [fullExponent, quotient_eq]
  split
  · next hlarge =>
    have hlarge : (2 : ℚ) ^ 53 ≤ num / den / 2 ^ guess num den := by
      have hcast := (Nat.le_floor_iff' (by decide)).mp hlarge
      exact_mod_cast hcast
    rw [zpow_add₀ (by norm_num), zpow_one, ← div_div]
    constructor <;> linarith
  · next hsmall =>
    have hcast := (Nat.floor_lt' (by decide)).mp (not_le.mp hsmall)
    exact ⟨hlow, by exact_mod_cast hcast⟩

/-! ### Rounding and reading -/

theorem ofRatio_eq (negative : Bool) {num : Nat} (h : num ≠ 0) (den : Nat) :
    ofRatio negative num den =
      let e := max minExponent (fullExponent num den)
      let m := roundDiv (scaleDown num den e).1 (scaleDown num den e).2
      let (m, e) := if m = mantissaBound then (m / 2, e + 1) else (m, e)
      if maxExponent < e then .infinite negative else .finite negative m e := by
  rw [ofRatio, if_neg h]
  rfl

theorem isCanonical_zero (negative : Bool) : (zero negative).IsCanonical :=
  ⟨by decide, .inr rfl⟩

/-- A ratio is rounded to a number in its normal form. -/
theorem isCanonical_ofRatio (negative : Bool) (num : Nat) {den : Nat} (hden : den ≠ 0) :
    (ofRatio negative num den).IsCanonical := by
  by_cases hnum : num = 0
  · rw [ofRatio, if_pos hnum]
    exact isCanonical_zero negative
  rw [ofRatio_eq negative hnum]
  obtain ⟨hlow, hhigh⟩ := fullExponent_bounds hnum hden
  generalize he : max minExponent (fullExponent num den) = e
  obtain ⟨hfloor, hceil⟩ := roundDiv_bounds (scaleDown num den e).1 (scaleDown num den e).2
  rw [quotient_eq] at hfloor hceil
  have hpos : (0 : ℚ) ≤ num / den := by positivity
  have hbelow : ⌊(num : ℚ) / den / 2 ^ e⌋₊ < mantissaBound := by
    refine (Nat.floor_lt' (by decide)).mpr ?_
    calc (num : ℚ) / den / 2 ^ e ≤ num / den / 2 ^ fullExponent num den := by
          gcongr
          · norm_num
          · omega
      _ < 2 ^ 53 := hhigh
      _ = _ := by norm_num [mantissaBound]
  have hfull : Nat.pow 2 52 ≤ ⌊(num : ℚ) / den / 2 ^ e⌋₊ ∨ e = minExponent := by
    rcases max_choice minExponent (fullExponent num den) with hmax | hmax
    · exact .inr (he.symm.trans hmax)
    · left
      rw [← he, hmax]
      refine Nat.le_floor ?_
      exact_mod_cast hlow
  -- rounding up may leave the range of mantissas, which the least full mantissa then makes up for
  dsimp only
  generalize ⌊(num : ℚ) / den / 2 ^ e⌋₊ = q at *
  generalize roundDiv (scaleDown num den e).1 (scaleDown num den e).2 = m at *
  by_cases hm : m = mantissaBound
  · rw [if_pos hm]
    dsimp only
    split
    · trivial
    · rw [hm]
      exact ⟨by decide, .inl (by decide)⟩
  · rw [if_neg hm]
    dsimp only
    split
    · trivial
    · exact ⟨by omega, hfull.imp_left (by omega)⟩

theorem isCanonical_ofDecimal (negative : Bool) (digits : Nat) (power : Int) :
    (ofDecimal negative digits power).IsCanonical := by
  rw [ofDecimal]
  dsimp only
  split_ifs
  · exact isCanonical_zero negative
  · trivial
  · exact isCanonical_zero negative
  · exact isCanonical_ofRatio negative _ Nat.one_ne_zero
  · exact isCanonical_ofRatio negative _ (Nat.pow_pos (by decide)).ne'

/-- Every number that is read is in its normal form. -/
theorem isCanonical_of_ofText? {text : String} {x : Binary64} (h : ofText? text = some x) :
    x.IsCanonical := by
  unfold ofText? at h
  extract_lets s negative body name at h
  -- the names
  split at h
  · cases h
    trivial
  split at h
  · cases h
    trivial
  -- the digits before the point and behind it
  split at h
  next whole rest _ =>
  split at h
  next part rest' _ =>
  split at h
  · cases h
  extract_lets mantissa at h
  -- the exponent
  split at h
  · cases h
    exact isCanonical_ofDecimal _ _ _
  split at h
  · cases h
  extract_lets down rest at h
  split at h
  next digits rest'' _ =>
  split at h
  · cases h
  · cases h
    exact isCanonical_ofDecimal _ _ _

end NetconfWire.Binary64
