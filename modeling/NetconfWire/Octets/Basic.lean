/-
Octet strings, and the search for one inside another.

A stream of octets is a plain list, so that every statement about framing is a
statement about lists.  Main statements:

* `find?_eq_some_iff` — a hit is the first place where the pattern stands;
* `find?_eq_none_iff` — no hit means that the pattern stands nowhere.
-/

namespace NetconfWire

/-- A string of octets. -/
abbrev Octets := List UInt8

namespace Octets

/-- The octets of a text whose characters all lie below 256, one octet each. -/
def ofText (s : String) : Octets :=
  s.toList.map fun c => c.toNat.toUInt8

/-- The text whose characters are the given octets, one character each. -/
def toText (b : Octets) : String :=
  String.ofList (b.map fun x => Char.ofNat x.toNat)

/-- The place that an integer names; a negative one counts from the end. -/
def placeOf (b : Octets) (n : Int) : Nat :=
  if n < 0 then (b.length + n).toNat else min n.toNat b.length

/-- The pattern stands in `b` right after the first `n` octets. -/
def StandsAt (pattern b : Octets) (n : Nat) : Prop :=
  pattern <+: b.drop n

/-- Looks for the first occurrence of `pattern`; the subject's first octet has index `n`. -/
def findFrom (pattern : Octets) : Octets → Nat → Option Nat
  | [], n => if pattern.isEmpty then some n else none
  | x :: rest, n =>
    if pattern.isPrefixOf (x :: rest) then some n else findFrom pattern rest (n + 1)

/-- The index of the first occurrence of `pattern`. -/
def find? (pattern b : Octets) : Option Nat :=
  findFrom pattern b 0

/-- The distance from `start` to the first occurrence of `pattern` that lies wholly in the octets
from `start` up to `stop`. -/
def findBetween (pattern b : Octets) (start stop : Nat) : Option Nat :=
  find? pattern ((b.take stop).drop start)

/-! ### The search meets its description -/

theorem findFrom_eq (pattern b : Octets) (n : Nat) :
    findFrom pattern b n = (findFrom pattern b 0).map (· + n) := by
  induction b generalizing n with
  | nil =>
    simp only [findFrom]
    split <;> simp
  | cons x rest ih =>
    simp only [findFrom]
    split
    · simp
    · rw [ih (n + 1), ih (0 + 1)]
      cases findFrom pattern rest 0 <;> simp; omega

theorem find?_nil (pattern : Octets) : find? pattern [] = if pattern.isEmpty then some 0 else none :=
  rfl

theorem find?_cons (pattern : Octets) (x : UInt8) (rest : Octets) :
    find? pattern (x :: rest)
      = if pattern.isPrefixOf (x :: rest) then some 0 else (find? pattern rest).map (· + 1) := by
  rw [find?, findFrom]
  split
  · rfl
  · rw [findFrom_eq]; rfl

/-- A hit is the first place where the pattern stands. -/
theorem find?_eq_some_iff {pattern b : Octets} {k : Nat} :
    find? pattern b = some k ↔
      StandsAt pattern b k ∧ k ≤ b.length ∧ ∀ j < k, ¬ StandsAt pattern b j := by
  induction b generalizing k with
  | nil =>
    simp only [find?_nil, StandsAt, List.drop_nil, List.prefix_nil, List.isEmpty_iff]
    constructor
    · intro h
      split at h
      · cases h; exact ⟨by assumption, by simp, by omega⟩
      · cases h
    · rintro ⟨h, hk, _⟩
      rw [if_pos h]; simp at hk; simp [hk]
  | cons x rest ih =>
    rw [find?_cons]
    by_cases hp : pattern.isPrefixOf (x :: rest)
    · rw [if_pos hp]
      have h0 : StandsAt pattern (x :: rest) 0 := by
        simpa [StandsAt] using List.isPrefixOf_iff_prefix.1 hp
      constructor
      · intro h; cases h; exact ⟨h0, by simp, by omega⟩
      · rintro ⟨_, _, hmin⟩
        rcases Nat.eq_zero_or_pos k with rfl | hk
        · rfl
        · exact absurd h0 (hmin 0 hk)
    · rw [if_neg hp]
      have h0 : ¬ StandsAt pattern (x :: rest) 0 := fun h =>
        hp (List.isPrefixOf_iff_prefix.2 (by simpa [StandsAt] using h))
      constructor
      · intro h
        obtain ⟨j, hj, rfl⟩ := Option.map_eq_some_iff.1 h
        obtain ⟨h1, h2, h3⟩ := ih.1 hj
        refine ⟨by simpa [StandsAt] using h1, by simpa using h2, ?_⟩
        intro i hi
        rcases i with _ | i
        · exact h0
        · simpa [StandsAt] using h3 i (by omega)
      · rintro ⟨h1, h2, h3⟩
        rcases k with _ | k
        · exact absurd h1 h0
        · rw [Option.map_eq_some_iff]
          refine ⟨k, ih.2 ⟨by simpa [StandsAt] using h1, by simpa using h2, ?_⟩, rfl⟩
          intro j hj
          simpa [StandsAt] using h3 (j + 1) (by omega)

/-- No hit means that the pattern stands nowhere. -/
theorem find?_eq_none_iff {pattern b : Octets} :
    find? pattern b = none ↔ ∀ k ≤ b.length, ¬ StandsAt pattern b k := by
  constructor
  · intro h k
    induction k using Nat.strongRecOn with
    | _ k ih =>
      intro hk hs
      have := find?_eq_some_iff.2 ⟨hs, hk, fun j hj => ih j hj (by omega)⟩
      rw [h] at this; cases this
  · intro h
    cases hf : find? pattern b with
    | none => rfl
    | some k =>
      obtain ⟨h1, h2, _⟩ := find?_eq_some_iff.1 hf
      exact absurd h1 (h k h2)

end Octets

end NetconfWire
