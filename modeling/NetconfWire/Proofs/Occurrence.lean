/-
Occurrences of a pattern in a growing string of octets.

A stream is searched while it arrives, so what matters is how an occurrence in a
part of it relates to the occurrences in the whole:

* `find?_append` — a hit stays the first one, whatever follows;
* `delimiterEnd_eq` — a search that resumes just before the octets not yet
  searched finds what a search of everything finds;
* `onlyEnds_iff` — a pattern stands at the end only if it is not inside what is
  left without the last octet.
-/
import Mathlib.Data.List.Infix
import NetconfWire.Window.Boundary

namespace NetconfWire.Octets

variable {pattern b x : Octets} {k n : Nat}

/-- The pattern stands in `b` nowhere but at the end. -/
def OnlyEnds (pattern b : Octets) : Prop :=
  ∀ n, StandsAt pattern b n → n + pattern.length = b.length

/-! ### Places in a part and in the whole -/

theorem StandsAt.append (h : StandsAt pattern b n) : StandsAt pattern (b ++ x) n := by
  rw [StandsAt, List.drop_append]
  exact h.trans (List.prefix_append _ _)

theorem StandsAt.le_length (hp : pattern ≠ []) (h : StandsAt pattern b n) :
    n + pattern.length ≤ b.length := by
  have hle := h.length_le
  have hpos : 0 < pattern.length := List.length_pos_iff.mpr hp
  rw [List.length_drop] at hle
  omega

theorem StandsAt.getElem? {j : Nat} (h : StandsAt pattern b n) (hj : j < pattern.length) :
    b[n + j]? = pattern[j]? := by
  obtain ⟨t, ht⟩ := h
  rw [← List.getElem?_drop, ← ht, List.getElem?_append_left hj]

theorem StandsAt.of_append (h : StandsAt pattern (b ++ x) n)
    (hle : n + pattern.length ≤ b.length) : StandsAt pattern b n := by
  rw [StandsAt, List.drop_append_of_le_length (by omega)] at h
  exact List.prefix_of_prefix_length_le h (List.prefix_append _ _)
    (by rw [List.length_drop]; omega)

theorem standsAt_append_iff (hp : pattern ≠ []) :
    StandsAt pattern b n ↔ StandsAt pattern (b ++ x) n ∧ n + pattern.length ≤ b.length :=
  ⟨fun h => ⟨h.append, h.le_length hp⟩, fun h => h.1.of_append h.2⟩

theorem standsAt_length_append (b pattern : Octets) : StandsAt pattern (b ++ pattern) b.length := by
  rw [StandsAt, List.drop_left]

theorem StandsAt.take_add (h : StandsAt pattern b n) :
    b.take (n + pattern.length) = b.take n ++ pattern := by
  rw [List.take_add, ← List.prefix_iff_eq_take.mp h]

theorem standsAt_drop : StandsAt pattern (b.drop k) n ↔ StandsAt pattern b (k + n) := by
  rw [StandsAt, StandsAt, List.drop_drop]

/-- Some place holds the pattern exactly if the pattern lies inside. -/
theorem exists_standsAt_iff : (∃ n, StandsAt pattern b n) ↔ pattern <:+: b := by
  constructor
  · rintro ⟨n, h⟩
    exact h.isInfix.trans (List.drop_suffix n b).isInfix
  · rintro ⟨s, t, rfl⟩
    exact ⟨s.length, (standsAt_length_append s pattern).append⟩

/-! ### The first hit -/

theorem find?_eq_none_iff_not_infix : find? pattern b = none ↔ ¬ pattern <:+: b := by
  rw [find?_eq_none_iff, ← exists_standsAt_iff]
  constructor
  · rintro h ⟨n, hn⟩
    by_cases hle : n ≤ b.length
    · exact h n hle hn
    · -- beyond the end only the empty pattern stands, and that one stands everywhere
      rw [StandsAt, List.drop_of_length_le (by omega), List.prefix_nil] at hn
      exact h 0 (Nat.zero_le _) (by rw [hn, StandsAt]; exact List.nil_prefix)
  · rintro h n _ hn
    exact h ⟨n, hn⟩

/-- A hit stays the first one, whatever follows. -/
theorem find?_append (hp : pattern ≠ []) (h : find? pattern b = some k) :
    find? pattern (b ++ x) = some k := by
  obtain ⟨hk, hle, hmin⟩ := find?_eq_some_iff.mp h
  refine find?_eq_some_iff.mpr ⟨hk.append, by rw [List.length_append]; omega, fun j hj hs => ?_⟩
  have hend := hk.le_length hp
  exact hmin j hj (hs.of_append (by omega))

/-- The first hit in the whole is the first one in every part that holds all of it. -/
theorem find?_of_append (h : find? pattern (b ++ x) = some k)
    (hle : k + pattern.length ≤ b.length) : find? pattern b = some k := by
  obtain ⟨hk, -, hmin⟩ := find?_eq_some_iff.mp h
  exact find?_eq_some_iff.mpr
    ⟨hk.of_append hle, by omega, fun j hj hs => hmin j hj hs.append⟩

theorem find?_le_length (hp : pattern ≠ []) (h : find? pattern b = some k) :
    k + pattern.length ≤ b.length :=
  (find?_eq_some_iff.mp h).1.le_length hp

/-- The pattern does not lie in what stands before the first hit. -/
theorem not_infix_take_of_find? (hp : pattern ≠ []) (h : find? pattern b = some k) :
    ¬ pattern <:+: b.take k := by
  intro hinfix
  obtain ⟨j, hj⟩ := exists_standsAt_iff.mpr hinfix
  have hend := hj.le_length hp
  have hpos : 0 < pattern.length := List.length_pos_iff.mpr hp
  have hwhole := hj.append (x := b.drop k)
  rw [List.take_append_drop] at hwhole
  rw [List.length_take] at hend
  exact (find?_eq_some_iff.mp h).2.2 j (by omega) hwhole

/-- Octets before which nothing stands can be passed over. -/
theorem find?_drop (hle : n ≤ b.length) (hn : ∀ j < n, ¬ StandsAt pattern b j) :
    find? pattern b = (find? pattern (b.drop n)).map (n + ·) := by
  cases hf : find? pattern (b.drop n) with
  | none =>
    rw [Option.map_none, find?_eq_none_iff]
    rw [find?_eq_none_iff] at hf
    intro j hj hs
    by_cases hjn : j < n
    · exact hn j hjn hs
    · refine hf (j - n) (by rw [List.length_drop]; omega) (standsAt_drop.mpr ?_)
      rwa [Nat.add_sub_cancel' (by omega)]
  | some k =>
    obtain ⟨hk, hkl, hmin⟩ := find?_eq_some_iff.mp hf
    rw [List.length_drop] at hkl
    show find? pattern b = some (n + k)
    refine find?_eq_some_iff.mpr ⟨standsAt_drop.mp hk, by omega, fun j hj hs => ?_⟩
    by_cases hjn : j < n
    · exact hn j hjn hs
    · refine hmin (j - n) (by omega) (standsAt_drop.mpr ?_)
      rwa [Nat.add_sub_cancel' (by omega)]

theorem findBetween_eq (pattern b : Octets) (start stop : Nat) :
    findBetween pattern b start stop = find? pattern ((b.take stop).drop start) :=
  rfl

/-! ### Resuming a search -/

/-- A search that resumes just before the octets not yet searched finds what a search of
everything finds. -/
theorem delimiterEnd_eq {searched : Nat} (hp : pattern ≠ []) (hle : searched ≤ b.length)
    (hs : ¬ pattern <:+: b.take searched) :
    Boundary.delimiterEnd pattern b searched = (find? pattern b).map (· + pattern.length) := by
  have hpos : 0 < pattern.length := List.length_pos_iff.mpr hp
  set start := ((searched : Int) - pattern.length + 1).toNat with hstart
  have hn : ∀ j < start, ¬ StandsAt pattern b j := by
    intro j hj h
    -- an occurrence that starts before `start` ends among the searched octets
    refine hs (exists_standsAt_iff.mp ⟨j, ?_⟩)
    rw [← List.take_append_drop searched b] at h
    exact h.of_append (by rw [List.length_take]; omega)
  rw [Boundary.delimiterEnd, findBetween_eq, List.take_length, ← hstart,
    find?_drop (by omega) hn, Option.map_map]
  rfl

/-- The delimiter is sought as if none of the octets had been searched. -/
theorem ofDelimiter_eq {searched : Nat} (hp : pattern ≠ []) (hle : searched ≤ b.length)
    (hs : ¬ pattern <:+: b.take searched) :
    Boundary.ofDelimiter pattern b searched
      = .ok ((find? pattern b).map fun k => (((k + pattern.length : Nat) : Int), ())) := by
  rw [Boundary.ofDelimiter, delimiterEnd_eq hp hle hs]
  cases find? pattern b <;> rfl

/-- Without an occurrence there is nothing to be found, wherever the search resumes. -/
theorem ofDelimiter_eq_none {searched : Nat} (hp : pattern ≠ []) (hle : searched ≤ b.length)
    (h : find? pattern b = none) : Boundary.ofDelimiter pattern b searched = .ok none := by
  have hs : ¬ pattern <:+: b.take searched := fun hin =>
    find?_eq_none_iff_not_infix.mp h (hin.trans (List.take_prefix _ _).isInfix)
  rw [ofDelimiter_eq hp hle hs, h]
  rfl

/-- Wherever a search resumes, a hit is an occurrence. -/
theorem standsAt_of_report {searched : Nat} {stop : Int} {found : Unit}
    (h : Boundary.ofDelimiter pattern b searched = .ok (some (stop, found))) :
    ∃ k, stop = ((k + pattern.length : Nat) : Int) ∧ StandsAt pattern b k := by
  rw [Boundary.ofDelimiter] at h
  cases hend : Boundary.delimiterEnd pattern b searched with
  | none =>
    rw [hend] at h
    cases h
  | some n =>
    rw [hend] at h
    cases h
    obtain ⟨k, hk, rfl⟩ := Option.map_eq_some_iff.mp hend
    rw [findBetween_eq, List.take_length] at hk
    exact ⟨_, rfl, standsAt_drop.mp (find?_eq_some_iff.mp hk).1⟩

/-! ### Patterns at the end only -/

/-- A pattern stands at the end only if it is not inside what is left without the last octet. -/
theorem onlyEnds_iff (hp : pattern ≠ []) (hb : b ≠ []) :
    OnlyEnds pattern b ↔ ¬ pattern <:+: b.dropLast := by
  have hlen : b.dropLast.length = b.length - 1 := List.length_dropLast
  have hpos : 0 < b.length := List.length_pos_iff.mpr hb
  have hparts : ∀ n, StandsAt pattern b.dropLast n ↔
      StandsAt pattern b n ∧ n + pattern.length ≤ b.length - 1 := by
    intro n
    rw [standsAt_append_iff hp (x := [b.getLast hb]), List.dropLast_append_getLast, hlen]
  rw [← exists_standsAt_iff]
  constructor
  · rintro h ⟨n, hn⟩
    obtain ⟨hs, hle⟩ := (hparts n).mp hn
    have := h n hs
    omega
  · intro h n hs
    by_contra hne
    have hle := hs.le_length hp
    exact h ⟨n, (hparts n).mpr ⟨hs, by omega⟩⟩

/-- A pattern that stands at the end only is first found there. -/
theorem OnlyEnds.find?_eq (h : OnlyEnds pattern (b ++ pattern)) :
    find? pattern (b ++ pattern) = some b.length := by
  refine find?_eq_some_iff.mpr ⟨standsAt_length_append b pattern, by simp, fun j hj hs => ?_⟩
  have := h j hs
  rw [List.length_append] at this
  omega

end NetconfWire.Octets
