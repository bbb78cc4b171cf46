/-
What a match finds.

Matching takes what has to match afterwards as a function, so that what it comes to is what that
function comes to at some later cursor.  The number of captures is that of the cursor at the start,
whichever alternatives were tried in between:

* `Pattern.carries_run` — what a pattern comes to, what follows it comes to, at a cursor with as
  many captures;
* `Regex.length_captures` — a match has an entry for each group of the pattern;
* `Regex.stop_le_length` — it ends within the subject;
* `Regex.search_append` — a match of a pattern that spans a fixed number of octets and tests no
  others stays the first one, whatever follows the subject.
-/
import Mathlib.Tactic.Common
import NetconfWire.Pattern.Match

namespace NetconfWire

namespace Pattern

/-- What the round comes to, what has to match afterwards comes to, at a cursor with as many
captures as before. -/
def Carries (round : Round) : Prop :=
  ∀ ⦃s next done⦄, round s next = some done →
    ∃ s', s'.captures.length = s.captures.length ∧ next s' = some done

section Rounds

variable {round : Round}

theorem carries_next : Carries fun s next => next s :=
  fun s _ _ hdone => ⟨s, rfl, hdone⟩

/-- One round and another one behind it, which may depend on where the first one has led. -/
theorem Carries.andThen {later : Cursor → Round} (h : Carries round)
    (hlater : ∀ s, Carries (later s)) :
    Carries fun s next => round s fun s' => later s' s' next := by
  intro s next done hdone
  obtain ⟨s', hs', hrest⟩ := h hdone
  obtain ⟨s'', hs'', hnext⟩ := hlater s' hrest
  exact ⟨s'', hs''.trans hs', hnext⟩

theorem Carries.exactly (h : Carries round) (n : Nat) : Carries (exactly round n) := by
  induction n with
  | zero => exact carries_next
  | succ n ih => exact h.andThen fun _ => ih

theorem Carries.atMost (h : Carries round) (fuel : Nat) (last : Option Nat) :
    Carries (atMost round fuel last) := by
  induction fuel generalizing last with
  | zero => exact carries_next
  | succ fuel ih =>
    intro s next done hdone
    rw [Pattern.atMost] at hdone
    split at hdone
    · exact ⟨s, rfl, hdone⟩
    · split at hdone
      · next found hround =>
        cases hdone
        exact h.andThen (fun _ => ih (some s.ahead.length)) hround
      · exact ⟨s, rfl, hdone⟩

theorem Carries.asFew (h : Carries round) (fuel : Nat) (last : Option Nat) :
    Carries (asFew round fuel last) := by
  induction fuel generalizing last with
  | zero => exact carries_next
  | succ fuel ih =>
    intro s next done hdone
    rw [Pattern.asFew] at hdone
    split at hdone
    · next found hnext =>
      cases hdone
      exact ⟨s, rfl, hnext⟩
    · split at hdone
      · cases hdone
      · exact h.andThen (fun _ => ih (some s.ahead.length)) hdone

/-- The first way in which a round comes to an end is as good as any other. -/
theorem Carries.first (h : Carries round) : Carries fun s next => (round s some).bind next := by
  intro s next done hdone
  obtain ⟨found, hround, hnext⟩ := Option.bind_eq_some_iff.mp hdone
  obtain ⟨s', hs', hsame⟩ := h hround
  cases hsame
  exact ⟨found, hs', hnext⟩

end Rounds

theorem captures_back? {s s' : Cursor} {n : Nat} (h : s.back? n = some s') :
    s'.captures = s.captures := by
  rw [Cursor.back?] at h
  split at h
  · cases h
    rfl
  · cases h

/-- What a pattern comes to, what follows it comes to, at a cursor with as many captures. -/
theorem carries_run (p : Pattern) : Carries (run p) := by
  induction p with
  | empty => exact carries_next
  | one c =>
    intro s next done hdone
    rw [run] at hdone
    split at hdone
    · cases hdone
    · split at hdone
      · exact ⟨s.skip 1, rfl, hdone⟩
      · cases hdone
  | anchor a =>
    intro s next done hdone
    rw [run] at hdone
    split at hdone
    · exact ⟨s, rfl, hdone⟩
    · cases hdone
  | seq p q ihp ihq => exact ihp.andThen fun _ => ihq
  | alt p q ihp ihq =>
    intro s next done hdone
    rw [run] at hdone
    split at hdone
    · next found hp =>
      cases hdone
      exact ihp hp
    · exact ihq hdone
  | group index p ih =>
    intro s next done hdone
    rw [run] at hdone
    obtain ⟨s', hs', hnext⟩ := ih hdone
    exact ⟨_, (List.length_set).trans hs', hnext⟩
  | repeated hunger least most p ih =>
    cases hunger with
    | greedy => exact (ih.exactly least).andThen fun _ => ih.atMost _ _
    | lazy => exact (ih.exactly least).andThen fun _ => ih.asFew _ _
    | possessive =>
      exact (ih.first.exactly least).andThen fun _ => (ih.first.atMost _ _).first
  | backReference index folded =>
    intro s next done hdone
    rw [run] at hdone
    split at hdone
    · cases hdone
    · split at hdone
      · exact ⟨s.skip _, rfl, hdone⟩
      · cases hdone
  | look wanted back p ih =>
    intro s next done hdone
    rw [run] at hdone
    split at hdone
    · next found hfound =>
      split at hdone
      · -- the captures of what was looked for are kept
        obtain ⟨start, hback, hrun⟩ := Option.bind_eq_some_iff.mp hfound
        obtain ⟨s', hs', hsame⟩ := ih hrun
        cases hsame
        rw [captures_back? hback] at hs'
        exact ⟨{ s with captures := found.captures }, hs', hdone⟩
      · cases hdone
    · split at hdone
      · cases hdone
      · exact ⟨s, rfl, hdone⟩
  | atomic p ih => exact ih.first
  | whether index p q ihp ihq =>
    intro s next done hdone
    rw [run] at hdone
    split at hdone
    · exact ihp hdone
    · exact ihq hdone

end Pattern

/-! ### Patterns that span a fixed number of octets -/

/-- The same place in a longer subject. -/
def Cursor.extend (s : Cursor) (x : Octets) : Cursor :=
  { s with ahead := s.ahead ++ x }

/-- What lies between two places does not change. -/
theorem Cursor.upTo_extend (s s' : Cursor) (x : Octets) :
    (s.extend x).upTo (s'.extend x) = s.upTo s' := by
  show (s.ahead ++ x).take ((s.ahead ++ x).length - (s'.ahead ++ x).length) = _
  rw [List.length_append, List.length_append, Nat.add_sub_add_right,
    List.take_append_of_le_length (Nat.sub_le _ _)]
  rfl

namespace Pattern

/-- Every match takes `n` octets, and no octet behind these is looked at. -/
inductive Spans : Nat → Pattern → Prop
  | empty : Spans 0 .empty
  | one (c : OctetClass) : Spans 1 (.one c)
  | seq {m n : Nat} {p q : Pattern} (hp : Spans m p) (hq : Spans n q) : Spans (m + n) (.seq p q)
  | alt {n : Nat} {p q : Pattern} (hp : Spans n p) (hq : Spans n q) : Spans n (.alt p q)
  | group {n : Nat} {p : Pattern} (index : Nat) (hp : Spans n p) : Spans n (.group index p)

section Spans

variable {n : Nat} {p : Pattern} {s : Cursor} {next : Next}

/-- What a pattern comes to, what follows it comes to, `n` octets further on. -/
theorem Spans.exists_of_run (h : Spans n p) {done : Cursor} (hdone : run p s next = some done) :
    ∃ s', s'.ahead.length + n = s.ahead.length ∧ next s' = some done := by
  induction h generalizing s next with
  | empty => exact ⟨s, rfl, hdone⟩
  | one c =>
    rw [run] at hdone
    split at hdone
    · cases hdone
    · next x rest hahead =>
      split at hdone
      · refine ⟨s.skip 1, ?_, hdone⟩
        rw [Cursor.skip, hahead]
        rfl
      · cases hdone
  | seq _ _ ihp ihq =>
    obtain ⟨s', hs', hrest⟩ := ihp hdone
    obtain ⟨s'', hs'', hnext⟩ := ihq hrest
    exact ⟨s'', by omega, hnext⟩
  | alt _ _ ihp ihq =>
    rw [run] at hdone
    split at hdone
    · next found hp =>
      cases hdone
      exact ihp hp
    · exact ihq hdone
  | group index _ ih =>
    obtain ⟨s', hs', hnext⟩ := ih hdone
    exact ⟨{ s' with captures := s'.captures.set index (some (s.upTo s')) }, hs', hnext⟩

/-- If there are octets enough, then those that follow them make no difference to a pattern, unless
they do to what has to match afterwards. -/
theorem Spans.run_extend (h : Spans n p) {later : Next} {x : Octets} (hle : n ≤ s.ahead.length)
    (hlater : ∀ s', s'.ahead.length + n = s.ahead.length →
      later (s'.extend x) = (next s').map (·.extend x)) :
    run p (s.extend x) later = (run p s next).map (·.extend x) := by
  induction h generalizing s next later with
  | empty => exact hlater s rfl
  | one c =>
    obtain ⟨passed, ahead, captures⟩ := s
    rcases ahead with _ | ⟨y, rest⟩
    · cases hle
    · show (if c.has y then later _ else none) = Option.map _ (if c.has y then next _ else none)
      split
      · exact hlater (Cursor.skip ⟨passed, y :: rest, captures⟩ 1) rfl
      · rfl
  | seq _ _ ihp ihq =>
    refine ihp (by omega) fun s' hs' => ihq (by omega) fun s'' hs'' => hlater s'' (by omega)
  | alt _ _ ihp ihq =>
    rw [run, run, ihp hle hlater, ihq hle hlater]
    cases run _ s next <;> rfl
  | group index _ ih =>
    refine ih hle fun s' hs' => ?_
    rw [Cursor.upTo_extend]
    exact hlater { s' with captures := s'.captures.set index (some (s.upTo s')) } hs'

end Spans

end Pattern

/-! ### Matches of a whole pattern -/

namespace Regex

variable {r : Regex} {n : Nat} {passed ahead subject : Octets} {m : RegexMatch}

/-- A match has an entry for each group and ends within the octets ahead. -/
theorem matchAt_eq_some (h : r.matchAt n passed ahead = some m) :
    m.captures.length = r.groups ∧ m.stop ≤ n + ahead.length := by
  rw [matchAt] at h
  obtain ⟨done, hrun, rfl⟩ := Option.map_eq_some_iff.mp h
  obtain ⟨s', hs', hsame⟩ := Pattern.carries_run r.tree hrun
  cases hsame
  rw [List.length_replicate] at hs'
  refine ⟨?_, Nat.add_le_add_left ?_ n⟩
  · show (done.captures.drop 1).length = _
    rw [List.length_drop, hs', Nat.add_sub_cancel]
  · exact Nat.le_trans (List.length_take_le _ _) (Nat.sub_le _ _)

theorem searchFrom_eq_some (h : r.searchFrom n passed ahead = some m) :
    m.captures.length = r.groups ∧ m.stop ≤ n + ahead.length := by
  induction ahead generalizing n passed with
  | nil => exact matchAt_eq_some h
  | cons x rest ih =>
    rw [searchFrom] at h
    split at h
    · next found hfound =>
      cases h
      exact matchAt_eq_some hfound
    · obtain ⟨hcaptures, hstop⟩ := ih h
      refine ⟨hcaptures, ?_⟩
      rw [List.length_cons]
      omega

/-- A match has an entry for each group of the pattern. -/
theorem length_captures (h : r.search subject = some m) : m.captures.length = r.groups :=
  (searchFrom_eq_some h).1

/-- A match ends within the subject. -/
theorem stop_le_length (h : r.search subject = some m) : m.stop ≤ subject.length :=
  Nat.zero_add subject.length ▸ (searchFrom_eq_some h).2

section Spans

variable {width : Nat} (hspans : Pattern.Spans width r.tree) (x : Octets)
include hspans

theorem matchAt_append (hle : width ≤ ahead.length) :
    r.matchAt n passed (ahead ++ x) = r.matchAt n passed ahead := by
  let start : Cursor := ⟨passed, ahead, List.replicate (r.groups + 1) none⟩
  have hrun : r.tree.run (start.extend x) some = (r.tree.run start some).map (·.extend x) :=
    hspans.run_extend hle fun _ _ => rfl
  change r.tree.run ⟨passed, ahead ++ x, List.replicate (r.groups + 1) none⟩ some = _ at hrun
  rw [matchAt, matchAt, hrun, Option.map_map]
  congr 1
  funext done
  exact congrArg (fun b => RegexMatch.mk (n + List.length b) (done.captures.drop 1))
    (start.upTo_extend done x)

omit x in
theorem le_length_of_matchAt (h : r.matchAt n passed ahead = some m) : width ≤ ahead.length := by
  obtain ⟨done, hrun, -⟩ := Option.map_eq_some_iff.mp h
  obtain ⟨s', hs', -⟩ := hspans.exists_of_run hrun
  exact Nat.le_of_add_left_le (Nat.le_of_eq hs')

/-- The first match stays the first one, whatever follows the octets ahead. -/
theorem searchFrom_append (h : r.searchFrom n passed ahead = some m) :
    width ≤ ahead.length ∧ r.searchFrom n passed (ahead ++ x) = some m := by
  induction ahead generalizing n passed with
  | nil =>
    have hle := le_length_of_matchAt hspans h
    refine ⟨hle, ?_⟩
    rw [searchFrom, ← matchAt_append hspans x hle] at h
    cases x with
    | nil => exact h
    | cons y x =>
      rw [List.nil_append] at h ⊢
      rw [searchFrom, h]
  | cons y rest ih =>
    rw [searchFrom] at h
    split at h
    · next found hfound =>
      cases h
      have hle := le_length_of_matchAt hspans hfound
      refine ⟨hle, ?_⟩
      rw [← matchAt_append hspans x hle] at hfound
      rw [List.cons_append] at hfound ⊢
      rw [searchFrom, hfound]
    · next hmiss =>
      obtain ⟨hle, hrest⟩ := ih h
      have hle' : width ≤ (y :: rest).length := Nat.le_succ_of_le hle
      refine ⟨hle', ?_⟩
      rw [← matchAt_append hspans x hle'] at hmiss
      rw [List.cons_append] at hmiss ⊢
      rw [searchFrom, hmiss]
      exact hrest

/-- The first match stays the first one, whatever follows the subject. -/
theorem search_append (h : r.search subject = some m) : r.search (subject ++ x) = some m :=
  (searchFrom_append hspans x h).2

end Spans

end Regex

end NetconfWire
