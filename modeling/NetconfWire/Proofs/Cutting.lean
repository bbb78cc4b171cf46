/-
Content that is cut in two.

When the first part of some content consists of whole pieces, a comment can be put behind
it.  The pieces on both sides stay as they were, but for a run of text in which the place
may lie: that becomes two runs.

* `Comment.Allowed`, `Piece.scan_comment` — comments and what may stand in them;
* `Piece.Row`, `Piece.ofContent_eq_some_iff` — the pieces of content, one after another;
* `Piece.Row.divide` — the pieces of the first part and those of the whole;
* `Piece.Row.interrupt` — the pieces when a comment is put in between.
-/
import NetconfWire.Proofs.Pieces

namespace NetconfWire.Xml

/-! ### Comments -/

namespace Comment

/-- A comment as it stands in a document. -/
def written (body : List Char) : List Char :=
  "<!--".toList ++ body ++ "-->".toList

/-- What may stand in a comment: characters of documents, without two hyphens in a row, the first
hyphen of the end of the comment included. -/
structure Allowed (body : List Char) : Prop where
  chars : Chars body
  hyphens : ¬ ['-', '-'] <:+: body ++ ['-']

end Comment

theorem Comment.Allowed.chars_written {body : List Char} (h : Comment.Allowed body) :
    Chars (Comment.written body) := by
  have hopening : "<!--".toList.all isChar = true := by decide
  have hend : "-->".toList.all isChar = true := by decide
  exact Chars.append_iff.mpr ⟨Chars.append_iff.mpr ⟨List.all_eq_true.mp hopening, h.chars⟩,
    List.all_eq_true.mp hend⟩

/-- Text is split at its first mark. -/
theorem splitOnce_first {mark s rest : List Char} (hmark : mark ≠ [])
    (h : ¬ mark <:+: s ++ mark.dropLast) : splitOnce mark (s ++ (mark ++ rest)) = some (s, rest) := by
  induction s with
  | nil =>
    obtain ⟨c, more, rfl⟩ := List.exists_cons_of_ne_nil hmark
    rw [List.nil_append, List.cons_append, splitOnce, ← List.cons_append,
      if_pos (List.isPrefixOf_iff_prefix.mpr (List.prefix_append _ _)), List.drop_left]
  | cons c s ih =>
    rw [List.cons_append, List.infix_cons_iff, not_or] at h
    have hnot : ¬ mark.isPrefixOf (c :: (s ++ (mark ++ rest))) = true := by
      rw [List.isPrefixOf_iff_prefix]
      intro hpart
      -- a mark that begins here ends in front of the last character of the mark behind it
      refine h.1 (List.prefix_of_prefix_length_le hpart ?_ ?_)
      · obtain ⟨d, hd⟩ : ∃ d, mark = mark.dropLast ++ [d] :=
          ⟨_, (List.dropLast_append_getLast hmark).symm⟩
        exact ⟨d :: rest, by
          conv_rhs => rw [hd]
          simp⟩
      · simp only [List.length_cons, List.length_append, List.length_dropLast]
        omega
    rw [List.cons_append, splitOnce, if_neg hnot, ih h.2]
    rfl

namespace Piece

open Scan

theorem scan_comment {body : List Char} (h : Comment.Allowed body) (rest : List Char) :
    scan (Comment.written body ++ rest) = some (comment, rest) := by
  have hsplit : Scan.upTo "--" (body ++ ("--".toList ++ '>' :: rest)) = some (body, '>' :: rest) :=
    splitOnce_first (by decide) h.hyphens
  have hwritten : Comment.written body ++ rest
      = "<!--".toList ++ (body ++ ("--".toList ++ '>' :: rest)) := by
    simp [Comment.written]
  rw [hwritten, scan]
  refine (Scan.ite_tries_of_prefix _ _).trans ?_
  rw [comment?, bind_of_some hsplit]
  rfl

/-! ### Rows of pieces -/

/-- The characters are made up of the pieces. -/
inductive Row : List Char → List Piece → Prop
  | nil : Row [] []
  | cons {s r : List Char} {p : Piece} {ps : List Piece} (hscan : scan s = some (p, r))
    (hrest : Row r ps) : Row s (p :: ps)

variable {s t : List Char} {ps qs : List Piece}

theorem Row.cuts (hs : Chars s) (h : Row s ps) : Cuts s ps := by
  induction h with
  | nil => exact .nil
  | cons hscan _ ih =>
    obtain ⟨hlt, hr⟩ := scan_lt hs hscan
    exact .cons hscan hlt (ih hr)

theorem row_of_cut {n : Nat} (h : cut scan n s = some ps) : Row s ps := by
  induction n generalizing s ps with
  | zero =>
    cases s with
    | nil => cases h; exact .nil
    | cons c s => cases h
  | succ n ih =>
    cases s with
    | nil => cases h; exact .nil
    | cons c s =>
      obtain ⟨⟨p, r⟩, hp, h⟩ := Option.bind_eq_some_iff.mp h
      obtain ⟨more, hmore, h⟩ := Option.bind_eq_some_iff.mp h
      cases h
      exact .cons hp (ih hmore)

theorem ofContent_eq_some_iff (hs : Chars s) : ofContent s = some ps ↔ Row s ps :=
  ⟨row_of_cut, fun h => h.cuts hs s.length (Nat.le_refl _)⟩

/-! ### Runs of text -/

theorem splitOnce_eq_none_iff {mark : List Char} (hmark : mark ≠ []) :
    splitOnce mark s = none ↔ ¬ mark <:+: s := by
  induction s with
  | nil => simp [splitOnce, hmark]
  | cons c s ih =>
    rw [splitOnce, List.infix_cons_iff, not_or, ← ih]
    by_cases h : mark <+: c :: s
    · rw [if_pos (List.isPrefixOf_iff_prefix.mpr h)]
      simp [h]
    · rw [if_neg (by rwa [List.isPrefixOf_iff_prefix])]
      simp [h]

theorem IsRun.of_append_right (h : IsRun (s ++ t)) (ht : t ≠ []) : IsRun t where
  ne_nil := ht
  plain c hc := h.plain c (List.mem_append_right s hc)
  open_end := by
    have hend := h.open_end
    rw [splitOnce_eq_none_iff (by decide)] at hend ⊢
    exact fun hin => hend (hin.trans (List.suffix_append s t).isInfix)

/-- A line feed can stand in front of a run, or alone. -/
theorem IsRun.lineFeed (h : t = [] ∨ IsRun t) : IsRun ('\n' :: t) := by
  have hplain : ∀ c ∈ t, c ≠ '<' ∧ c ≠ '&' := by
    rcases h with rfl | h
    · simp
    · exact h.plain
  have hend : splitOnce "]]>".toList t = none := by
    rcases h with rfl | h
    · rfl
    · exact h.open_end
  refine ⟨by simp, List.forall_mem_cons.mpr ⟨by decide, hplain⟩, ?_⟩
  rw [splitOnce, hend, if_neg (by simp)]
  rfl

/-! ### The two parts of content -/

theorem Opens.append (hs : Opens s) (ht : Opens t) : Opens (s ++ t) := by
  cases s with
  | nil => exact ht
  | cons c s => exact hs

/-- In front of markup the pieces of the first part stay as they are. -/
theorem Row.append (hs : Chars s) (h : Row s ps) (ht : Row t qs) (hopens : Opens t) :
    Row (s ++ t) (ps ++ qs) := by
  induction h with
  | nil => exact ht
  | @cons s r p ps hscan hrest ih =>
    have hr := (scan_lt hs hscan).2
    obtain ⟨-, ⟨u, c, -, rfl, hagain⟩ | ⟨run, rfl, hrun, rfl, hopensr⟩⟩ := scan_cases hs hscan
    · rw [List.append_assoc, List.cons_append]
      exact .cons (hagain _ (by simp)) (ih hr)
    · rw [List.append_assoc]
      exact .cons (scan_run hrun (hopensr.append hopens)) (ih hr)

theorem scan_nil : scan [] = none :=
  rfl

theorem Row.of_scan {r : List Char} {p : Piece} (h : Row s ps) (hscan : scan s = some (p, r)) :
    ∃ more, ps = p :: more ∧ Row r more := by
  cases h with
  | nil =>
    rw [scan_nil] at hscan
    cases hscan
  | cons hscan' hrest =>
    rw [hscan] at hscan'
    cases hscan'
    exact ⟨_, rfl, hrest⟩

/-- What does not begin with markup begins with a run of text. -/
theorem Row.exists_run (h : Row s ps) (hopens : ¬ Opens s) :
    ∃ run rest more, IsRun run ∧ Opens rest ∧ s = run ++ rest ∧ ps = .text run :: more ∧
      Row rest more := by
  cases h with
  | nil => exact absurd (by simp [Opens]) hopens
  | @cons _ r p more hscan hrest =>
    have hplain : ∀ c ∈ s.head?, c ≠ '<' ∧ c ≠ '&' := by
      intro c hc
      rw [← not_or]
      refine fun hmarkup => hopens fun d hd => ?_
      rwa [← Option.mem_unique hc hd]
    rw [scan_eq_text? hplain] at hscan
    obtain ⟨run, rfl, hrun, hsplit, hr⟩ := text?_eq_some hscan
    exact ⟨run, r, more, hrun, hr, hsplit, rfl, hrest⟩

/-- The pieces of the whole are those of both parts, unless the first part ends inside of a run of
text. -/
theorem Row.divide {all : List Piece} (hs : Chars s) (h : Row s ps) (hall : Row (s ++ t) all) :
    (∃ qs, Row t qs ∧ all = ps ++ qs) ∨
      ∃ pre qs front behind rest, ps = pre ++ [.text front] ∧
        all = pre ++ .text (front ++ behind) :: qs ∧ t = behind ++ rest ∧ behind ≠ [] ∧
        IsRun (front ++ behind) ∧ Opens rest ∧ Row rest qs := by
  induction h generalizing all with
  | nil => exact .inl ⟨all, hall, rfl⟩
  | @cons s r p ps hscan hrest ih =>
    have hr := (scan_lt hs hscan).2
    have hstep : scan (s ++ t) = some (p, r ++ t) →
        (∃ qs, Row t qs ∧ all = p :: ps ++ qs) ∨
          ∃ pre qs front behind rest, p :: ps = pre ++ [.text front] ∧
            all = pre ++ .text (front ++ behind) :: qs ∧ t = behind ++ rest ∧ behind ≠ [] ∧
            IsRun (front ++ behind) ∧ Opens rest ∧ Row rest qs := by
      intro hwhole
      obtain ⟨more, rfl, hmore⟩ := hall.of_scan hwhole
      obtain ⟨qs, hqs, rfl⟩ | ⟨pre, qs, front, behind, rest, rfl, rfl, hrest⟩ := ih hr hmore
      · exact .inl ⟨qs, hqs, rfl⟩
      · exact .inr ⟨p :: pre, qs, front, behind, rest, rfl, rfl, hrest⟩
    obtain ⟨-, ⟨u, c, -, rfl, hagain⟩ | ⟨run, rfl, hrun, rfl, hopens⟩⟩ := scan_cases hs hscan
    · refine hstep ?_
      rw [List.append_assoc, List.cons_append]
      exact hagain _ (by simp)
    by_cases hend : Opens (r ++ t)
    · refine hstep ?_
      rw [List.append_assoc]
      exact scan_run hrun hend
    -- the run goes on behind the first part, which ends with it
    obtain rfl : r = [] := by
      cases r with
      | nil => rfl
      | cons c r => exact absurd hopens hend
    rw [List.append_nil] at hall
    have hps : ps = [] := by
      cases hrest with
      | nil => rfl
      | cons hscan' _ => rw [scan_nil] at hscan'; cases hscan'
    subst hps
    have hplain : ∀ c ∈ run, ¬ (c = '<' ∨ c = '&') := fun c hc => by simpa using hrun.plain c hc
    have hnot : ¬ Opens (run ++ t) := by
      obtain ⟨c, more, rfl⟩ := List.exists_cons_of_ne_nil hrun.ne_nil
      exact fun h => hplain c List.mem_cons_self (h c rfl)
    obtain ⟨whole, rest, qs, hwhole, hrest, hsplit, rfl, hqs⟩ := hall.exists_run hnot
    obtain ⟨behind, rfl, rfl⟩ | ⟨short, rfl, rfl⟩ := List.append_eq_append_iff.mp hsplit
    · refine .inr ⟨[], qs, run, behind, rest, rfl, rfl, rfl, ?_, hwhole, hrest, hqs⟩
      rintro rfl
      exact hend hrest
    · -- markup does not begin inside of the run
      cases short with
      | nil => exact absurd hrest hend
      | cons c short =>
        exact absurd (hrest c rfl) (hplain c (by simp))

/-- A line feed in front of content lengthens the text with which it begins. -/
theorem Row.lineFeed (h : Row t qs) : ∃ (middle back : List (List Char)) (post : List Piece),
    qs = middle.map text ++ post ∧ Row ('\n' :: t) (back.map text ++ post) := by
  by_cases hopens : Opens t
  · have hrun : IsRun ['\n'] := .lineFeed (.inl rfl)
    exact ⟨[], [['\n']], qs, rfl, .cons (scan_run hrun hopens) h⟩
  · obtain ⟨run, rest, more, hrun, hrest, rfl, rfl, hmore⟩ := h.exists_run hopens
    exact ⟨[run], ['\n' :: run], more, rfl, .cons (scan_run (.lineFeed (.inr hrun)) hrest) hmore⟩

/-- **Where a comment is put in, the pieces on both sides stay**, but for the text around it.  A line
feed may follow the comment. -/
theorem Row.interrupt {all : List Piece} (hs : Chars s) (h : Row s ps) (hall : Row (s ++ t) all) :
    ∃ (pre post : List Piece) (front middle : List (List Char)), ps = pre ++ front.map text ∧
      all = pre ++ middle.map text ++ post ∧ front.flatten <+: middle.flatten ∧
      ∀ body gap, Comment.Allowed body → (gap = [] ∨ gap = ['\n']) →
        ∃ back : List (List Char), Row (s ++ (Comment.written body ++ (gap ++ t)))
          (pre ++ front.map text ++ comment :: (back.map text ++ post)) := by
  have hbehind : ∀ {body rest qs}, Comment.Allowed body → Row rest qs →
      Row (s ++ (Comment.written body ++ rest)) (ps ++ comment :: qs) := by
    intro body rest qs hbody hrest
    refine h.append hs (.cons (scan_comment hbody rest) hrest) ?_
    simp [Opens, Comment.written]
  obtain ⟨qs, hqs, rfl⟩ | ⟨pre, qs, front, behind, rest, rfl, rfl, rfl, hne, hrun, hrest, hqs⟩ :=
    h.divide hs hall
  · obtain ⟨middle, back, post, rfl, hback⟩ := hqs.lineFeed
    refine ⟨ps, post, [], middle, by simp, by simp, List.nil_prefix, fun body gap hbody hgap => ?_⟩
    rw [List.map_nil, List.append_nil]
    rcases hgap with rfl | rfl
    · exact ⟨middle, hbehind hbody hqs⟩
    · exact ⟨back, hbehind hbody hback⟩
  · refine ⟨pre, qs, [front], [front ++ behind], rfl, by simp, by simp, fun body gap hbody hgap => ?_⟩
    have hback := hrun.of_append_right hne
    rcases hgap with rfl | rfl
    · exact ⟨[behind], hbehind hbody (.cons (scan_run hback hrest) hqs)⟩
    · exact ⟨['\n' :: behind],
        hbehind hbody (.cons (scan_run (.lineFeed (.inr hback)) hrest) hqs)⟩

end Piece

end NetconfWire.Xml
