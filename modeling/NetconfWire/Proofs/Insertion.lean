/-
Documents into which a comment is put.

A comment ends its line, if at all, inside of itself, so that the line ends around it are
unified as they were.  What lies before the content does not depend on the comment, and
neither do the events of the content, apart from the text around it.  There is more to be
read, so that entities may yield more text:

* `unifyLineEnds_comment`, `Piece.scan_comment` — the characters of the comment;
* `Event.interrupt` — the events of content with the comment;
* `Document.interrupt` — the tree of the document with the comment.
-/
import NetconfWire.Proofs.Content
import NetconfWire.Proofs.Cutting
import NetconfWire.Proofs.Trees

namespace NetconfWire.Xml

variable {s t a b body rest : List Char}

/-! ### Line ends -/

theorem unifyLineEnds_cons {c : Char} (h : ¬ (c = '\r' ∧ s.head? = some '\n')) :
    unifyLineEnds (c :: s) = (if c = '\r' then '\n' else c) :: unifyLineEnds s := by
  by_cases hreturn : c = '\r'
  · subst hreturn
    rw [unifyLineEnds, if_pos rfl]
    rintro rest rfl
    exact h ⟨rfl, rfl⟩
  · rw [unifyLineEnds, if_neg hreturn]
    · exact fun _ hc _ => hreturn hc
    · exact hreturn

/-- Line ends are unified part by part, unless one lies in both parts. -/
theorem unifyLineEnds_append (h : ¬ (s.getLast? = some '\r' ∧ t.head? = some '\n')) :
    unifyLineEnds (s ++ t) = unifyLineEnds s ++ unifyLineEnds t := by
  have hmore : ∀ {c : Char} {rest : List Char},
      ¬ ((c :: rest).getLast? = some '\r' ∧ t.head? = some '\n') →
      ¬ (rest.getLast? = some '\r' ∧ t.head? = some '\n') := by
    rintro c rest hnot ⟨hlast, hhead⟩
    exact hnot ⟨by rw [List.getLast?_cons, hlast]; rfl, hhead⟩
  induction s using unifyLineEnds.induct with
  | case1 rest ih =>
    rw [List.cons_append, List.cons_append, unifyLineEnds, unifyLineEnds, ih (hmore (hmore h)),
      List.cons_append]
  | case2 rest hrest ih =>
    -- a return without a line feed, which the second part does not bring in either
    have hnot : (rest ++ t).head? ≠ some '\n' := by
      cases rest with
      | nil => exact fun hhead => h ⟨rfl, hhead⟩
      | cons c rest =>
        rintro ⟨⟩
        exact hrest rest rfl
    rw [List.cons_append, unifyLineEnds_cons fun hboth => hnot hboth.2, unifyLineEnds_cons, ih (hmore h)]
    · rfl
    · cases rest with
      | nil => simp
      | cons c rest =>
        rintro ⟨-, ⟨⟩⟩
        exact hrest rest rfl
  | case3 c rest hcrlf hreturn ih =>
    rw [List.cons_append, unifyLineEnds_cons fun hboth => hreturn hboth.1,
      unifyLineEnds_cons fun hboth => hreturn hboth.1, ih (hmore h)]
    rfl
  | case4 => rfl

/-- Of a line end that lies in both parts a line feed stays in the second one. -/
theorem unifyLineEnds_split (a b : List Char) : ∃ gap back, (gap = [] ∨ gap = ['\n']) ∧
    unifyLineEnds (a ++ b) = unifyLineEnds a ++ back ∧ unifyLineEnds b = gap ++ back := by
  by_cases h : a.getLast? = some '\r' ∧ b.head? = some '\n'
  · obtain ⟨a, rfl⟩ := List.getLast?_eq_some_iff.mp h.1
    obtain ⟨b, rfl⟩ := List.head?_eq_some_iff.mp h.2
    refine ⟨['\n'], unifyLineEnds b, .inr rfl, ?_, unifyLineEnds_cons (by simp)⟩
    have hlast : unifyLineEnds (a ++ ['\r']) = unifyLineEnds a ++ ['\n'] :=
      unifyLineEnds_append (by simp)
    rw [hlast, List.append_assoc, List.append_assoc, unifyLineEnds_append (by simp)]
    rfl
  · exact ⟨[], unifyLineEnds b, .inl rfl, unifyLineEnds_append h, rfl⟩

/-- A comment keeps the line ends around it apart. -/
theorem unifyLineEnds_comment (a body b : List Char) :
    unifyLineEnds (a ++ Comment.written body ++ b)
      = unifyLineEnds a ++ Comment.written (unifyLineEnds body) ++ unifyLineEnds b := by
  have hopening : ∀ s, unifyLineEnds ("<!--".toList ++ s) = "<!--".toList ++ unifyLineEnds s :=
    fun _ => unifyLineEnds_append (by simp)
  have hend : unifyLineEnds ("-->".toList ++ b) = "-->".toList ++ unifyLineEnds b :=
    unifyLineEnds_append (by simp)
  simp only [Comment.written, List.append_assoc]
  rw [unifyLineEnds_append (by simp), hopening, unifyLineEnds_append (by simp), hend]

theorem head?_of_unifyLineEnds {c : Char} (hc : c ≠ '\n') (h : (unifyLineEnds s).head? = some c) :
    s.head? = some c := by
  induction s using unifyLineEnds.induct with
  | case1 rest =>
    cases h
    exact absurd rfl hc
  | case2 rest hrest =>
    rw [unifyLineEnds_cons] at h
    · cases h
      exact absurd rfl hc
    · rintro ⟨-, hhead⟩
      obtain ⟨rest, rfl⟩ := List.head?_eq_some_iff.mp hhead
      exact hrest rest rfl
  | case3 d rest hcrlf hreturn =>
    rw [unifyLineEnds_cons fun hboth => hreturn hboth.1, if_neg hreturn] at h
    exact h
  | case4 => exact h

/-- Hyphens do not come next to each other where line ends are unified. -/
theorem hyphens_of_unifyLineEnds (h : ['-', '-'] <:+: unifyLineEnds s) : ['-', '-'] <:+: s := by
  induction s using unifyLineEnds.induct with
  | case1 rest ih =>
    rw [unifyLineEnds, List.infix_cons_iff] at h
    obtain h | h := h
    · simp at h
    · exact ((ih h).trans (List.infix_cons List.infix_rfl)).trans (List.infix_cons List.infix_rfl)
  | case2 rest hrest ih =>
    rw [unifyLineEnds_cons, List.infix_cons_iff] at h
    · obtain h | h := h
      · simp at h
      · exact List.infix_cons (ih h)
    · rintro ⟨-, hhead⟩
      obtain ⟨rest, rfl⟩ := List.head?_eq_some_iff.mp hhead
      exact hrest rest rfl
  | case3 c rest hcrlf hreturn ih =>
    rw [unifyLineEnds_cons fun hboth => hreturn hboth.1, if_neg hreturn, List.infix_cons_iff] at h
    -- only line feeds are new, so that a hyphen in front was there before
    obtain ⟨more, hmore⟩ | h := h
    · obtain ⟨rfl, hbehind⟩ := List.cons.inj hmore
      have hhead : (unifyLineEnds rest).head? = some '-' := by
        rw [← hbehind]
        rfl
      obtain ⟨rest, rfl⟩ := List.head?_eq_some_iff.mp (head?_of_unifyLineEnds (by decide) hhead)
      exact ⟨[], rest, rfl⟩
    · exact List.infix_cons (ih h)
  | case4 => exact h

theorem Comment.Allowed.unifyLineEnds (h : Comment.Allowed body) :
    Comment.Allowed (Xml.unifyLineEnds body) where
  chars := h.chars.unifyLineEnds
  hyphens := by
    have hlast : Xml.unifyLineEnds (body ++ ['-']) = Xml.unifyLineEnds body ++ ['-'] :=
      unifyLineEnds_append (by simp)
    rw [← hlast]
    exact fun hin => h.hyphens (hyphens_of_unifyLineEnds hin)

/-! ### Pieces -/

namespace Piece

/-- Content that is more than text has an end of markup in it. -/
theorem Row.exists_end {ps : List Piece} (hs : Chars s) (h : Row s ps) :
    (∃ texts : List (List Char), ps = texts.map text) ∨ ∃ u c t, Ends c ∧ s = u ++ c :: t := by
  induction h with
  | nil => exact .inl ⟨[], rfl⟩
  | @cons s r p ps hscan hrest ih =>
    obtain ⟨-, ⟨u, c, hc, rfl, -⟩ | ⟨run, rfl, -, rfl, -⟩⟩ := scan_cases hs hscan
    · exact .inr ⟨u, c, r, hc, rfl⟩
    · obtain ⟨texts, rfl⟩ | ⟨u, c, t, hc, rfl⟩ := ih (Chars.append_iff.mp hs).2
      · exact .inl ⟨run :: texts, rfl⟩
      · exact .inr ⟨run ++ u, c, t, hc, by rw [List.append_assoc]⟩

end Piece

/-! ### Events -/

namespace Event

open Thrift

variable {d : Dtd} {nested : List Char → Thrift (List Event)} {ps qs : List Piece} {es : List Event}

/-- Text that stands in a document. -/
def texts (ss : List (List Char)) : List Event :=
  ss.map fun s => text s true

theorem ofPiecesWith_texts (ss : List (List Char)) (left : Nat) :
    ofPiecesWith d nested (ss.map .text) left = some (texts ss, left) := by
  induction ss with
  | nil => rfl
  | cons s ss ih =>
    have hone : ofPiecesWith d nested [.text s] left = some ([text s true], left) := rfl
    exact ofPiecesWith_append_of_some hone ih

theorem ofPiecesWith_append_eq_some {left left'' : Nat}
    (h : ofPiecesWith d nested (ps ++ qs) left = some (es, left'')) :
    ∃ fs gs left', ofPiecesWith d nested ps left = some (fs, left') ∧
      ofPiecesWith d nested qs left' = some (gs, left'') ∧ es = fs ++ gs := by
  rw [ofPiecesWith_append] at h
  obtain ⟨fs, left', hfs, h⟩ := bind_eq_some h
  obtain ⟨gs, left₂, hgs, h⟩ := bind_eq_some h
  cases h
  exact ⟨fs, gs, left', hfs, hgs, rfl⟩

theorem ofContentWithin_enlarge (d : Dtd) (k depth : Nat) (s : List Char) :
    ofContentWithin (d.enlarge k) depth s = ofContentWithin d depth s := by
  induction depth generalizing s with
  | zero => rfl
  | succ depth ih =>
    rw [ofContentWithin, ofContentWithin]
    simp only [ih]
    rfl

/-- The events of content are those of its pieces. -/
theorem exists_nested (hd : d.general.Fit) (depth : Nat) :
    ∃ nested : List Char → Thrift (List Event), (∀ s, Chars s → Thrifty Orderly (nested s)) ∧
      ∀ s, ofContentWithin d depth s = (do ofPiecesWith d nested (← Piece.ofContent s)) := by
  cases depth with
  | zero => exact ⟨fun _ => failure, fun _ _ => .fails, fun _ => rfl⟩
  | succ depth =>
    exact ⟨fun text => ofContentWithin d depth (unifyLineEnds text),
      fun s hs => thrifty_ofContentWithin hd depth hs.unifyLineEnds, fun _ => rfl⟩

theorem ofContent_iff_row {nested : List Char → Thrift (List Event)} (hs : Chars s)
    (hwithin : ∀ s, ofContentWithin d maxNesting s
      = (do ofPiecesWith d nested (← Piece.ofContent s))) :
    ofContent d s = some es ↔
      ∃ ps left, Piece.Row s ps ∧ ofPiecesWith d nested ps d.allowance = some (es, left) := by
  have hlift : ∀ {ps}, Piece.ofContent s = some ps →
      (liftM (Piece.ofContent s) : Thrift (List Piece)) d.allowance = some (ps, d.allowance) := by
    intro ps hps
    rw [hps]
    rfl
  rw [ofContent, hwithin]
  constructor
  · intro h
    obtain ⟨⟨es', left⟩, hdone, heq⟩ := Option.map_eq_some_iff.mp h
    cases heq
    cases hps : Piece.ofContent s with
    | none =>
      rw [hps] at hdone
      cases hdone
    | some ps =>
      rw [bind_of_some (hlift hps)] at hdone
      exact ⟨ps, left, (Piece.ofContent_eq_some_iff hs).mp hps, hdone⟩
  · rintro ⟨ps, left, hps, hdone⟩
    rw [bind_of_some (hlift ((Piece.ofContent_eq_some_iff hs).mpr hps)), hdone]
    rfl

/-- Where a comment is put into content, its events on both sides stay, but for the text around
it. -/
theorem interrupt {front back : List Char} (hd : d.Plain) (hchars : Chars (front ++ back))
    (hps : Piece.ofContent front = some ps) (hes : ofContent d (front ++ back) = some es) :
    ∃ (before after : List Event) (mine whole : List (List Char)), Orderly before ∧
      ofContent d front = some (before ++ texts mine) ∧ es = before ++ texts whole ++ after ∧
      mine.flatten <+: whole.flatten ∧
      ∀ body gap k, Comment.Allowed body → (gap = [] ∨ gap = ['\n']) →
        ∃ more, ofContent (d.enlarge k) (front ++ (Comment.written body ++ (gap ++ back)))
          = some (before ++ texts mine ++ .aside :: (texts more ++ after)) := by
  obtain ⟨nested, hnested, hwithin⟩ := exists_nested hd.entities maxNesting
  obtain ⟨hfront, hback⟩ := Chars.append_iff.mp hchars
  obtain ⟨all, left', hall, hes⟩ := (ofContent_iff_row hchars hwithin).mp hes
  have hrow := (Piece.ofContent_eq_some_iff hfront).mp hps
  obtain ⟨pre, post, mine, whole, rfl, rfl, hpart, hparted⟩ := hrow.interrupt hfront hall
  -- the pieces on both sides stand for the same events again
  obtain ⟨_, after, _, hmiddle, hpost, rfl⟩ := ofPiecesWith_append_eq_some hes
  obtain ⟨before, _, _, hpre, htexts, rfl⟩ := ofPiecesWith_append_eq_some hmiddle
  rw [ofPiecesWith_texts] at htexts
  cases htexts
  have hfits := Piece.fits_of_ofContent hchars ((Piece.ofContent_eq_some_iff hchars).mpr hall)
  simp only [List.forall_mem_append] at hfits
  obtain ⟨horderly, hbefore⟩ := thrifty_ofPiecesWith hd.entities hfits.1.1 hnested _ _ _ hpre
  obtain ⟨-, hafter⟩ := thrifty_ofPiecesWith hd.entities hfits.2 hnested _ _ _ hpost
  refine ⟨before, after, mine, whole, horderly, ?_, rfl, hpart, fun body gap k hbody hgap => ?_⟩
  · exact (ofContent_iff_row hfront hwithin).mpr
      ⟨_, _, hrow, ofPiecesWith_append_of_some hpre (ofPiecesWith_texts _ _)⟩
  · obtain ⟨more, hmore⟩ := hparted body gap hbody hgap
    have hwithin' : ∀ s, ofContentWithin (d.enlarge k) maxNesting s
        = (do ofPiecesWith d nested (← Piece.ofContent s)) := by
      intro s
      rw [ofContentWithin_enlarge, hwithin]
    have hgapchars : Chars gap := by
      rcases hgap with rfl | rfl
      · exact nofun
      · simp [Chars, isChar]
    have hnew : Chars (front ++ (Comment.written body ++ (gap ++ back))) :=
      Chars.append_iff.mpr ⟨hfront, Chars.append_iff.mpr
        ⟨hbody.chars_written, Chars.append_iff.mpr ⟨hgapchars, hback⟩⟩⟩
    have hcomment : ∀ left, ofPiecesWith d nested [.comment] left = some ([.aside], left) :=
      fun _ => rfl
    have hbehind := ofPiecesWith_append_of_some (hcomment _)
      (ofPiecesWith_append_of_some (ofPiecesWith_texts more _) (hafter k))
    exact ⟨more, (ofContent_iff_row hnew hwithin').mpr ⟨_, left' + k, hmore,
      ofPiecesWith_append_of_some (ofPiecesWith_append_of_some (hbefore k) (ofPiecesWith_texts _ _))
        hbehind⟩⟩

end Event

/-! ### Documents -/

/-- Outside of the root there are only blanks, which change nothing. -/
theorem Growth.run_texts_outside {g : Growth} (hg : g.levels = []) (ss : List (List Char)) :
    (Event.texts ss).foldlM step g = if ss.flatten.all isBlank then some g else none := by
  induction ss with
  | nil => rfl
  | cons s ss ih =>
    have hstep : g.step (.text s true) = if s.all isBlank then some g else none := by
      simp [step, hg]
    rw [Event.texts, List.map_cons, List.foldlM_cons, hstep, List.flatten_cons, List.all_append]
    by_cases hs : s.all isBlank = true
    · rw [if_pos hs, hs, Bool.true_and]
      exact ih
    · rw [if_neg hs, if_neg (by simp [hs])]
      rfl

namespace Document

/-- A document in two parts, the first of which ends inside of the content, but not inside of a piece
of markup. -/
def Splits (a b : List Char) : Prop :=
  ∃ d front back ps,
    prolog (unifyLineEnds (a ++ b)).length (unifyLineEnds (a ++ b)) = some (d, front ++ back) ∧
    unifyLineEnds (a ++ b) = unifyLineEnds a ++ back ∧ Piece.ofContent front = some ps

/-- The first part of the document builds the tree so far. -/
def Reaches (a b : List Char) (g : Growth) : Prop :=
  ∃ d front back es,
    prolog (unifyLineEnds (a ++ b)).length (unifyLineEnds (a ++ b)) = some (d, front ++ back) ∧
    unifyLineEnds (a ++ b) = unifyLineEnds a ++ back ∧ Event.ofContent d front = some es ∧
    es.foldlM Growth.step (Growth.start d.remarks) = some g

theorem Reaches.unique {g g' : Growth} (h : Reaches a b g) (h' : Reaches a b g') : g = g' := by
  obtain ⟨d, front, back, es, hprolog, hsplit, hes, hg⟩ := h
  obtain ⟨d', front', back', es', hprolog', hsplit', hes', hg'⟩ := h'
  rw [hsplit] at hsplit'
  obtain rfl := List.append_cancel_left hsplit'
  rw [hprolog] at hprolog'
  obtain ⟨rfl, hfront⟩ := Prod.mk.inj (Option.some.inj hprolog')
  obtain rfl := List.append_cancel_right hfront
  rw [hes] at hes'
  cases hes'
  exact Option.some.inj (hg.symm.trans hg')

/-- Content in which an element has begun has an end of markup in it. -/
theorem exists_end {d : Dtd} {front : List Char} {es : List Event} {g : Growth} (hd : d.Plain)
    (hfront : Chars front) (hes : Event.ofContent d front = some es)
    (hg : es.foldlM Growth.step (Growth.start d.remarks) = some g) (hin : g.levels ≠ []) :
    ∃ u c t, Ends c ∧ front = u ++ c :: t := by
  obtain ⟨nested, -, hwithin⟩ := Event.exists_nested hd.entities maxNesting
  obtain ⟨ps, left, hps, hes⟩ := (Event.ofContent_iff_row hfront hwithin).mp hes
  obtain ⟨texts, rfl⟩ | hend := hps.exists_end hfront
  · rw [Event.ofPiecesWith_texts] at hes
    cases hes
    rw [Growth.run_texts_outside rfl] at hg
    split at hg <;> cases hg
    exact absurd rfl hin
  · exact hend

/-- **A comment in a document is one event more**, and parts the text in which it stands. -/
theorem interrupt {root : Element} (hroot : ofChars (a ++ b) = some root) (hsplit : Splits a b) :
    ∃ (remarks : List Remark) (before after : List Event) (mine whole : List (List Char)),
      Event.Orderly before ∧ mine.flatten <+: whole.flatten ∧
      Element.ofEvents remarks (before ++ Event.texts whole ++ after) = some root ∧
      ∀ g, (before ++ Event.texts mine).foldlM Growth.step (Growth.start remarks) = some g →
        Reaches a b g ∧ ∀ body, Comment.Allowed body → g.levels ≠ [] →
          ∃ more, ∀ root', Element.ofEvents remarks
              (before ++ Event.texts mine ++ .aside :: (Event.texts more ++ after)) = some root' →
            ofChars (a ++ Comment.written body ++ b) = some root' := by
  obtain ⟨hchars, d, content, es, hprolog, hes, hroot⟩ := ofChars_eq_some_iff.mp hroot
  obtain ⟨d', front, back, ps, hprolog', hsplit, hps⟩ := hsplit
  rw [hprolog] at hprolog'
  cases hprolog'
  have hunified := hchars.unifyLineEnds
  obtain ⟨hd, -⟩ := steady_prolog _ _ _ _ hunified hprolog
  have hcontent : Chars (front ++ back) := (steady_prolog _).chars_rest hunified hprolog
  obtain ⟨before, after, mine, whole, horderly, hfs, rfl, hpart, hevents⟩ :=
    Event.interrupt hd hcontent hps hes
  refine ⟨d.remarks, before, after, mine, whole, horderly, hpart, hroot, fun g hg =>
    ⟨⟨d, front, back, _, hprolog, hsplit, hfs, hg⟩, fun body hbody hin => ?_⟩⟩
  obtain ⟨gap, back', hgap, hsplit', hb⟩ := unifyLineEnds_split a b
  obtain rfl : back' = back := by
    rw [hsplit] at hsplit'
    exact (List.append_cancel_left hsplit').symm
  obtain ⟨u, c, t, hc, rfl⟩ := exists_end hd (Chars.append_iff.mp hcontent).1 hfs hg hin
  -- the comment stands behind the end of a tag, so that it does not matter to what is before
  have halike : Alike ((u ++ c :: t) ++ back')
      ((u ++ c :: t) ++ (Comment.written (unifyLineEnds body) ++ (gap ++ back'))) := by
    refine .lengthen hc ?_
    simp only [List.length_append]
    omega
  have hnew : Chars (a ++ Comment.written body ++ b) := by
    obtain ⟨ha, hb⟩ := Chars.append_iff.mp hchars
    exact Chars.append_iff.mpr ⟨Chars.append_iff.mpr ⟨ha, hbody.chars_written⟩, hb⟩
  have hlength : (unifyLineEnds (a ++ b)).length
      ≤ (unifyLineEnds (a ++ Comment.written body ++ b)).length := by
    rw [unifyLineEnds_comment, hsplit, hb]
    simp only [List.length_append]
    omega
  have hwhole : unifyLineEnds (a ++ Comment.written body ++ b)
      = unifyLineEnds a ++ (Comment.written (unifyLineEnds body) ++ (gap ++ back')) := by
    rw [unifyLineEnds_comment, hb, List.append_assoc]
  have hchars' : Chars ((u ++ c :: t) ++ (Comment.written (unifyLineEnds body) ++ (gap ++ back'))) := by
    have hall := hnew.unifyLineEnds
    rw [hwhole] at hall
    exact Chars.append_iff.mpr ⟨(Chars.append_iff.mp hcontent).1, (Chars.append_iff.mp hall).2⟩
  obtain ⟨w, k, hw, hprolog⟩ := prolog_again hunified hchars' hlength hprolog halike
  -- what the prolog takes and the content up to the place are the first part
  have hfront : w ++ (u ++ c :: t) = unifyLineEnds a := by
    rw [hsplit, ← List.append_assoc] at hw
    exact (List.append_cancel_right hw).symm
  rw [← List.append_assoc, hfront, ← hwhole] at hprolog
  obtain ⟨more, hmore⟩ := hevents (unifyLineEnds body) gap k hbody.unifyLineEnds hgap
  exact ⟨more, fun root' hroot' =>
    ofChars_eq_some_iff.mpr ⟨hnew, d.enlarge k, _, _, hprolog, hmore, hroot'⟩⟩

end Document

end NetconfWire.Xml
