/-
What pieces of markup depend on.

A piece that begins like markup ends like markup, so that anything may follow it; a run
of text goes on until markup begins.  What stands before the content of a document is
scanned without a look at what is behind the first tag:

* `Piece.scan_cases` — the two kinds of pieces;
* `Piece.fits_of_ofContent`, `Piece.fits_of_ofValue` — the texts of pieces hold what the
  markup holds;
* `Declaration.steady_scanIfThere`, `Document.steady_asides` — declarations, comments and
  processing instructions.
-/
import NetconfWire.Proofs.Scanning
import NetconfWire.Xml.Document

namespace NetconfWire.Xml

/-! ### Pieces -/

namespace Piece

open Scan

variable {s r : List Char} {p : Piece}

/-- The texts of the piece hold characters of documents only. -/
def Fits : Piece → Prop
  | text s | verbatim s => Chars s
  | coded c => isChar c = true
  | reference name => Chars name.toList
  | _ => True

theorem tagRest_mono {n m : Nat} (hnm : n ≤ m) : Below (tagRest n) (tagRest m) := by
  induction n generalizing m with
  | zero => exact .fails _
  | succ n ih =>
    obtain ⟨m, rfl⟩ := Nat.exists_eq_add_of_le' (Nat.le_trans (Nat.le_add_left 1 n) hnm)
    have hmore := ih (Nat.le_of_succ_le_succ hnm)
    exact .andThen fun _ => .andThen fun _ => .ite (.refl _) <|
      .andThen fun _ => .ite (.refl _) <| .ite (.refl _) <| .andThen fun _ => .andThen fun _ =>
        .andThen fun _ => .ite (.refl _) <| hmore.bind fun _ => .refl _

theorem shut_tagRest (n : Nat) : Shut (fun _ => True) (tagRest n) := by
  induction n with
  | zero => exact .fails
  | succ n ih =>
    refine .steady_bind .blanks fun spaced _ => ?_
    refine .lastIte (by decide) (by decide) trivial ?_
    refine .lastIte (by decide) (by decide) trivial ?_
    refine .guarded fun _ => .steady_bind .name fun _ _ => .steady_bind .equals fun _ _ =>
      .steady_bind .quoted fun value _ => .guarded fun _ => ih.bind_pure fun _ _ => trivial

theorem shut_opening : Shut Fits opening? := by
  refine .steady_bind .name fun name _ => .bind_pure (P := fun _ => True) ?_ fun _ _ => trivial
  intro s hs a r hsome
  obtain ⟨-, u, c, hc, rfl, hagain⟩ := shut_tagRest _ s hs a r hsome
  refine ⟨trivial, u, c, hc, rfl, fun r' hr => tagRest_mono ?_ _ _ (hagain r' hr)⟩
  simp only [List.length_append, List.length_cons]
  omega

theorem shut_closing : Shut Fits closing? :=
  .steady_bind .name fun _ _ => .steady_bind .blanks fun _ _ =>
    (Shut.word (by decide)).bind_pure fun _ _ => trivial

theorem shut_comment : Shut Fits comment? :=
  .steady_bind (.upTo (by decide)) fun _ _ => (Shut.word (by decide)).bind_pure fun _ _ => trivial

theorem shut_instruction : Shut Fits instruction? :=
  .steady_bind .name fun _ _ => .guarded fun _ =>
    .lastChoice (by decide) (by decide) ⟨.instruction _, trivial, rfl⟩ <|
      .steady_bind .gap fun _ _ => (Shut.upTo (by decide)).bind_pure fun _ _ => trivial

theorem text?_eq_some (h : text? s = some (p, r)) :
    ∃ t, p = text t ∧ IsRun t ∧ s = t ++ r ∧ Opens r := by
  rw [text?] at h
  obtain ⟨t, r₁, hrun, h⟩ := bind_eq_some h
  obtain ⟨t', r₂, htake, hrun⟩ := bind_eq_some hrun
  dsimp only at h hrun
  split at hrun
  · cases hrun
  next hne =>
  cases hrun
  split at h
  · cases h
  next hend =>
  cases h
  rw [run, List.span_eq_takeWhile_dropWhile] at htake
  cases htake
  have hplain := List.all_eq_true.mp (List.all_takeWhile (p := fun c => c != '<' && c != '&') (l := s))
  refine ⟨_, rfl, ⟨by simpa using hne, fun c hc => by simpa using hplain c hc, by simpa using hend⟩,
    List.takeWhile_append_dropWhile.symm, fun c hc => ?_⟩
  have hstop := List.head?_dropWhile_not (fun c => c != '<' && c != '&') s
  rw [Option.mem_def.mp hc] at hstop
  simpa [or_iff_not_imp_left] using hstop

/-- A piece that begins like markup ends like markup. -/
theorem scan_shutAt (hs : Chars s) (hhead : s.head? = some '<' ∨ s.head? = some '&') :
    ShutAt Fits scan s := by
  have htext : ShutAt Fits text? s := by
    intro a r hsome
    obtain ⟨t, -, ht, rfl, -⟩ := text?_eq_some hsome
    -- text does not begin like markup
    obtain ⟨c, more, rfl⟩ := List.exists_cons_of_ne_nil ht.ne_nil
    have hc := ht.plain c List.mem_cons_self
    rcases hhead with h | h <;> cases h
    · exact absurd rfl hc.1
    · exact absurd rfl hc.2
  exact Shut.choice (by decide) hs shut_comment <|
    Shut.choice (by decide) hs ((Shut.upTo (by decide)).bind_pure fun _ hs => hs) <|
    Shut.choice (by decide) hs shut_instruction <|
    Shut.choice (by decide) hs shut_closing <|
    Shut.choice (by decide) hs shut_opening <|
    Shut.choice (by decide) hs (Shut.characterCode.bind_pure fun _ hc => hc) <|
    Shut.choice (by decide) hs (Shut.entityName.bind_pure fun _ hn => hn) htext

/-- A piece ends like markup, or it is a run of text in front of markup. -/
theorem scan_cases (hs : Chars s) (h : scan s = some (p, r)) :
    p.Fits ∧ ((∃ u c, Ends c ∧ s = u ++ c :: r ∧
        ∀ r' : List Char, r.length ≤ r'.length → scan (u ++ c :: r') = some (p, r')) ∨
      ∃ t, p = text t ∧ IsRun t ∧ s = t ++ r ∧ Opens r) := by
  by_cases hhead : s.head? = some '<' ∨ s.head? = some '&'
  · obtain ⟨hp, hends⟩ := scan_shutAt hs hhead p r h
    exact ⟨hp, .inl hends⟩
  · rw [not_or] at hhead
    rw [scan_eq_text? fun c hc => ⟨fun he => hhead.1 (he ▸ hc), fun he => hhead.2 (he ▸ hc)⟩] at h
    obtain ⟨t, rfl, ht, rfl, hopens⟩ := text?_eq_some h
    exact ⟨(Chars.append_iff.mp hs).1, .inr ⟨t, rfl, ht, rfl, hopens⟩⟩

/-- A piece takes a character off at least. -/
theorem scan_lt (hs : Chars s) (h : scan s = some (p, r)) : r.length < s.length ∧ Chars r := by
  obtain ⟨-, ⟨u, c, -, rfl, -⟩ | ⟨t, -, ht, rfl, -⟩⟩ := scan_cases hs h
  · refine ⟨?_, hs.of_subset fun d hd => by simp [hd]⟩
    simp only [List.length_append, List.length_cons]
    omega
  · have hlength := List.length_pos_iff.mpr ht.ne_nil
    refine ⟨?_, (Chars.append_iff.mp hs).2⟩
    rw [List.length_append]
    omega

theorem steady_scanValue : Steady Fits scanValue :=
  .bind (.tries (by decide)) fun _ _ => .ite
    (Shut.characterCode.steady.bind fun _ hc => .pure hc)
    (.bind (.tries (by decide)) fun _ _ => .ite
      (Shut.entityName.steady.bind fun _ hn => .pure hn)
      ((Steady.someRun _).bind fun _ hs => .pure hs))

theorem fits_of_cut {front : Scan Piece} {n : Nat} {ps : List Piece}
    (hfront : ∀ s p r, Chars s → front s = some (p, r) → p.Fits ∧ Chars r) (hs : Chars s)
    (h : cut front n s = some ps) : ∀ p ∈ ps, p.Fits := by
  induction n generalizing s ps with
  | zero =>
    cases s with
    | nil => cases h; simp
    | cons c s => cases h
  | succ n ih =>
    cases s with
    | nil => cases h; simp
    | cons c s =>
      obtain ⟨⟨p, r⟩, hp, h⟩ := Option.bind_eq_some_iff.mp h
      obtain ⟨more, hmore, h⟩ := Option.bind_eq_some_iff.mp h
      cases h
      obtain ⟨hfits, hr⟩ := hfront _ p r hs hp
      exact List.forall_mem_cons.mpr ⟨hfits, ih hr hmore⟩

theorem fits_of_ofContent {ps : List Piece} (hs : Chars s) (h : ofContent s = some ps) :
    ∀ p ∈ ps, p.Fits := by
  refine fits_of_cut (fun s p r hs hp => ?_) hs h
  exact ⟨(scan_cases hs hp).1, (scan_lt hs hp).2⟩

theorem fits_of_ofValue {ps : List Piece} (hs : Chars s) (h : ofValue s = some ps) :
    ∀ p ∈ ps, p.Fits := by
  refine fits_of_cut (fun s p r hs hp => ?_) hs h
  obtain ⟨hfits, w, rfl, -⟩ := steady_scanValue s p r hs hp
  exact ⟨hfits, (Chars.append_iff.mp hs).2⟩

end Piece

/-! ### What lies before the content -/

namespace Declaration

open Scan

theorem steady_scan : Steady (fun _ => True) scan := by
  have hencoding : Steady (fun _ => True) encodingPart :=
    .bind (.tries (by decide)) fun _ _ => .ite
      (.bind .equals fun _ _ => .bind .quoted fun _ _ => .guarded fun _ => .pure trivial)
      (.pure trivial)
  have hstandalone : Steady (fun _ => True) standalonePart :=
    .bind (.tries (by decide)) fun _ _ => .ite
      (.bind .equals fun _ _ => .bind .quoted fun _ _ => .ite (.pure trivial) <|
        .ite (.pure trivial) .fails)
      (.pure trivial)
  have hend : ∀ encoding spaced, Steady (fun _ => True) (do
      if ← tries "?>" then return ⟨encoding, false⟩
      if !spaced then failure
      let standalone ← standalonePart
      let _ ← blanks
      word "?>"
      return (⟨encoding, standalone⟩ : Declaration)) := by
    intro encoding spaced
    exact .bind (.tries (by decide)) fun _ _ => .ite (.pure trivial) <| .guarded fun _ =>
      .bind hstandalone fun _ _ => .bind .blanks fun _ _ => .bind (.word _) fun _ _ => .pure trivial
  have htrue : Steady (fun _ => True) (pure true) := .pure trivial
  exact .bind .gap fun _ _ => .bind (.word _) fun _ _ => .bind .equals fun _ _ =>
    .bind .quoted fun _ _ => .guarded fun _ => .bind .blanks fun _ _ =>
    .bind (.tries (by decide)) fun _ _ => .ite (.pure trivial) <| .guarded fun _ =>
    .bind hencoding fun _ _ => .ite (.bind .blanks fun _ _ => hend _ _)
      (htrue.bind fun _ _ => hend _ _)

theorem scanIfThere_of_blank {c : Char} (hc : isBlank c = true) (rest : List Char) :
    scanIfThere ("<?xml".toList ++ c :: rest)
      = (scan (c :: rest)).map fun (d, behind) => (some d, behind) := by
  show (if isBlank c then _ else _) = _
  rw [if_pos hc]

theorem scanIfThere_of_not {s : List Char}
    (h : ∀ c, isBlank c = true → ¬ "<?xml".toList ++ [c] <+: s) : scanIfThere s = some (none, s) := by
  unfold scanIfThere
  split
  · next c rest =>
    rw [if_neg fun hc => h c hc ⟨rest, rfl⟩]
  · rfl

theorem steady_scanIfThere : Steady (fun _ => True) scanIfThere := by
  intro s o r hs hsome
  by_cases h : ∃ c, isBlank c = true ∧ "<?xml".toList ++ [c] <+: s
  · obtain ⟨c, hc, rest, rfl⟩ := h
    rw [List.append_assoc] at hs hsome ⊢
    rw [List.singleton_append, scanIfThere_of_blank hc] at hsome
    obtain ⟨⟨d, behind⟩, hscan, heq⟩ := Option.map_eq_some_iff.mp hsome
    cases heq
    obtain ⟨-, w, hw, hagain⟩ := steady_scan _ d r (Chars.append_iff.mp hs).2 hscan
    refine ⟨trivial, "<?xml".toList ++ w, by rw [List.append_assoc, ← hw, List.singleton_append],
      fun r' hr => ?_⟩
    -- the blank is still there
    have hhead := (hr.append w).head?_eq
    rw [← hw] at hhead
    obtain ⟨rest', hrest⟩ := List.head?_eq_some_iff.mp hhead.symm
    have hfound := hagain r' hr
    rw [hrest] at hfound
    rw [List.append_assoc, hrest, scanIfThere_of_blank hc, hfound]
    rfl
  · have hnot : ∀ c, isBlank c = true → ¬ "<?xml".toList ++ [c] <+: s :=
      fun c hc hprefix => h ⟨c, hc, hprefix⟩
    rw [scanIfThere_of_not hnot] at hsome
    cases hsome
    refine ⟨trivial, [], rfl, fun r' hr => scanIfThere_of_not fun c hc => ?_⟩
    have hall : "<?xml".toList.all (fun d => decide (¬ Ends d)) = true := by decide
    have hmark : IsMark ("<?xml".toList ++ [c]) := by
      rw [IsMark, List.dropLast_concat]
      exact fun d hd => of_decide_eq_true (List.all_eq_true.mp hall d hd)
    rw [List.nil_append, ← hmark.prefix_iff hr]
    exact hnot c hc

end Declaration

namespace Document

open Scan

theorem steady_asides : Steady (fun _ => True) asides := by
  refine .bind (Steady.many (P := fun _ => True) ?_) fun _ _ => .pure trivial
  refine .bind .blanks fun _ _ => .bind (.tries (by decide)) fun _ _ => .ite
    (.bind Piece.shut_comment.steady fun _ _ => .pure fun _ _ => trivial) <|
    .bind (.tries (by decide)) fun _ _ => .ite
      (.bind Piece.shut_instruction.steady fun p _ => ?_) (.pure nofun)
  cases p with
  | instruction target => exact .pure fun _ _ => trivial
  | _ => exact .fails

end Document

end NetconfWire.Xml
