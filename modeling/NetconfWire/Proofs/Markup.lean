/-
How markup is cut into pieces.

The scanners take off the front of the markup what stands there, and leave the rest.
Each of them is described here by what it takes off markup that was written for it:

* `Piece.scan_tag`, `Piece.scan_emptyTag`, `Piece.scan_closingTag`,
  `Piece.scan_declaringTag` — tags, whatever follows them;
* `Piece.scan_text` — a run of text, which ends where markup begins.

A piece that is written in front of others is therefore cut off first, and `Piece.Spells`
is the notion of markup that makes up some pieces wherever it stands.
-/
import Mathlib.Data.List.TakeDrop
import Mathlib.Tactic.Common
import NetconfWire.Xml.Piece

namespace NetconfWire.Xml

theorem bind_of_some {σ α β : Type} {x : StateT σ Option α} {f : α → StateT σ Option β} {s s' : σ}
    {a : α} (h : x s = some (a, s')) : (x >>= f) s = f a s' := by
  show (x s).bind _ = _
  rw [h]
  rfl

/-! ### Scanning -/

namespace Scan

variable {p : Char → Bool} {r rest s : List Char} {c : Char}

/-- A run ends in front of the first character that does not belong to it. -/
theorem run_append (hr : ∀ c ∈ r, p c = true) (hrest : ∀ c ∈ rest.head?, p c = false) :
    run p (r ++ rest) = some (r, rest) := by
  have hstop : rest.takeWhile p = [] ∧ rest.dropWhile p = rest := by
    cases rest with
    | nil => exact ⟨rfl, rfl⟩
    | cons c rest => simp [hrest c rfl]
  rw [run, List.span_eq_takeWhile_dropWhile, List.takeWhile_append_of_pos hr,
    List.dropWhile_append_of_pos hr, hstop.1, hstop.2, List.append_nil]

theorem someRun_append (hne : r ≠ []) (hr : ∀ c ∈ r, p c = true)
    (hrest : ∀ c ∈ rest.head?, p c = false) : someRun p (r ++ rest) = some (r, rest) := by
  rw [someRun, bind_of_some (run_append hr hrest)]
  cases r with
  | nil => exact absurd rfl hne
  | cons c r => rfl

theorem name_append {n : String} (hn : isName n.toList = true)
    (hrest : ∀ c ∈ rest.head?, isNameChar c = false) :
    name (n.toList ++ rest) = some (n, rest) := by
  have hchars : ∀ c ∈ n.toList, isNameChar c = true := by
    rw [isName, Bool.and_eq_true, List.all_eq_true] at hn
    exact hn.2
  rw [name, bind_of_some (run_append hchars hrest), hn]
  show some (String.ofList n.toList, rest) = _
  rw [String.ofList_toList]

theorem splitOnce_of_notMem {mark : List Char} (hc : c ∈ mark) (hs : c ∉ s) :
    splitOnce mark s = none := by
  induction s with
  | nil => rfl
  | cons d s ih =>
    have hfront : ¬ mark.isPrefixOf (d :: s) = true := fun h =>
      hs ((List.isPrefixOf_iff_prefix.mp h).subset hc)
    rw [splitOnce, if_neg hfront, ih fun h => hs (List.mem_cons_of_mem _ h)]
    rfl

theorem splitOnce_append (hs : c ∉ s) : splitOnce [c] (s ++ c :: rest) = some (s, rest) := by
  induction s with
  | nil => simp [splitOnce]
  | cons d s ih =>
    have hne : c ≠ d := fun h => hs (h ▸ List.mem_cons_self)
    rw [List.cons_append, splitOnce, if_neg (by simp [hne]), ih fun h => hs (List.mem_cons_of_mem _ h)]
    rfl

theorem quoted_append (hs : '"' ∉ s) : quoted ('"' :: (s ++ '"' :: rest)) = some (s, rest) := by
  have hquote : tries "\"" ('"' :: (s ++ '"' :: rest)) = some (true, s ++ '"' :: rest) := rfl
  rw [quoted, bind_of_some hquote]
  exact splitOnce_append hs

theorem tries_append (text : String) (rest : List Char) :
    tries text (text.toList ++ rest) = some (true, rest) := by
  rw [tries, if_pos (List.isPrefixOf_iff_prefix.mpr (List.prefix_append _ _)), List.drop_left]

theorem tries_eq_false {text : String} (h : ¬ text.toList <+: s) :
    tries text s = some (false, s) := by
  rw [tries, if_neg (by rwa [List.isPrefixOf_iff_prefix])]

theorem ite_tries_of_prefix {α : Type} {text : String} (a b : Scan α) :
    (do if ← tries text then a else b : Scan α) (text.toList ++ rest) = a rest := by
  rw [bind_of_some (tries_append text rest)]
  rfl

theorem ite_tries_of_not_prefix {α : Type} {text : String} (a b : Scan α)
    (h : ¬ text.toList <+: s) : (do if ← tries text then a else b : Scan α) s = b s := by
  rw [bind_of_some (tries_eq_false h)]
  rfl

end Scan

/-! ### Pieces -/

namespace Piece

variable {n : String} {rest : List Char}

theorem scan_opening (hn : isName n.toList = true) (s : List Char) :
    scan ('<' :: (n.toList ++ s)) = opening? (n.toList ++ s) := by
  obtain ⟨c, more, hmore⟩ : ∃ c more, n.toList = c :: more := by
    cases h : n.toList with
    | nil => rw [h] at hn; cases hn
    | cons c more => exact ⟨c, more, rfl⟩
  have hstart : isNameStart c = true := by
    simp only [hmore, isName, List.head?_cons, Option.any_some, Bool.and_eq_true] at hn
    exact hn.1
  have hmark : c ≠ '!' ∧ c ≠ '?' ∧ c ≠ '/' :=
    ⟨fun h => (by rw [h] at hstart; cases hstart), fun h => (by rw [h] at hstart; cases hstart),
      fun h => (by rw [h] at hstart; cases hstart)⟩
  -- so it is none of the marks with which other markup begins
  rw [hmore, scan, Scan.ite_tries_of_not_prefix _ _ (by simp [hmark.1.symm]),
    Scan.ite_tries_of_not_prefix _ _ (by simp [hmark.1.symm]),
    Scan.ite_tries_of_not_prefix _ _ (by simp [hmark.2.1.symm]),
    Scan.ite_tries_of_not_prefix _ _ (by simp [hmark.2.2.symm])]
  exact Scan.ite_tries_of_prefix _ _

theorem opening?_append {s : List Char} {attributes : List (String × List Char)} {isEmpty : Bool}
    (hn : isName n.toList = true) (hs : ∀ c ∈ s.head?, isNameChar c = false)
    (hrest : tagRest (s.length + 1) s = some ((attributes, isEmpty), rest)) :
    opening? (n.toList ++ s) = some (opening n attributes isEmpty, rest) := by
  rw [opening?, bind_of_some (Scan.name_append hn hs)]
  exact bind_of_some (x := fun s => tagRest (s.length + 1) s) hrest

/-- A tag without attributes begins its element. -/
theorem scan_tag (hn : isName n.toList = true) (rest : List Char) :
    scan ('<' :: (n.toList ++ '>' :: rest)) = some (opening n [] false, rest) := by
  rw [scan_opening hn]
  exact opening?_append hn (by simp; decide) rfl

theorem scan_emptyTag (hn : isName n.toList = true) (rest : List Char) :
    scan ('<' :: (n.toList ++ '/' :: '>' :: rest)) = some (opening n [] true, rest) := by
  rw [scan_opening hn]
  exact opening?_append hn (by simp; decide) rfl

theorem scan_closingTag (hn : isName n.toList = true) (rest : List Char) :
    scan ('<' :: '/' :: (n.toList ++ '>' :: rest)) = some (closing n, rest) := by
  have hname := Scan.name_append hn (show ∀ c ∈ ('>' :: rest).head?, isNameChar c = false by
    simp; decide)
  rw [scan, Scan.ite_tries_of_not_prefix _ _ (by simp), Scan.ite_tries_of_not_prefix _ _ (by simp),
    Scan.ite_tries_of_not_prefix _ _ (by simp)]
  refine (Scan.ite_tries_of_prefix _ _).trans ?_
  show closing? (n.toList ++ '>' :: rest) = _
  rw [closing?, bind_of_some hname]
  rfl

theorem scan_declaringTag {v : List Char} (hn : isName n.toList = true) (hquote : '"' ∉ v)
    (hless : '<' ∉ v) (rest : List Char) :
    scan ('<' :: (n.toList ++ " xmlns=\"".toList ++ v ++ '"' :: '>' :: rest))
      = some (opening n [("xmlns", v)] false, rest) := by
  have hrest : ∀ fuel, tagRest (fuel + 2) (" xmlns=\"".toList ++ (v ++ '"' :: '>' :: rest))
      = some (([("xmlns", v)], false), rest) := by
    intro fuel
    have hblanks : Scan.blanks (" xmlns=\"".toList ++ (v ++ '"' :: '>' :: rest))
        = some (true, "xmlns".toList ++ ("=\"".toList ++ (v ++ '"' :: '>' :: rest))) := rfl
    have hname : Scan.name ("xmlns".toList ++ ("=\"".toList ++ (v ++ '"' :: '>' :: rest)))
        = some ("xmlns", "=\"".toList ++ (v ++ '"' :: '>' :: rest)) := rfl
    have hequals : Scan.equals ("=\"".toList ++ (v ++ '"' :: '>' :: rest))
        = some ((), '"' :: (v ++ '"' :: '>' :: rest)) := rfl
    rw [tagRest, bind_of_some hblanks, Scan.ite_tries_of_not_prefix _ _ (by simp),
      Scan.ite_tries_of_not_prefix _ _ (by simp)]
    refine (bind_of_some hname).trans ?_
    rw [bind_of_some hequals, bind_of_some (Scan.quoted_append hquote), if_neg (by simp [hless])]
    rfl
  rw [List.append_assoc, List.append_assoc, scan_opening hn]
  exact opening?_append hn (by simp; decide) (hrest _)

/-- Nothing, or markup: what ends a run of text. -/
def Opens (s : List Char) : Prop :=
  ∀ c ∈ s.head?, c = '<' ∨ c = '&'

/-- Characters that make up one piece of text. -/
structure IsRun (r : List Char) : Prop where
  ne_nil : r ≠ []
  plain : ∀ c ∈ r, c ≠ '<' ∧ c ≠ '&'
  /-- The end of a section of text is refused in text. -/
  open_end : splitOnce "]]>".toList r = none

/-- Only text begins with a character that begins no markup. -/
theorem scan_eq_text? {s : List Char} (h : ∀ c ∈ s.head?, c ≠ '<' ∧ c ≠ '&') : scan s = text? s := by
  have hnot : ∀ {m : List Char} (c : Char), c = '<' ∨ c = '&' → m.head? = some c → ¬ m <+: s := by
    rintro m c hc hm ⟨t, rfl⟩
    have hhead := h c (by rw [List.head?_append, hm]; rfl)
    rcases hc with rfl | rfl
    · exact hhead.1 rfl
    · exact hhead.2 rfl
  rw [scan]
  iterate 5 rw [Scan.ite_tries_of_not_prefix _ _ (hnot '<' (.inl rfl) rfl)]
  iterate 2 rw [Scan.ite_tries_of_not_prefix _ _ (hnot '&' (.inr rfl) rfl)]

/-- A run of text ends in front of markup. -/
theorem scan_run {r : List Char} (hr : IsRun r) (hrest : Opens rest) :
    scan (r ++ rest) = some (text r, rest) := by
  have hrun : Scan.someRun (fun c => c != '<' && c != '&') (r ++ rest) = some (r, rest) := by
    refine Scan.someRun_append hr.ne_nil (fun c hc => ?_) fun c hc => ?_
    · simp [hr.plain c hc]
    · rcases hrest c hc with rfl | rfl <;> rfl
  rw [scan_eq_text?, text?, bind_of_some hrun, hr.open_end]
  · rfl
  · obtain ⟨c, more, rfl⟩ := List.exists_cons_of_ne_nil hr.ne_nil
    rintro d ⟨⟩
    exact hr.plain c List.mem_cons_self

theorem scan_text {r : List Char} (hne : r ≠ []) (hr : ∀ c ∈ r, c ≠ '<' ∧ c ≠ '&' ∧ c ≠ '>')
    (hrest : ∀ c ∈ rest.head?, c = '<' ∨ c = '&') : scan (r ++ rest) = some (text r, rest) := by
  -- the end of a section of text cannot be there without a `>`
  have hend : splitOnce "]]>".toList r = none :=
    Scan.splitOnce_of_notMem (c := '>') (by decide) fun h => (hr _ h).2.2 rfl
  exact scan_run ⟨hne, fun c hc => ⟨(hr c hc).1, (hr c hc).2.1⟩, hend⟩ hrest

/-- The characters are cut into these pieces, if only enough of them may be tried. -/
def Cuts (s : List Char) (ps : List Piece) : Prop :=
  ∀ fuel, s.length ≤ fuel → cut scan fuel s = some ps

theorem Cuts.nil : Cuts [] [] := by
  intro fuel _
  rw [cut]

theorem Cuts.cons {p : Piece} {s : List Char} {ps : List Piece} (h : scan s = some (p, rest))
    (hlt : rest.length < s.length) (hrest : Cuts rest ps) : Cuts s (p :: ps) := by
  intro fuel hfuel
  cases s with
  | nil => simp at hlt
  | cons c s =>
    cases fuel with
    | zero => simp at hfuel
    | succ fuel =>
      have hmore := hrest fuel (by simp only [List.length_cons] at hlt hfuel; omega)
      rw [cut, h]
      show (cut scan fuel rest).bind _ = _
      rw [hmore]
      rfl

/-- In front of markup the characters make up these pieces. -/
def Spells (s : List Char) (ps : List Piece) : Prop :=
  ∀ rest qs, Opens rest → Cuts rest qs → Cuts (s ++ rest) (ps ++ qs)

theorem Spells.nil : Spells [] [] :=
  fun _ _ _ hrest => hrest

theorem Spells.append {s t : List Char} {ps qs : List Piece} (hs : Spells s ps) (ht : Spells t qs)
    (hopens : Opens t) : Spells (s ++ t) (ps ++ qs) := by
  intro rest more hrest hmore
  rw [List.append_assoc, List.append_assoc]
  refine hs _ _ ?_ (ht rest more hrest hmore)
  -- behind the first part comes markup, also if the second part is empty
  cases t with
  | nil => exact hrest
  | cons c t => exact hopens

theorem Spells.cons {s t : List Char} {p : Piece} {ps : List Piece} (hne : s ≠ [])
    (h : ∀ rest, scan (s ++ rest) = some (p, rest)) (ht : Spells t ps) :
    Spells (s ++ t) (p :: ps) := by
  intro rest qs hrest hcuts
  have hlength := List.length_pos_iff.mpr hne
  rw [List.append_assoc]
  refine Cuts.cons (h _) ?_ (ht rest qs hrest hcuts)
  rw [@List.length_append _ s]
  omega

theorem Spells.single {s : List Char} {p : Piece} (hne : s ≠ [])
    (h : ∀ rest, Opens rest → scan (s ++ rest) = some (p, rest)) : Spells s [p] := by
  intro rest qs hrest hcuts
  refine Cuts.cons (h rest hrest) ?_ hcuts
  rw [List.length_append]
  have := List.length_pos_iff.mpr hne
  omega

end Piece

end NetconfWire.Xml
