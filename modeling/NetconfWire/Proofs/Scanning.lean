/-
What scanners depend on.

A scanner looks at the characters that it takes off, and little farther: what it leaves
may be replaced by characters that begin in the same way, up to the end of the first tag
or reference.  A scanner that takes off such an end itself leaves anything at all:

* `Scan.Steady` — the scanners of the first kind, which are put together in all the ways
  in which scanners are;
* `Scan.Shut` — those of the second kind, which scan references, tags and comments.

Both notions carry a property of the results, such as that the texts among them hold
characters of documents only, which is what a document that is scanned holds.
-/
import Mathlib.Data.List.Basic
import NetconfWire.Proofs.Markup

namespace NetconfWire.Xml

/-! ### Characters -/

/-- Characters that a document may hold. -/
def Chars (s : List Char) : Prop :=
  ∀ c ∈ s, isChar c = true

namespace Chars

variable {s t : List Char}

theorem append_iff : Chars (s ++ t) ↔ Chars s ∧ Chars t :=
  List.forall_mem_append

theorem of_subset (h : Chars t) (hst : s ⊆ t) : Chars s :=
  fun c hc => h c (hst hc)

end Chars

/-- The signs with which tags, declarations and references end. -/
def Ends (c : Char) : Prop :=
  c = '>' ∨ c = ';'

instance : DecidablePred Ends :=
  fun _ => inferInstanceAs (Decidable (_ ∨ _))

/-- The second text can stand in place of the first: it is the same, or both begin with the same
markup up to its end, and it is no shorter. -/
inductive Alike : List Char → List Char → Prop
  | refl (r : List Char) : Alike r r
  | behind {u t t' : List Char} {c : Char} (hc : Ends c) (hlength : t.length ≤ t'.length) :
    Alike (u ++ c :: t) (u ++ c :: t')

namespace Alike

variable {r r' : List Char}

theorem append (w : List Char) (h : Alike r r') : Alike (w ++ r) (w ++ r') := by
  cases h with
  | refl => exact .refl _
  | behind hc hlength =>
    rw [← List.append_assoc, ← List.append_assoc]
    exact .behind hc hlength

/-- Behind an end of markup more can be put in. -/
theorem lengthen {u t : List Char} {c : Char} (hc : Ends c) (hlength : r.length ≤ r'.length) :
    Alike (u ++ c :: t ++ r) (u ++ c :: t ++ r') := by
  rw [List.append_assoc, List.append_assoc, List.cons_append, List.cons_append]
  refine .behind hc ?_
  rw [List.length_append, List.length_append]
  omega

theorem length_le (h : Alike r r') : r.length ≤ r'.length := by
  cases h with
  | refl => exact Nat.le_refl _
  | behind _ hlength =>
    simp only [List.length_append, List.length_cons]
    omega

theorem head?_eq (h : Alike r r') : r.head? = r'.head? := by
  cases h with
  | refl => rfl
  | @behind u => cases u <;> rfl

end Alike

/-- A mark of markup has no end of markup in it, but may have one at its end. -/
def IsMark (m : List Char) : Prop :=
  ∀ c ∈ m.dropLast, ¬ Ends c

instance : DecidablePred IsMark :=
  fun m => decidable_of_iff (m.dropLast.all fun c => decide (¬ Ends c)) (by simp [IsMark])

/-- The mark ends with an end of markup. -/
def Closes (m : List Char) : Prop :=
  ∃ c ∈ m.getLast?, Ends c

instance : DecidablePred Closes :=
  fun m => decidable_of_iff (m.getLast?.any fun c => decide (Ends c)) <| by
    rw [Closes]
    cases m.getLast? <;> simp

theorem Closes.exists_eq {m : List Char} (h : Closes m) : ∃ u c, Ends c ∧ m = u ++ [c] := by
  obtain ⟨c, hc, hends⟩ := h
  obtain ⟨u, hu⟩ := List.getLast?_eq_some_iff.mp hc
  exact ⟨u, c, hends, hu⟩

/-- A mark stands in front of both of two texts that begin alike, or of neither. -/
theorem IsMark.prefix_iff {m r r' : List Char} (hm : IsMark m) (h : Alike r r') :
    m <+: r ↔ m <+: r' := by
  have hbehind : ∀ {u t t' : List Char} {c : Char}, Ends c → m <+: u ++ c :: t →
      m <+: u ++ c :: t' := by
    intro u t t' c hc hprefix
    have hfront : ∀ t, u ++ [c] <+: u ++ c :: t := fun t => ⟨t, by simp⟩
    obtain hshort | ⟨x, rfl⟩ := List.prefix_or_prefix_of_prefix hprefix (hfront t)
    · exact hshort.trans (hfront t')
    · -- a longer mark would have the end of markup in it
      cases x with
      | nil =>
        rw [List.append_nil]
        exact hfront t'
      | cons d x => exact absurd hc (hm c (by simp [List.dropLast_append_of_ne_nil]))
  cases h with
  | refl => rfl
  | behind hc _ => exact ⟨hbehind hc, hbehind hc⟩

theorem IsMark.isPrefixOf_eq {m r r' : List Char} (hm : IsMark m) (h : Alike r r') :
    m.isPrefixOf r = m.isPrefixOf r' := by
  rw [Bool.eq_iff_iff, List.isPrefixOf_iff_prefix, List.isPrefixOf_iff_prefix]
  exact hm.prefix_iff h

theorem bind_eq_some {σ α β : Type} {x : StateT σ Option α} {f : α → StateT σ Option β} {s s'' : σ}
    {b : β} (h : (x >>= f) s = some (b, s'')) :
    ∃ a s', x s = some (a, s') ∧ f a s' = some (b, s'') := by
  change (x s).bind _ = _ at h
  obtain ⟨⟨a, s'⟩, hx, hf⟩ := Option.bind_eq_some_iff.mp h
  exact ⟨a, s', hx, hf⟩

/-! ### Scanners that come to more -/

section Below

variable {σ α β : Type} {x y : StateT σ Option α} {f g : α → StateT σ Option β}

/-- Whatever the first computation comes to, the second one comes to as well. -/
def Below (x y : StateT σ Option α) : Prop :=
  ∀ s o, x s = some o → y s = some o

namespace Below

theorem refl (x : StateT σ Option α) : Below x x :=
  fun _ _ h => h

theorem fails (x : StateT σ Option α) : Below failure x := by
  intro s o h
  cases h

protected theorem bind (hx : Below x y) (hf : ∀ a, Below (f a) (g a)) :
    Below (x >>= f) (y >>= g) := by
  intro s ⟨b, s''⟩ h
  obtain ⟨a, s', hxs, hfa⟩ := bind_eq_some h
  rw [bind_of_some (hx s _ hxs)]
  exact hf a s' _ hfa

theorem andThen (hf : ∀ a, Below (f a) (g a)) : Below (x >>= f) (x >>= g) :=
  (refl x).bind hf

protected theorem ite {p : Prop} [Decidable p] {x' y' : StateT σ Option α} (hx : Below x y)
    (hx' : Below x' y') : Below (if p then x else x') (if p then y else y') := by
  split
  · exact hx
  · exact hx'

end Below

end Below

namespace Scan

theorem word_append (text : String) (r : List Char) :
    word text (text.toList ++ r) = some ((), r) := by
  rw [word, if_pos (List.isPrefixOf_iff_prefix.mpr (List.prefix_append _ _)), List.drop_left]

theorem word_eq_some {text : String} {s r : List Char} {a : Unit}
    (h : word text s = some (a, r)) : s = text.toList ++ r := by
  rw [word] at h
  split at h
  · next hprefix =>
    obtain ⟨r, rfl⟩ := List.isPrefixOf_iff_prefix.mp hprefix
    rw [List.drop_left] at h
    cases h
    rfl
  · cases h

section Steady

variable {α β : Type} {x y : Scan α} {f : α → Scan β} {P : α → Prop} {Q : β → Prop}

/-- A scanner whose results satisfy `P`, and which comes to the same result in front of anything that
begins like what it leaves. -/
def Steady (P : α → Prop) (x : Scan α) : Prop :=
  ∀ s a r, Chars s → x s = some (a, r) →
    P a ∧ ∃ w, s = w ++ r ∧ ∀ r', Alike r r' → x (w ++ r') = some (a, r')

namespace Steady

/-- What is left is a part of the text. -/
theorem chars_rest {s r : List Char} {a : α} (hx : Steady P x) (hs : Chars s)
    (h : x s = some (a, r)) : Chars r := by
  obtain ⟨-, w, rfl, -⟩ := hx s a r hs h
  exact (Chars.append_iff.mp hs).2

protected theorem pure {a : α} (h : P a) : Steady P (pure a) := by
  intro s b r _ hsome
  cases hsome
  exact ⟨h, [], rfl, fun _ _ => rfl⟩

theorem fails : Steady P failure := by
  intro s a r _ hsome
  cases hsome

protected theorem bind (hx : Steady P x) (hf : ∀ a, P a → Steady Q (f a)) :
    Steady Q (x >>= f) := by
  intro s b r hs hsome
  obtain ⟨a, r₁, hxs, hfa⟩ := bind_eq_some hsome
  obtain ⟨ha, w, rfl, hagain⟩ := hx s a r₁ hs hxs
  obtain ⟨hb, w', rfl, hagain'⟩ := hf a ha r₁ b r (Chars.append_iff.mp hs).2 hfa
  -- the first scanner is run in front of all that the second one takes
  refine ⟨hb, w ++ w', by rw [List.append_assoc], fun r' hr => ?_⟩
  rw [List.append_assoc, bind_of_some (hagain _ (hr.append w'))]
  exact hagain' r' hr

protected theorem ite {p : Prop} [Decidable p] (hx : Steady P x) (hy : Steady P y) :
    Steady P (if p then x else y) := by
  split
  · exact hx
  · exact hy

/-- A scanner that fails in some cases and goes on in the others. -/
theorem guarded {p : Prop} [Decidable p] {k : PUnit → Scan α} (h : ¬ p → Steady P (k ⟨⟩)) :
    Steady P (if p then failure >>= k else k ⟨⟩) := by
  split
  · exact fails.bind (P := fun _ => False) nofun
  · next hp => exact h hp

theorem tries {text : String} (h : IsMark text.toList) :
    Steady (fun _ => True) (Scan.tries text) := by
  intro s b r _ hsome
  by_cases hprefix : text.toList <+: s
  · obtain ⟨r₁, rfl⟩ := hprefix
    rw [tries_append] at hsome
    cases hsome
    exact ⟨trivial, text.toList, rfl, fun r' _ => tries_append text r'⟩
  · rw [tries_eq_false hprefix] at hsome
    cases hsome
    refine ⟨trivial, [], rfl, fun r' hr => tries_eq_false ?_⟩
    rwa [List.nil_append, ← h.prefix_iff hr]

theorem sees {text : String} (h : IsMark text.toList) : Steady (fun _ => True) (Scan.sees text) := by
  intro s b r _ hsome
  cases hsome
  refine ⟨trivial, [], rfl, fun r' hr => ?_⟩
  rw [List.nil_append, Scan.sees, h.isPrefixOf_eq hr]

theorem atEnd : Steady (fun _ => True) Scan.atEnd := by
  intro s b r _ hsome
  cases hsome
  refine ⟨trivial, [], rfl, fun r' hr => ?_⟩
  have hempty : s.isEmpty = r'.isEmpty := by
    have hhead := hr.head?_eq
    cases s <;> cases r' <;> first | rfl | cases hhead
  rw [List.nil_append, Scan.atEnd, hempty]

theorem word (text : String) : Steady (fun _ => True) (Scan.word text) := by
  intro s b r _ hsome
  obtain ⟨rfl⟩ := word_eq_some hsome
  exact ⟨trivial, text.toList, rfl, fun r' _ => word_append text r'⟩

theorem run (p : Char → Bool) : Steady Chars (Scan.run p) := by
  intro s a r hs hsome
  rw [Scan.run, List.span_eq_takeWhile_dropWhile] at hsome
  cases hsome
  have hsplit := List.takeWhile_append_dropWhile (p := p) (l := s)
  refine ⟨hs.of_subset (List.takeWhile_subset p), _, hsplit.symm, fun r' hr => ?_⟩
  refine run_append (fun c hc => List.all_eq_true.mp List.all_takeWhile c hc) fun c hc => ?_
  -- the run ends at the same first character
  have hstop := List.head?_dropWhile_not p s
  rw [← hr.head?_eq] at hc
  rwa [Option.mem_def.mp hc] at hstop

theorem someRun (p : Char → Bool) : Steady Chars (Scan.someRun p) :=
  (Steady.run p).bind fun _ hr => .guarded fun _ => .pure hr

theorem blanks : Steady (fun _ => True) Scan.blanks :=
  (Steady.run _).bind fun _ _ => .pure trivial

theorem gap : Steady (fun _ => True) Scan.gap :=
  blanks.bind fun _ _ => .ite fails (.pure trivial)

theorem name : Steady (fun n => Chars n.toList) Scan.name :=
  (Steady.run _).bind fun _ hr => .guarded fun _ => .pure (by rwa [String.toList_ofList])

theorem equals : Steady (fun _ => True) Scan.equals :=
  blanks.bind fun _ _ => (word _).bind fun _ _ => blanks.bind fun _ _ => .pure trivial

end Steady

end Steady

/-! ### Text up to a mark -/

theorem splitOnce_eq_some {mark s before behind : List Char} (hmark : mark ≠ [])
    (h : splitOnce mark s = some (before, behind)) :
    s = before ++ (mark ++ behind) ∧
      ∀ r', splitOnce mark (before ++ (mark ++ r')) = some (before, r') := by
  induction s generalizing before with
  | nil => cases h
  | cons c s ih =>
    rw [splitOnce] at h
    split at h
    · next hprefix =>
      cases h
      obtain ⟨behind, hbehind⟩ := List.isPrefixOf_iff_prefix.mp hprefix
      rw [← hbehind, List.drop_left]
      refine ⟨rfl, fun r' => ?_⟩
      obtain ⟨d, more, rfl⟩ := List.exists_cons_of_ne_nil hmark
      rw [List.nil_append, List.cons_append, splitOnce, ← List.cons_append,
        if_pos (List.isPrefixOf_iff_prefix.mpr (List.prefix_append _ _)), List.drop_left]
    · next hprefix =>
      obtain ⟨⟨before', behind'⟩, hsplit, heq⟩ := Option.map_eq_some_iff.mp h
      cases heq
      obtain ⟨rfl, hagain⟩ := ih hsplit
      refine ⟨rfl, fun r' => ?_⟩
      -- the mark does not reach beyond its first occurrence, so that it stands no earlier
      have hnot : ¬ mark.isPrefixOf (c :: (before' ++ (mark ++ r'))) = true := by
        rw [List.isPrefixOf_iff_prefix] at hprefix ⊢
        intro hprefix'
        have hshort : mark <+: c :: before' ++ mark := by
          refine List.prefix_of_prefix_length_le hprefix' ⟨r', by simp⟩ ?_
          simp only [List.cons_append, List.length_cons, List.length_append]
          omega
        exact hprefix (hshort.trans ⟨behind, by simp⟩)
      rw [List.cons_append, splitOnce, if_neg hnot, hagain r']
      rfl

namespace Steady

theorem upTo {mark : String} (h : mark.toList ≠ []) : Steady Chars (Scan.upTo mark) := by
  intro s a r hs hsome
  obtain ⟨rfl, hagain⟩ := splitOnce_eq_some h hsome
  refine ⟨(Chars.append_iff.mp hs).1, a ++ mark.toList, by rw [List.append_assoc], fun r' _ => ?_⟩
  rw [List.append_assoc]
  exact hagain r'

theorem quoted : Steady Chars Scan.quoted :=
  (tries (by decide)).bind fun _ _ =>
    .ite (upTo (by decide)) ((word _).bind fun _ _ => upTo (by decide))

end Steady

/-! ### Repetitions -/

section Many

variable {α : Type} {step : Scan (Option α)} {P : α → Prop}

theorem manyFrom_mono {n m : Nat} (hnm : n ≤ m) :
    Below (manyFrom step n) (manyFrom step m) := by
  induction n generalizing m with
  | zero => exact .fails _
  | succ n ih =>
    obtain ⟨m, rfl⟩ := Nat.exists_eq_add_of_le' (Nat.le_trans (Nat.le_add_left 1 n) hnm)
    refine .andThen fun o => ?_
    cases o with
    | none => exact .refl _
    | some a => exact (ih (Nat.le_of_succ_le_succ hnm)).bind fun _ => .refl _

theorem Steady.manyFrom (h : Steady (fun o => ∀ a ∈ o, P a) step) (n : Nat) :
    Steady (fun as => ∀ a ∈ as, P a) (Scan.manyFrom step n) := by
  induction n with
  | zero => exact fails
  | succ n ih =>
    refine h.bind fun o ho => ?_
    cases o with
    | none => exact .pure nofun
    | some a =>
      exact ih.bind fun more hmore => .pure (List.forall_mem_cons.mpr ⟨ho a rfl, hmore⟩)

/-- The number of repetitions is limited by the length of the text only, which may grow. -/
theorem Steady.many (h : Steady (fun o => ∀ a ∈ o, P a) step) :
    Steady (fun as => ∀ a ∈ as, P a) (Scan.many step) := by
  intro s as r hs hsome
  obtain ⟨has, w, rfl, hagain⟩ := h.manyFrom _ s as r hs hsome
  refine ⟨has, w, rfl, fun r' hr => manyFrom_mono ?_ _ _ (hagain r' hr)⟩
  have hlength := hr.length_le
  simp only [List.length_append]
  omega

end Many

/-! ### Scanners that take off an end of markup -/

section Shut

variable {α β : Type} {x y : Scan α} {f : α → Scan β} {P : α → Prop} {Q : β → Prop} {s : List Char}

/-- What the scanner takes off the text ends with an end of markup, and anything may follow it. -/
def ShutAt (P : α → Prop) (x : Scan α) (s : List Char) : Prop :=
  ∀ a r, x s = some (a, r) → P a ∧ ∃ u c, Ends c ∧ s = u ++ c :: r ∧
    ∀ r' : List Char, r.length ≤ r'.length → x (u ++ c :: r') = some (a, r')

/-- A scanner that takes off an end of markup at last, and whose results satisfy `P`. -/
def Shut (P : α → Prop) (x : Scan α) : Prop :=
  ∀ s, Chars s → ShutAt P x s

namespace Shut

theorem steady (hx : Shut P x) : Steady P x := by
  intro s a r hs hsome
  obtain ⟨ha, u, c, -, rfl, hagain⟩ := hx s hs a r hsome
  refine ⟨ha, u ++ [c], by simp, fun r' hr => ?_⟩
  rw [List.append_assoc]
  exact hagain r' hr.length_le

theorem fails : Shut P failure := by
  intro s _ a r hsome
  cases hsome

theorem steady_bind (hx : Steady P x) (hf : ∀ a, P a → Shut Q (f a)) : Shut Q (x >>= f) := by
  intro s hs b r hsome
  obtain ⟨a, r₁, hxs, hfa⟩ := bind_eq_some hsome
  obtain ⟨ha, w, rfl, hagain⟩ := hx s a r₁ hs hxs
  obtain ⟨hb, u, c, hc, rfl, hagain'⟩ := hf a ha r₁ (Chars.append_iff.mp hs).2 b r hfa
  refine ⟨hb, w ++ u, c, hc, by rw [List.append_assoc], fun r' hr => ?_⟩
  rw [List.append_assoc, bind_of_some (hagain _ (.behind hc hr))]
  exact hagain' r' hr

/-- What follows the end of markup takes nothing off. -/
theorem bind_still (hx : Shut P x) (hf : ∀ a, P a → (∃ b, Q b ∧ f a = pure b) ∨ f a = failure) :
    Shut Q (x >>= f) := by
  intro s hs b r hsome
  obtain ⟨a, r₁, hxs, hfa⟩ := bind_eq_some hsome
  obtain ⟨ha, u, c, hc, rfl, hagain⟩ := hx s hs a r₁ hxs
  obtain ⟨b', hb, hpure⟩ | hfails := hf a ha
  · rw [hpure] at hfa
    cases hfa
    refine ⟨hb, u, c, hc, rfl, fun r' hr => ?_⟩
    rw [bind_of_some (hagain r' hr), hpure]
    rfl
  · rw [hfails] at hfa
    cases hfa

theorem bind_pure (hx : Shut P x) {g : α → β} (hg : ∀ a, P a → Q (g a)) :
    Shut Q (x >>= fun a => pure (g a)) :=
  hx.bind_still fun a ha => .inl ⟨_, hg a ha, rfl⟩

protected theorem ite {p : Prop} [Decidable p] (hx : Shut P x) (hy : Shut P y) :
    Shut P (if p then x else y) := by
  split
  · exact hx
  · exact hy

theorem guarded {p : Prop} [Decidable p] {k : PUnit → Scan α} (h : ¬ p → Shut P (k ⟨⟩)) :
    Shut P (if p then failure >>= k else k ⟨⟩) := by
  split
  · exact steady_bind (P := fun _ => False) Steady.fails nofun
  · next hp => exact h hp

theorem word {text : String} (h : Closes text.toList) : Shut (fun _ => True) (Scan.word text) := by
  obtain ⟨u, c, hc, htext⟩ := h.exists_eq
  intro s _ a r hsome
  obtain ⟨rfl⟩ := word_eq_some hsome
  refine ⟨trivial, u, c, hc, by simp [htext], fun r' _ => ?_⟩
  have hword := word_append text r'
  rwa [htext, List.append_assoc] at hword

theorem upTo {mark : String} (h : Closes mark.toList) : Shut Chars (Scan.upTo mark) := by
  obtain ⟨u, c, hc, hmark⟩ := h.exists_eq
  intro s hs a r hsome
  obtain ⟨rfl, hagain⟩ := splitOnce_eq_some (by simp [hmark]) hsome
  refine ⟨(Chars.append_iff.mp hs).1, a ++ u, c, hc, by simp [hmark], fun r' _ => ?_⟩
  have ha : a ++ u ++ c :: r' = a ++ (mark.toList ++ r') := by simp [hmark]
  rw [ha]
  exact hagain r'

/-- A mark is taken off, or not; either way an end of markup is taken off behind it. -/
theorem tries_false {text : String} {f : Bool → Scan β} (h : IsMark text.toList)
    (hnot : ¬ text.toList <+: s) (hfalse : ShutAt Q (f false) s) :
    ShutAt Q (Scan.tries text >>= f) s := by
  intro b r hsome
  rw [bind_of_some (tries_eq_false hnot)] at hsome
  obtain ⟨hb, u, c, hc, rfl, hagain⟩ := hfalse b r hsome
  refine ⟨hb, u, c, hc, rfl, fun r' hr => ?_⟩
  rw [h.prefix_iff (.behind hc hr)] at hnot
  rw [bind_of_some (tries_eq_false hnot)]
  exact hagain r' hr

/-- A mark is taken off or not, and either way an end of markup is taken off behind it. -/
theorem choice {text : String} {f : Bool → Scan β} (h : IsMark text.toList) (hs : Chars s)
    (htrue : Shut Q (f true)) (hfalse : ShutAt Q (f false) s) :
    ShutAt Q (Scan.tries text >>= f) s := by
  by_cases hprefix : text.toList <+: s
  · obtain ⟨r₁, rfl⟩ := hprefix
    intro b r hsome
    rw [bind_of_some (tries_append text r₁)] at hsome
    obtain ⟨hb, u, c, hc, rfl, hagain⟩ := htrue r₁ (Chars.append_iff.mp hs).2 b r hsome
    refine ⟨hb, text.toList ++ u, c, hc, by rw [List.append_assoc], fun r' hr => ?_⟩
    rw [List.append_assoc, bind_of_some (tries_append _ _)]
    exact hagain r' hr
  · exact tries_false h hprefix hfalse

/-- Either the mark is taken off as the end of the markup, or another end of markup is taken off. -/
theorem lastChoice {text : String} {f : Bool → Scan β} (h : IsMark text.toList)
    (hcloses : Closes text.toList) (htrue : ∃ b, Q b ∧ f true = pure b) (hfalse : Shut Q (f false)) :
    Shut Q (Scan.tries text >>= f) := by
  intro s hs
  by_cases hprefix : text.toList <+: s
  · obtain ⟨r₁, rfl⟩ := hprefix
    obtain ⟨b', hb, hpure⟩ := htrue
    obtain ⟨u, c, hc, htext⟩ := hcloses.exists_eq
    intro b r hsome
    rw [bind_of_some (tries_append text r₁), hpure] at hsome
    cases hsome
    refine ⟨hb, u, c, hc, by simp [htext], fun r' _ => ?_⟩
    have hfront : u ++ c :: r' = text.toList ++ r' := by simp [htext]
    rw [hfront, bind_of_some (tries_append text r'), hpure]
    rfl
  · exact tries_false h hprefix (hfalse s hs)

theorem lastIte {text : String} {b : β} {x : Scan β} (h : IsMark text.toList)
    (hcloses : Closes text.toList) (hb : Q b) (hx : Shut Q x) :
    Shut Q (do if ← Scan.tries text then return b else x) :=
  lastChoice h hcloses ⟨b, hb, rfl⟩ hx

theorem characterCode : Shut (fun c => isChar c = true) Scan.characterCode := by
  have hend : ∀ code : Nat, Shut (fun c => isChar c = true) (Scan.word ";" >>= fun _ =>
      if code.isValidChar && isChar (Char.ofNat code) then pure (Char.ofNat code) else failure) := by
    intro code
    refine (word (by decide)).bind_still fun _ _ => ?_
    split
    · next hcode =>
      rw [Bool.and_eq_true] at hcode
      exact .inl ⟨_, hcode.2, rfl⟩
    · exact .inr rfl
  have hcode : ∀ code : Nat, Steady (fun _ => True) (pure code) := fun _ => .pure trivial
  exact .steady_bind (.tries (by decide)) fun _ _ => .ite
    (.steady_bind (.someRun _) fun _ _ => .steady_bind (hcode _) fun _ _ => hend _)
    (.steady_bind (.someRun _) fun _ _ => .steady_bind (hcode _) fun _ _ => hend _)

theorem entityName : Shut (fun n => Chars n.toList) Scan.entityName :=
  .steady_bind .name fun _ hn => (word (by decide)).bind_pure fun _ _ => hn

end Shut

end Shut

end Scan

end NetconfWire.Xml
