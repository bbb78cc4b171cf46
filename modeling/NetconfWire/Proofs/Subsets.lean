/-
What the document type declaration depends on.

A document type declaration is scanned like other markup, with a look at what is behind
it but not beyond the next tag.  The texts that it declares hold characters of documents
only, and a greater allowance leads to the same declarations:

* `Dtd.Sound` — scanning with a growing declaration, of which these three things hold;
* `Dtd.sound_scan` — they hold of the scanning of a whole declaration;
* `Document.prolog_again` — hence what stands before the content is scanned in the same
  way in front of other content that begins with the same tag.
-/
import Mathlib.Data.List.Find
import NetconfWire.Proofs.Expansion

namespace NetconfWire.Xml

/-! ### Scanners of declarations -/

namespace Scan.Steady

variable {α β : Type} {P : α → Prop} {Q : β → Prop}

theorem lift {o : Option α} (h : ∀ a, o = some a → P a) : Steady P (liftM o) := by
  cases o with
  | none => exact fails
  | some a => exact .pure (h a rfl)

/-- Two scanners one of which fails where the other one does not. -/
theorem orElse {x y : Scan α} (hx : Steady P x) (hy : Steady P y)
    (hexclusive : ∀ s o, x s = some o → y s = none) : Steady P fun s => x s <|> y s := by
  intro s a r hs hsome
  dsimp only at hsome
  cases hxs : x s with
  | some o =>
    rw [hxs] at hsome
    cases hsome
    obtain ⟨ha, w, rfl, hagain⟩ := hx s a r hs hxs
    refine ⟨ha, w, rfl, fun r' hr => ?_⟩
    dsimp only
    rw [hagain r' hr]
    rfl
  | none =>
    rw [hxs] at hsome
    obtain ⟨ha, w, rfl, hagain⟩ := hy s a r hs hsome
    refine ⟨ha, w, rfl, fun r' hr => ?_⟩
    have hfails : x (w ++ r') = none := by
      cases hx' : x (w ++ r') with
      | none => rfl
      | some o =>
        have hcontra := hexclusive _ o hx'
        rw [hagain r' hr] at hcontra
        cases hcontra
    dsimp only
    rw [hfails]
    exact hagain r' hr

/-- A scanner that looks at what lies ahead, but not beyond the first end of markup. -/
theorem get_bind {f : List Char → Scan α} (h : ∀ front, Steady P (f front))
    (hsame : ∀ s s', Alike s s' → f s = f s') : Steady P (get >>= f) := by
  intro s a r hs hsome
  obtain ⟨ha, w, rfl, hagain⟩ := h s s a r hs hsome
  refine ⟨ha, w, rfl, fun r' hr => ?_⟩
  have hagain := hagain r' hr
  rwa [hsame _ _ (hr.append w)] at hagain

protected theorem forIn {as : List α} {b : β} {f : α → β → Scan (ForInStep β)}
    (h : ∀ a ∈ as, ∀ b, Steady (fun _ => True) (f a b)) :
    Steady (fun _ => True) (forIn as b f) := by
  induction as generalizing b with
  | nil => exact .pure trivial
  | cons a as ih =>
    rw [List.forIn_cons]
    refine (h a List.mem_cons_self b).bind fun step _ => ?_
    cases step with
    | done b => exact .pure trivial
    | yield b => exact ih fun a ha => h a (List.mem_cons_of_mem _ ha)

end Scan.Steady

theorem bind_of_none {σ α β : Type} {x : StateT σ Option α} {f : α → StateT σ Option β} {s : σ}
    (h : x s = none) : (x >>= f) s = none := by
  show (x s).bind _ = _
  rw [h]
  rfl

theorem forall_of_mapM {α β : Type} {f : α → Option β} {Q : β → Prop} {as : List α} {bs : List β}
    (h : ∀ a ∈ as, ∀ b, f a = some b → Q b) (hs : as.mapM f = some bs) : ∀ b ∈ bs, Q b := by
  induction as generalizing bs with
  | nil =>
    rw [List.mapM_nil] at hs
    cases hs
    exact nofun
  | cons a as ih =>
    rw [List.mapM_cons] at hs
    obtain ⟨b, hb, hs⟩ := Option.bind_eq_some_iff.mp hs
    obtain ⟨more, hmore, hs⟩ := Option.bind_eq_some_iff.mp hs
    cases hs
    exact List.forall_mem_cons.mpr ⟨h a List.mem_cons_self b hb,
      ih (fun a ha => h a (List.mem_cons_of_mem _ ha)) hmore⟩

namespace Dtd

open Scan Thrift

theorem steady_location (optional : Bool) :
    Steady (fun _ => True) (location optional) :=
  .bind (.tries (by decide)) fun _ _ => .ite
    (.bind .gap fun _ _ => .bind .quoted fun _ _ => .pure trivial) <|
    .bind (.tries (by decide)) fun _ _ => .ite
      (.bind .gap fun _ _ => .bind .quoted fun _ _ => .guarded fun _ => .bind .blanks fun _ _ =>
        .bind (.sees (by decide)) fun _ _ => .bind (.sees (by decide)) fun _ _ =>
        .ite (.pure trivial) <| .guarded fun _ => .bind .quoted fun _ _ => .pure trivial)
      (.pure trivial)

theorem steady_entityLocation : Steady (fun _ => True) entityLocation := by
  refine .bind (steady_location false) fun place _ => ?_
  cases place with
  | some place => exact .ite .fails (.pure trivial)
  | none => exact .fails

theorem chars_of_entityText {s t : List Char} (hs : Chars s) (h : entityText s = some t) :
    Chars t := by
  obtain ⟨ps, hps, h⟩ := Option.bind_eq_some_iff.mp h
  obtain ⟨parts, hparts, h⟩ := Option.bind_eq_some_iff.mp h
  cases h
  have hall : ∀ part ∈ parts, Chars part := by
    refine forall_of_mapM (fun p hp t ht => ?_) hparts
    have hfits := Piece.fits_of_ofValue hs hps p hp
    -- a reference stays as it is written; its name and the end are what remain to be shown
    cases p with
    | text s =>
      dsimp only at ht
      split at ht <;> cases ht
      exact hfits
    | coded c =>
      cases ht
      have hc : isChar c = true := hfits
      simpa [Chars] using hc
    | reference name =>
      cases ht
      have hname : Chars name.toList := hfits
      have hend : Chars [';'] := by simp [Chars]; decide
      exact List.forall_mem_cons.mpr ⟨rfl, Chars.append_iff.mpr ⟨hname, hend⟩⟩
    | _ => cases ht
  intro c hc
  obtain ⟨part, hpart, hc⟩ := List.mem_flatten.mp hc
  exact hall part hpart c hc

theorem steady_entityValue (isParameter : Bool) : Steady Entity.Fits (entityValue isParameter) :=
  .bind (.sees (by decide)) fun _ _ => .bind (.sees (by decide)) fun _ _ => .ite
    (.bind .quoted fun _ hs => .bind (.lift fun _ => chars_of_entityText hs) fun _ ht => .pure ht) <|
    .bind steady_entityLocation fun _ _ => .bind .blanks fun _ _ =>
      .bind (.tries (by decide)) fun _ _ => .ite
        (.guarded fun _ => .bind .gap fun _ _ => .bind .name fun _ _ => .pure trivial)
        (.pure trivial)

theorem steady_members {signs : List String} {member : Scan Unit}
    (hsigns : ∀ sign ∈ signs, IsMark sign.toList) (hmember : Steady (fun _ => True) member) :
    Steady (fun _ => True) (members signs member) := by
  have hspaced : Steady (fun _ => True) (do
      let _ ← blanks
      member
      let _ ← blanks
      return ()) :=
    .bind .blanks fun _ _ => hmember.bind fun _ _ => .bind .blanks fun _ _ => .pure trivial
  refine hspaced.bind fun _ _ => .get_bind (fun front => ?_) fun s s' hs => ?_
  · split
    · next sign hsign =>
      have hsign := hsigns sign (List.mem_of_find?_eq_some hsign)
      refine .bind (.many (P := fun _ => True) ?_) fun _ _ => .word _
      exact .bind (.tries hsign) fun _ _ => .ite (hspaced.bind fun _ _ => .pure fun _ _ => trivial)
        (.pure nofun)
    · exact .word _
  -- which sign follows is seen from the first characters, and these are alike
  · have hfind : signs.find? (fun sign => sign.toList.isPrefixOf s)
        = signs.find? fun sign => sign.toList.isPrefixOf s' :=
      List.find?_congr fun sign hsign => (hsigns sign hsign).isPrefixOf_eq hs
    rw [hfind]

theorem steady_occurrence : Steady (fun _ => True) occurrence :=
  .bind (.tries (by decide)) fun _ _ => .ite (.pure trivial) <|
    .bind (.tries (by decide)) fun _ _ => .ite (.pure trivial) <|
      .bind (.tries (by decide)) fun _ _ => .pure trivial

theorem steady_particle (depth : Nat) : Steady (fun _ => True) (particle depth) := by
  induction depth with
  | zero => exact .fails
  | succ depth ih =>
    have hsigns : ∀ sign ∈ ["|", ","], IsMark sign.toList := by decide
    have hmembers := steady_members hsigns ih
    have hname : Steady (fun _ => True) (discard Scan.name) := Steady.name.bind fun _ _ => .pure trivial
    exact .bind (.tries (by decide)) fun _ _ => .ite (hmembers.bind fun _ _ => steady_occurrence)
      (hname.bind fun _ _ => steady_occurrence)

theorem steady_mixed : Steady (fun _ => True) mixed := by
  have hnames : Steady (fun o => ∀ _ ∈ o, True) (do
      let _ ← blanks
      if ← tries "|" then
        let _ ← blanks
        return some (← Scan.name)
      else return (Option.none : Option String)) :=
    .bind .blanks fun _ _ => .bind (.tries (by decide)) fun _ _ => .ite
      (.bind .blanks fun _ _ => .bind .name fun _ _ => .pure fun _ _ => trivial) (.pure nofun)
  have hrest : Steady (fun _ => True) mixedRest :=
    .bind (.many hnames) fun _ _ => .bind (.word _) fun _ _ => .ite
      (.bind (.tries (by decide)) fun _ _ => .pure trivial) (.word _)
  exact .bind (.word _) fun _ _ => .bind .blanks fun _ _ => .bind (.word _) fun _ _ => hrest

/-- A content model of text is no content model of elements only. -/
theorem particle_of_mixed {s r : List Char} {a : Unit} (depth : Nat) (h : mixed s = some (a, r)) :
    particle depth s = Option.none := by
  rw [mixed] at h
  obtain ⟨_, s₁, hopening, h₁⟩ := bind_eq_some h
  obtain ⟨_, s₂, hblanks, h₂⟩ := bind_eq_some h₁
  obtain ⟨_, s₃, hmark, -⟩ := bind_eq_some h₂
  rw [word_eq_some hmark] at hblanks
  rw [word_eq_some hopening]
  -- the mark of text is no name and no group
  have hnone : ∀ depth, particle depth ("#PCDATA".toList ++ s₃) = Option.none := by
    intro depth
    cases depth <;> rfl
  cases depth with
  | zero => rfl
  | succ depth =>
    rw [particle, bind_of_some (tries_append "(" s₁), if_pos rfl]
    refine bind_of_none (bind_of_none ?_)
    rw [bind_of_some hblanks]
    exact bind_of_none (hnone depth)

theorem steady_elementDeclaration : Steady (fun _ => True) elementDeclaration :=
  .bind .gap fun _ _ => .bind .name fun _ _ => .bind .gap fun _ _ =>
    .bind (.tries (by decide)) fun _ _ => .ite (.pure trivial) <|
    .bind (.tries (by decide)) fun _ _ => .ite (.pure trivial) <|
    .bind (.sees (by decide)) fun _ _ => .ite .fails <|
      .orElse steady_mixed (steady_particle _) fun _ _ h => particle_of_mixed _ h

theorem steady_attributeType : Steady (fun _ => True) attributeType := by
  have hwords : ∀ w ∈ typeWords, IsMark w.toList := by decide
  have hsigns : ∀ sign ∈ ["|"], IsMark sign.toList := by decide
  refine .bind (.tries (by decide)) fun _ _ => .ite (.pure trivial) <|
    .bind (.forIn fun w hw _ => .bind (.tries (hwords w hw)) fun _ _ =>
      .ite (.pure trivial) (.pure trivial)) fun found _ => ?_
  dsimp only
  split
  · exact .pure trivial
  · exact .bind (.tries (by decide)) fun _ _ => .ite
      (.bind .gap fun _ _ => .bind (.word _) fun _ _ =>
        .bind (steady_members hsigns (Steady.name.bind fun _ _ => .pure trivial)) fun _ _ =>
        .pure trivial)
      (.bind (.word _) fun _ _ =>
        .bind (steady_members hsigns ((Steady.someRun _).bind fun _ _ => .pure trivial)) fun _ _ =>
        .pure trivial)

/-! ### Growing declarations -/

/-- The declared texts hold characters of documents only. -/
structure Plain (d : Dtd) : Prop where
  entities : ∀ e ∈ d.entities, e.2.Fits
  parameters : ∀ e ∈ d.parameters, e.2.Fits

/-- The declaration with a greater allowance. -/
def enlarge (d : Dtd) (k : Nat) : Dtd :=
  { d with allowance := d.allowance + k }

section Sound

variable {α β : Type} {x y : Subset α} {f : α → Subset β} {P : α → Prop} {Q : β → Prop}

theorem lift_at (x : Scan α) (d : Dtd) :
    (liftM x : Subset α) d = x >>= fun a => pure (a, d) :=
  rfl

theorem bind_at (x : Subset α) (f : α → Subset β) (d : Dtd) :
    (x >>= f) d = x d >>= fun o => f o.1 o.2 :=
  rfl

/-- Scanning that is steady, keeps the declared texts plain, and comes to the same result when the
allowance is greater. -/
structure Sound (P : α → Prop) (x : Subset α) : Prop where
  steady : ∀ d : Dtd, d.Plain → Steady (fun o => P o.1 ∧ o.2.Plain) (x d)
  lenient : ∀ (d : Dtd) k s o r, d.Plain → Chars s → x d s = some (o, r) →
    x (d.enlarge k) s = some ((o.1, o.2.enlarge k), r)

namespace Sound

protected theorem pure {a : α} (h : P a) : Sound P (pure a) where
  steady _ hd := .pure ⟨h, hd⟩
  lenient := by
    intro d k s o r _ _ hsome
    cases hsome
    rfl

theorem fails : Sound P failure where
  steady _ _ := .fails
  lenient := by
    intro d k s o r _ _ hsome
    cases hsome

theorem lift {x : Scan α} (h : Steady P x) : Sound P (liftM x) where
  steady d hd := by
    rw [lift_at]
    exact h.bind fun _ ha => .pure ⟨ha, hd⟩
  lenient := by
    intro d k s o r _ _ hsome
    rw [lift_at] at hsome ⊢
    obtain ⟨a, s', hx, hsome⟩ := bind_eq_some hsome
    cases hsome
    rw [bind_of_some hx]
    rfl

protected theorem bind (hx : Sound P x) (hf : ∀ a, P a → Sound Q (f a)) : Sound Q (x >>= f) where
  steady d hd := by
    rw [bind_at]
    exact (hx.steady d hd).bind fun o ho => (hf o.1 ho.1).steady o.2 ho.2
  lenient := by
    intro d k s o r hd hs hsome
    rw [bind_at] at hsome ⊢
    obtain ⟨o₁, s₁, hxs, hfo⟩ := bind_eq_some hsome
    -- what follows is in need of the declaration and the text that are left
    obtain ⟨⟨ho, hplain⟩, w, rfl, -⟩ := hx.steady d hd s o₁ s₁ hs hxs
    rw [bind_of_some (hx.lenient d k _ o₁ s₁ hd hs hxs)]
    exact (hf o₁.1 ho).lenient o₁.2 k s₁ o r hplain (Chars.append_iff.mp hs).2 hfo

protected theorem ite {p : Prop} [Decidable p] (hx : Sound P x) (hy : Sound P y) :
    Sound P (if p then x else y) := by
  split
  · exact hx
  · exact hy

theorem guarded {p : Prop} [Decidable p] {k : PUnit → Subset α} (h : Sound P (k ⟨⟩)) :
    Sound P (if p then failure >>= k else k ⟨⟩) :=
  .ite (fails.bind (P := fun _ => False) nofun) h

/-- What is done depends on a part of the declaration that the allowance does not belong to. -/
theorem get_bind {γ : Type} {f : Dtd → Subset α} {g : Dtd → γ} {t : γ → Subset α}
    (hf : ∀ d, f d d = t (g d) d) (hg : ∀ d k, g (Dtd.enlarge d k) = g d)
    (ht : ∀ d : Dtd, d.Plain → Sound P (t (g d))) : Sound P (get >>= f) where
  steady d hd := by
    show Steady _ (f d d)
    rw [hf]
    exact (ht d hd).steady d hd
  lenient := by
    intro d k s o r hd hs hsome
    change f d d s = _ at hsome
    show f (d.enlarge k) (d.enlarge k) s = _
    rw [hf, hg]
    rw [hf] at hsome
    exact (ht d hd).lenient d k s o r hd hs hsome

protected theorem modify {f : Dtd → Dtd} (hplain : ∀ d : Dtd, d.Plain → (f d).Plain)
    (henlarge : ∀ d k, f (d.enlarge k) = (f d).enlarge k) :
    Sound (fun _ => True) (modify f) where
  steady d hd := .pure ⟨trivial, hplain d hd⟩
  lenient := by
    intro d k s o r _ _ hsome
    cases hsome
    show some (((), f (d.enlarge k)), s) = _
    rw [henlarge]

theorem remark (applies : Bool) (r : Remark) : Sound (fun _ => True) (Dtd.remark applies r) :=
  .modify (fun _ hd => ⟨hd.entities, hd.parameters⟩) fun _ _ => rfl

theorem plainName : Sound (fun _ => True) Dtd.plainName :=
  .bind (.lift .name) fun _ _ => (remark _ _).bind fun _ _ => .pure trivial

/-- Work that is paid for out of the allowance. -/
def spending {γ : Type} (work : Dtd → Thrift γ) (t : γ → Subset α) : Subset α := do
  let d ← get
  let (c, left) ← work d d.allowance
  set { d with allowance := left }
  t c

theorem spending_eq {γ : Type} (work : Dtd → Thrift γ) (t : γ → Subset α) (d : Dtd) (s : List Char) :
    spending work t d s
      = (work d d.allowance).bind fun p => t p.1 { d with allowance := p.2 } s := by
  show ((liftM (work d d.allowance) : Subset (γ × Nat)) >>= fun p => do
    set { d with allowance := p.2 }
    t p.1) d s = _
  generalize work d d.allowance = o
  cases o <;> rfl

theorem spend {γ : Type} {work : Dtd → Thrift γ} {t : γ → Subset α}
    (hwork : ∀ d, Thrifty (fun _ => True) (work d)) (hsame : ∀ d k, work (Dtd.enlarge d k) = work d)
    (ht : ∀ c, Sound P (t c)) : Sound P (spending work t) where
  steady d hd := by
    intro s o r hs hsome
    rw [spending_eq] at hsome
    obtain ⟨p, hp, hsome⟩ := Option.bind_eq_some_iff.mp hsome
    obtain ⟨ho, w, rfl, hagain⟩ :=
      (ht p.1).steady { d with allowance := p.2 } ⟨hd.entities, hd.parameters⟩ s o r hs hsome
    refine ⟨ho, w, rfl, fun r' hr => ?_⟩
    rw [spending_eq, hp]
    exact hagain r' hr
  lenient := by
    intro d k s o r hd hs hsome
    rw [spending_eq] at hsome ⊢
    obtain ⟨p, hp, hsome⟩ := Option.bind_eq_some_iff.mp hsome
    -- the same is spent, so that more is left over
    have hmore : work (d.enlarge k) (d.enlarge k).allowance = some (p.1, p.2 + k) := by
      rw [hsame]
      exact (hwork d _ _ _ hp).2 k
    rw [hmore]
    exact (ht p.1).lenient { d with allowance := p.2 } k s o r ⟨hd.entities, hd.parameters⟩ hs hsome

theorem entityDeclaration : Sound (fun _ => True) Dtd.entityDeclaration := by
  refine .bind (.lift .gap) fun _ _ => .bind (.lift (.tries (by decide))) fun isParameter _ => ?_
  have hrest : Sound (fun _ => True) (do
      let name ← Dtd.plainName
      Scan.gap
      let value ← entityValue isParameter
      modify fun d =>
        if isParameter then { d with parameters := d.parameters ++ [(name, value)] }
        else { d with entities := d.entities ++ [(name, value)] }) := by
    refine plainName.bind fun name _ => .bind (.lift .gap) fun _ _ =>
      .bind (.lift (steady_entityValue isParameter)) fun value hvalue => .modify (fun d hd => ?_) fun d k => ?_
    · split
      · exact ⟨hd.entities, List.forall_mem_append.mpr ⟨hd.parameters, by simpa using hvalue⟩⟩
      · exact ⟨List.forall_mem_append.mpr ⟨hd.entities, by simpa using hvalue⟩, hd.parameters⟩
    · split <;> rfl
  exact .ite (.bind (.lift .gap) fun _ _ => hrest) hrest

theorem fallback (tokenized : Bool) : Sound (fun _ => True) (Dtd.fallback tokenized) := by
  refine .bind (.lift (.tries (by decide))) fun _ _ => .ite (.pure trivial) <|
    .bind (.lift (.tries (by decide))) fun _ _ => .ite (.pure trivial) <|
    .bind (.lift (.tries (by decide))) fun _ _ => ?_
  have hrest : Sound (fun _ => True) (do
      let value ← Scan.quoted
      if value.contains '<' then failure
      spending (fun d => d.general.expand value) fun parts => do
        Dtd.remark (parts.contains Option.none) .error
        let value := parts.filterMap id
        return some (if tokenized then joinTokens value else value)) :=
    .bind (.lift .quoted) fun value _ => .guarded <|
      spend (fun d => d.general.thrifty_expand value) (fun _ _ => rfl) fun _ =>
        (remark _ _).bind fun _ _ => .pure trivial
  exact .ite (.bind (.lift .gap) fun _ _ => hrest) hrest

theorem attributeRule (element : String) : Sound (fun _ => True) (Dtd.attributeRule element) :=
  .bind (.lift .blanks) fun _ _ => .bind (.lift (.sees (by decide))) fun _ _ =>
    .ite (.pure trivial) <| .guarded <| .bind (.lift .name) fun _ _ => .bind (.lift .gap) fun _ _ =>
    .bind (.lift steady_attributeType) fun _ _ => .bind (.lift .gap) fun _ _ =>
    (fallback _).bind fun _ _ =>
    .bind (.modify (fun _ hd => ⟨hd.entities, hd.parameters⟩) fun _ _ => rfl) fun _ _ => .pure trivial

theorem repeatWithin_mono (step : Subset (Option Unit)) {n m : Nat} (hnm : n ≤ m) (d : Dtd) :
    Below (Dtd.repeatWithin step n d) (Dtd.repeatWithin step m d) := by
  induction n generalizing m d with
  | zero => exact .fails _
  | succ n ih =>
    obtain ⟨m, rfl⟩ := Nat.exists_eq_add_of_le' (Nat.le_trans (Nat.le_add_left 1 n) hnm)
    rw [Dtd.repeatWithin, Dtd.repeatWithin, bind_at, bind_at]
    refine .andThen fun o => ?_
    split
    · exact ih (Nat.le_of_succ_le_succ hnm) o.2
    · exact .refl _

theorem repeatWithin {step : Subset (Option Unit)} (hstep : Sound (fun _ => True) step) (n : Nat) :
    Sound (fun _ => True) (Dtd.repeatWithin step n) := by
  induction n with
  | zero => exact fails
  | succ n ih => exact hstep.bind fun _ _ => .ite ih (.pure trivial)

theorem repeatStep {step : Subset (Option Unit)} (hstep : Sound (fun _ => True) step) :
    Sound (fun _ => True) (Dtd.repeatStep step) where
  steady d hd := by
    intro s o r hs hsome
    obtain ⟨ho, w, rfl, hagain⟩ := (repeatWithin hstep _).steady d hd s o r hs hsome
    refine ⟨ho, w, rfl, fun r' hr => repeatWithin_mono step ?_ d _ _ (hagain r' hr)⟩
    have hlength := hr.length_le
    simp only [List.length_append]
    omega
  lenient d k s o r hd hs hsome := (repeatWithin hstep _).lenient d k s o r hd hs hsome

theorem attributeDeclaration : Sound (fun _ => True) Dtd.attributeDeclaration :=
  .bind (.lift .gap) fun _ _ => .bind (.lift .name) fun _ _ => repeatStep (attributeRule _)

theorem notationDeclaration : Sound (fun _ => True) Dtd.notationDeclaration :=
  .bind (.lift .gap) fun _ _ => plainName.bind fun _ _ => .bind (.lift .gap) fun _ _ =>
    .bind (.lift (steady_location true)) fun _ _ => .ite fails (.pure trivial)

theorem declaration : Sound (fun _ => True) Dtd.declaration := by
  have hend : Sound (fun _ => True) (do
      let _ ← Scan.blanks
      Scan.word ">" : Subset Unit) :=
    .bind (.lift .blanks) fun _ _ => .lift (.word _)
  exact .bind (.lift (.tries (by decide))) fun _ _ => .ite (entityDeclaration.bind fun _ _ => hend) <|
    .bind (.lift (.tries (by decide))) fun _ _ => .ite
      (.bind (.lift steady_elementDeclaration) fun _ _ => hend) <|
    .bind (.lift (.tries (by decide))) fun _ _ => .ite (attributeDeclaration.bind fun _ _ => hend) <|
    .bind (.lift (.word _)) fun _ _ => notationDeclaration.bind fun _ _ => hend

/-- What a reference to a parameter entity comes to, given its declaration and whether the document
stands alone. -/
def resolve (read : List Char → Subset Unit) : Option (String × Entity) × Bool → Subset Unit
  | (some (_, .internal text), _) => spending (fun _ => Thrift.pay text) fun _ => read text
  | (some (_, .external), _) => failure
  | (Option.none, standalone) => do
    if standalone then failure
    Dtd.remark true .warning

theorem parameterReference {read : List Char → Subset Unit}
    (hread : ∀ text, Chars text → Sound (fun _ => True) (read text)) :
    Sound (fun _ => True) (Dtd.parameterReference read) := by
  refine .bind (.lift Shut.entityName.steady) fun name _ =>
    .bind (.modify (fun _ hd => ⟨hd.entities, hd.parameters⟩) fun _ _ => rfl) fun _ _ => ?_
  refine get_bind (t := resolve read) (g := fun d => (d.parameters.find? (·.1 == name), d.standalone))
    (fun d => ?_) (fun _ _ => rfl) fun d hd => ?_
  · cases d.parameters.find? (·.1 == name) with
    | none => rfl
    | some e => obtain ⟨_, _ | _⟩ := e <;> rfl
  · cases hfind : d.parameters.find? (·.1 == name) with
    | none => exact guarded (k := fun _ => Dtd.remark true .warning) (remark _ _)
    | some e =>
      have hfits := hd.parameters e (List.mem_of_find?_eq_some hfind)
      obtain ⟨_, text | _⟩ := e
      · exact spend (fun _ => .pay text) (fun _ _ => rfl) fun _ => hread text hfits
      · exact fails

theorem part {read : List Char → Subset Unit}
    (hread : ∀ text, Chars text → Sound (fun _ => True) (read text)) :
    Sound (fun _ => True) (Dtd.part read) := by
  refine .bind (.lift (.tries (by decide))) fun _ _ => .ite
    (.bind (.lift Piece.shut_comment.steady) fun _ _ => .pure trivial) <|
    .bind (.lift (.tries (by decide))) fun _ _ => .ite
      (.bind (.lift Piece.shut_instruction.steady) fun p _ => ?_) <|
    .bind (.lift (.tries (by decide))) fun _ _ => .ite (parameterReference hread) <|
    .bind (.lift (.word _)) fun _ _ => declaration
  cases p with
  | instruction target => exact .modify (fun _ hd => ⟨hd.entities, hd.parameters⟩) fun _ _ => rfl
  | _ => exact fails

theorem parts {read : List Char → Subset Unit} {isEnd : Scan Bool}
    (hread : ∀ text, Chars text → Sound (fun _ => True) (read text))
    (hend : Steady (fun _ => True) isEnd) : Sound (fun _ => True) (Dtd.parts read isEnd) :=
  repeatStep <| .bind (.lift .blanks) fun _ _ => .bind (.lift hend) fun _ _ =>
    .ite (.pure trivial) ((part hread).bind fun _ _ => .pure trivial)

theorem textParts_eq_some_iff {depth : Nat} {text s r : List Char} {d : Dtd} {o : Unit × Dtd} :
    Dtd.textParts (depth + 1) text d s = some (o, r) ↔
      Dtd.parts (Dtd.textParts depth) Scan.atEnd d (unifyLineEnds text) = some (o, []) ∧ r = s := by
  rw [Dtd.textParts]
  constructor
  · intro h
    dsimp only at h
    split at h
    · next hinner =>
      cases h
      exact ⟨hinner, rfl⟩
    · cases h
  · rintro ⟨hinner, rfl⟩
    dsimp only
    rw [hinner]

theorem textParts (depth : Nat) {text : List Char} (htext : Chars text) :
    Sound (fun _ => True) (Dtd.textParts depth text) := by
  induction depth generalizing text with
  | zero => exact fails
  | succ depth ih =>
    have hparts := parts (fun text => @ih text) .atEnd
    constructor
    · intro d hd s o r hs hsome
      obtain ⟨hinner, rfl⟩ := textParts_eq_some_iff.mp hsome
      obtain ⟨ho, -⟩ := hparts.steady d hd _ o [] htext.unifyLineEnds hinner
      exact ⟨ho, [], rfl, fun r' _ => textParts_eq_some_iff.mpr ⟨hinner, rfl⟩⟩
    · intro d k s o r hd _ hsome
      obtain ⟨hinner, rfl⟩ := textParts_eq_some_iff.mp hsome
      exact textParts_eq_some_iff.mpr
        ⟨hparts.lenient d k _ o [] hd htext.unifyLineEnds hinner, rfl⟩

theorem scan : Sound (fun _ => True) Dtd.scan := by
  have hend : Sound (fun _ => True) (do
      let _ ← Scan.blanks
      if ← Scan.tries "[" then
        Dtd.parts (Dtd.textParts maxNesting) (Scan.sees "]")
        Scan.word "]"
        let _ ← Scan.blanks
      Scan.word ">" : Subset Unit) := by
    refine .bind (.lift .blanks) fun _ _ => .bind (.lift (.tries (by decide))) fun _ _ => .ite ?_
      (.lift (.word _))
    exact .bind (parts (fun _ => textParts maxNesting) (.sees (by decide))) fun _ _ =>
      .bind (.lift (.word _)) fun _ _ => .bind (.lift .blanks) fun _ _ => .lift (.word _)
  refine .bind (.lift .gap) fun _ _ => .bind (.lift .name) fun _ _ => .bind (.lift .blanks) fun _ _ =>
    .bind (.lift (steady_location false)) fun place _ => ?_
  cases place with
  | none => exact hend
  | some place =>
    exact .guarded <| .bind (.modify (fun _ hd => ⟨hd.entities, hd.parameters⟩) fun _ _ => rfl)
      fun _ _ => hend

end Sound

end Sound

/-- A whole document type declaration is scanned in this way. -/
theorem sound_scan : Sound (fun _ => True) scan :=
  Sound.scan

end Dtd

/-! ### What lies before the content -/

namespace Document

open Scan

variable {size size' : Nat} {s : List Char}

theorem plain_none (standalone : Bool) (allowance : Nat) (remarks : List Remark) :
    ({ Dtd.none standalone allowance with remarks := remarks } : Dtd).Plain :=
  ⟨nofun, nofun⟩

theorem steady_prolog (size : Nat) : Steady (fun d => d.Plain) (prolog size) := by
  refine .bind Declaration.steady_scanIfThere fun declaration _ => .bind steady_asides fun before _ =>
    .bind (.tries (by decide)) fun _ _ => ?_
  exact .ite (.bind (Dtd.sound_scan.steady _ (plain_none _ _ _)) fun _ hd => .pure hd.2)
    (.pure (plain_none _ _ _))

/-- A longer document may yield more, and comes to the same declarations. -/
theorem prolog_of_le {d : Dtd} {r : List Char} (hsize : size ≤ size') (hs : Chars s)
    (h : prolog size s = some (d, r)) : ∃ k, prolog size' s = some (d.enlarge k, r) := by
  obtain ⟨k, hk⟩ : ∃ k, Thrift.allowance size' = Thrift.allowance size + k := by
    refine Nat.exists_eq_add_of_le ?_
    rw [Thrift.allowance, Thrift.allowance]
    omega
  refine ⟨k, ?_⟩
  rw [prolog] at h ⊢
  obtain ⟨declaration, s₁, hdeclaration, h₁⟩ := bind_eq_some h
  obtain ⟨before, s₂, hbefore, h₂⟩ := bind_eq_some h₁
  obtain ⟨doctype, s₃, hdoctype, h₃⟩ := bind_eq_some h₂
  have hs₁ : Chars s₁ := Declaration.steady_scanIfThere.chars_rest hs hdeclaration
  have hs₂ : Chars s₂ := steady_asides.chars_rest hs₁ hbefore
  have hs₃ : Chars s₃ := (Steady.tries (by decide)).chars_rest hs₂ hdoctype
  rw [bind_of_some hdeclaration, bind_of_some hbefore, bind_of_some hdoctype, hk]
  cases doctype with
  | false =>
    cases h₃
    rfl
  | true =>
    obtain ⟨o, s₄, hscan, h₄⟩ := bind_eq_some h₃
    have hmore := Dtd.sound_scan.lenient _ k _ o s₄ (plain_none _ _ _) hs₃ hscan
    cases h₄
    exact bind_of_some hmore

/-- What stands before the content is scanned in the same way in front of content that begins with
the same tag and is no shorter. -/
theorem prolog_again {d : Dtd} {r r' : List Char} (hs : Chars s) (hr' : Chars r')
    (hsize : size ≤ size') (h : prolog size s = some (d, r)) (hr : Alike r r') :
    ∃ w k, s = w ++ r ∧ prolog size' (w ++ r') = some (d.enlarge k, r') := by
  obtain ⟨-, w, rfl, hagain⟩ := steady_prolog size s d r hs h
  have hchars : Chars (w ++ r') := Chars.append_iff.mpr ⟨(Chars.append_iff.mp hs).1, hr'⟩
  obtain ⟨k, hk⟩ := prolog_of_le hsize hchars (hagain r' hr)
  exact ⟨w, k, rfl, hk⟩

end Document

end NetconfWire.Xml
