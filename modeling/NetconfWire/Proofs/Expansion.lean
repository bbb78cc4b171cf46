/-
What references stand for.

The text of entities is paid for out of an allowance.  Nothing but a refusal can come of
the allowance: what it suffices for comes out the same when there is more of it.  The
texts that come out hold characters of documents only, since the texts that are declared
do, and the text of an entity ends where it began:

* `Thrift.Thrifty` — work that does not depend on the rest of the allowance;
* `Entities.thrifty_expand` — the values of attributes;
* `Event.orderly_of_ofContent`, `Event.ofContent_of_le` — the events of content.
-/
import NetconfWire.Proofs.Pieces
import NetconfWire.Xml.Event

namespace NetconfWire.Xml

theorem Chars.unifyLineEnds {s : List Char} (hs : Chars s) : Chars (Xml.unifyLineEnds s) := by
  induction s using Xml.unifyLineEnds.induct with
  | case1 rest ih =>
    rw [Xml.unifyLineEnds]
    have hrest : Chars rest := hs.of_subset fun c hc => by simp [hc]
    exact List.forall_mem_cons.mpr ⟨rfl, ih hrest⟩
  | case2 rest h ih =>
    rw [Xml.unifyLineEnds]
    · have hrest : Chars rest := hs.of_subset fun c hc => by simp [hc]
      exact List.forall_mem_cons.mpr ⟨rfl, ih hrest⟩
    · exact h
  | case3 c rest h₁ h₂ ih =>
    rw [Xml.unifyLineEnds]
    · have hrest : Chars rest := hs.of_subset fun d hd => by simp [hd]
      exact List.forall_mem_cons.mpr ⟨hs c List.mem_cons_self, ih hrest⟩
    · exact h₁
    · exact h₂
  | case4 => exact hs

/-! ### Thrift -/

namespace Thrift

variable {α β : Type} {x : Thrift α} {f : α → Thrift β} {P : α → Prop} {Q : β → Prop}

/-- Work whose results satisfy `P`, and which comes to the same when more is left. -/
def Thrifty (P : α → Prop) (x : Thrift α) : Prop :=
  ∀ left a left', x left = some (a, left') → P a ∧ ∀ k, x (left + k) = some (a, left' + k)

namespace Thrifty

protected theorem pure {a : α} (h : P a) : Thrifty P (pure a) := by
  intro left b left' hsome
  cases hsome
  exact ⟨h, fun _ => rfl⟩

theorem fails : Thrifty P failure := by
  intro left a left' hsome
  cases hsome

protected theorem bind (hx : Thrifty P x) (hf : ∀ a, P a → Thrifty Q (f a)) :
    Thrifty Q (x >>= f) := by
  intro left b left'' hsome
  obtain ⟨a, left', hxs, hfa⟩ := bind_eq_some hsome
  obtain ⟨ha, hmore⟩ := hx left a left' hxs
  obtain ⟨hb, hmore'⟩ := hf a ha left' b left'' hfa
  refine ⟨hb, fun k => ?_⟩
  rw [bind_of_some (hmore k)]
  exact hmore' k

theorem lift {o : Option α} (h : ∀ a, o = some a → P a) : Thrifty P (liftM o) := by
  cases o with
  | none => exact fails
  | some a => exact .pure (h a rfl)

theorem pay (text : List Char) : Thrifty (fun _ => True) (Thrift.pay text) := by
  intro left a left' hsome
  simp only [Thrift.pay] at hsome ⊢
  split at hsome
  · cases hsome
  · cases hsome
    refine ⟨trivial, fun k => ?_⟩
    rw [if_neg (by omega), Nat.sub_add_comm (by omega)]

protected theorem mapM {as : List α} (h : ∀ a ∈ as, Thrifty Q (f a)) :
    Thrifty (fun bs => ∀ b ∈ bs, Q b) (as.mapM f) := by
  induction as with
  | nil =>
    rw [List.mapM_nil]
    exact .pure nofun
  | cons a as ih =>
    rw [List.mapM_cons]
    exact (h a List.mem_cons_self).bind fun b hb =>
      (ih fun a ha => h a (List.mem_cons_of_mem _ ha)).bind fun bs hbs =>
        .pure (List.forall_mem_cons.mpr ⟨hb, hbs⟩)

end Thrifty

end Thrift

open Thrift

/-! ### Entities -/

/-- The text of the entity holds characters of documents only. -/
def Entity.Fits : Entity → Prop
  | internal text => Chars text
  | external => True

namespace Entities

variable {e : Entities} {name : String}

/-- The texts of the declared entities hold characters of documents only. -/
def Fit (e : Entities) : Prop :=
  ∀ x ∈ e.declared, x.2.Fits

theorem isChar_of_referent? {c : Char} (h : e.referent? name = some (.character c)) :
    isChar c = true := by
  have hall : ∀ x ∈ predefined, isChar x.2 = true := by decide
  rw [referent?] at h
  split at h
  · next hfind =>
    cases h
    exact hall _ (List.mem_of_find?_eq_some hfind)
  · split at h
    · cases h
    · cases h
    · split at h <;> cases h

theorem chars_of_referent? {s : List Char} (he : e.Fit) (h : e.referent? name = some (.text s)) :
    Chars s := by
  rw [referent?] at h
  split at h
  · cases h
  · split at h
    · next hfind =>
      cases h
      exact he _ (List.mem_of_find?_eq_some hfind)
    · cases h
    · split at h <;> cases h

theorem thrifty_expandPieces {nested : List Char → Thrift (List (Option Char))}
    (hnested : ∀ s, Thrifty (fun _ => True) (nested s)) (pieces : List Piece) :
    Thrifty (fun _ => True) (e.expandPieces nested pieces) := by
  refine .bind (.mapM (Q := fun _ => True) fun p _ => ?_) fun _ _ => .pure trivial
  cases p with
  | text s => exact .pure trivial
  | coded c => exact .pure trivial
  | reference name =>
    refine .bind (.lift (P := fun _ => True) fun _ _ => trivial) fun referent _ => ?_
    cases referent with
    | character c => exact .pure trivial
    | text s =>
      refine .bind (.pay s) fun _ _ => ?_
      dsimp only
      split
      · exact .bind (P := fun _ => False) .fails nofun
      · exact hnested s
    | unknown => exact .pure trivial
  | _ => exact .fails

theorem thrifty_expandWithin (e : Entities) (depth : Nat) (s : List Char) :
    Thrifty (fun _ => True) (e.expandWithin depth s) := by
  induction depth generalizing s with
  | zero =>
    exact .bind (.lift (P := fun _ => True) fun _ _ => trivial) fun _ _ =>
      thrifty_expandPieces (fun _ => .fails) _
  | succ depth ih =>
    exact .bind (.lift (P := fun _ => True) fun _ _ => trivial) fun _ _ =>
      thrifty_expandPieces ih _

theorem thrifty_expand (e : Entities) (s : List Char) : Thrifty (fun _ => True) (e.expand s) :=
  e.thrifty_expandWithin maxNesting s

end Entities

/-! ### Events -/

namespace Event

/-- The text of the event holds characters of documents only. -/
def Fits : Event → Prop
  | text s _ => Chars s
  | _ => True

/-- Events whose texts fit, and in which the text of every entity ends. -/
structure Orderly (es : List Event) : Prop where
  fits : ∀ e ∈ es, e.Fits
  balanced : es.count .enter = es.count .leave

namespace Orderly

variable {es fs : List Event} {e : Event}

theorem nil : Orderly [] :=
  ⟨nofun, rfl⟩

theorem append (hes : Orderly es) (hfs : Orderly fs) : Orderly (es ++ fs) := by
  refine ⟨List.forall_mem_append.mpr ⟨hes.fits, hfs.fits⟩, ?_⟩
  rw [List.count_append, List.count_append, hes.balanced, hfs.balanced]

theorem single (he : e.Fits) (henter : e ≠ .enter) (hleave : e ≠ .leave) : Orderly [e] := by
  refine ⟨by simpa using he, ?_⟩
  rw [List.count_singleton, List.count_singleton, if_neg (by simpa using henter),
    if_neg (by simpa using hleave)]

theorem remarks (rs : List Remark) : Orderly (rs.map remark) := by
  induction rs with
  | nil => exact nil
  | cons r rs ih => exact (single (e := remark r) trivial (by simp) (by simp)).append ih

/-- The text of an entity, between its beginning and its end. -/
theorem enclosed (hes : Orderly es) : Orderly (enter :: es ++ [leave]) := by
  refine ⟨fun e he => ?_, by simp [hes.balanced]⟩
  simp only [List.cons_append, List.mem_cons, List.mem_append, List.not_mem_nil, or_false] at he
  rcases he with rfl | he | rfl
  · trivial
  · exact hes.fits e he
  · trivial

theorem flatten {ess : List (List Event)} (h : ∀ es ∈ ess, Orderly es) : Orderly ess.flatten := by
  induction ess with
  | nil => exact nil
  | cons es ess ih =>
    rw [List.forall_mem_cons] at h
    exact h.1.append (ih h.2)

end Orderly

variable {d : Dtd}

theorem thrifty_ofTag (d : Dtd) (name : String) (attributes : List (String × List Char)) :
    Thrifty Orderly (ofTag d name attributes) := by
  refine .bind (.mapM (Q := fun _ => True) fun a _ => d.general.thrifty_expand a.2) fun values _ => ?_
  exact .pure ((Orderly.remarks _).append (.single trivial (by simp) (by simp)))

theorem thrifty_ofPiecesWith {nested : List Char → Thrift (List Event)} {pieces : List Piece}
    (hd : d.general.Fit) (hpieces : ∀ p ∈ pieces, p.Fits)
    (hnested : ∀ s, Chars s → Thrifty Orderly (nested s)) :
    Thrifty Orderly (ofPiecesWith d nested pieces) := by
  refine .bind (.mapM fun p hp => ?_) fun each heach => .pure (Orderly.flatten heach)
  have hfits := hpieces p hp
  cases p with
  | opening name attributes isEmpty =>
    refine (thrifty_ofTag d name attributes).bind fun es hes => .pure (hes.append ?_)
    split
    · exact .single trivial (by simp) (by simp)
    · exact .nil
  | closing name => exact .pure (.single trivial (by simp) (by simp))
  | text s => exact .pure (.single hfits (by simp) (by simp))
  | coded c =>
    have hc : isChar c = true := hfits
    exact .pure (.single (by simpa [Fits, Chars] using hc) (by simp) (by simp))
  | verbatim s => exact .pure (.single hfits (by simp) (by simp))
  | comment => exact .pure (.single trivial (by simp) (by simp))
  | instruction target =>
    exact .pure ((Orderly.remarks _).append (.single trivial (by simp) (by simp)))
  | reference name =>
    refine .bind (.lift fun r hr => hr) fun referent hreferent => ?_
    cases referent with
    | character c =>
      have hc := Entities.isChar_of_referent? hreferent
      exact .pure (.single (by simpa [Fits, Chars] using hc) (by simp) (by simp))
    | text s =>
      have hs := Entities.chars_of_referent? hd hreferent
      exact .bind (.pay s) fun _ _ => (hnested s hs).bind fun es hes => .pure hes.enclosed
    | unknown =>
      exact .pure ((Orderly.remarks [.error]).append (.single trivial (by simp) (by simp)))

theorem thrifty_ofContentWithin (hd : d.general.Fit) (depth : Nat) {s : List Char} (hs : Chars s) :
    Thrifty Orderly (ofContentWithin d depth s) := by
  have hpieces : Thrifty (fun ps => ∀ p ∈ ps, p.Fits) (liftM (Piece.ofContent s)) :=
    .lift fun _ => Piece.fits_of_ofContent hs
  induction depth generalizing s with
  | zero => exact hpieces.bind fun ps hps => thrifty_ofPiecesWith hd hps fun _ _ => .fails
  | succ depth ih =>
    -- the text of an entity is content in its turn, one level deeper
    refine hpieces.bind fun ps hps => thrifty_ofPiecesWith hd hps fun t ht => ?_
    exact ih ht.unifyLineEnds (.lift fun _ => Piece.fits_of_ofContent ht.unifyLineEnds)

end Event

end NetconfWire.Xml
