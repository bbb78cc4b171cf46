/-
The trees of documents.

A document is read in three steps, and what holds of the texts that it consists of holds
of the texts of its tree: they are characters that a document may hold, since they stand
in the document or are given by codes that are checked.

* `Document.ofChars_eq_some_iff` — the steps of reading;
* `Event.orderly_of_ofContent` — the events of a document;
* `Growth.plain_of_run`, `Document.plain_of_ofChars` — the texts of its tree.
-/
import NetconfWire.Proofs.Subsets

namespace NetconfWire.Xml

/-! ### Documents that are read -/

namespace Event

variable {d : Dtd} {s : List Char} {es : List Event}

theorem fit_general (hd : d.Plain) : d.general.Fit :=
  hd.entities

theorem orderly_of_ofContent (hd : d.Plain) (hs : Chars s) (h : ofContent d s = some es) :
    Orderly es := by
  obtain ⟨⟨es', left⟩, hdone, heq⟩ := Option.map_eq_some_iff.mp h
  cases heq
  exact (thrifty_ofContentWithin (fit_general hd) maxNesting hs _ _ _ hdone).1

end Event

namespace Document

/-- A document is read in three steps: what lies before the content, the events of the content, and
the tree that they build. -/
theorem ofChars_eq_some_iff {s : List Char} {root : Element} :
    ofChars s = some root ↔ Chars s ∧ ∃ d content es,
      prolog (unifyLineEnds s).length (unifyLineEnds s) = some (d, content) ∧
      Event.ofContent d content = some es ∧ Element.ofEvents d.remarks es = some root := by
  rw [ofChars]
  constructor
  · intro h
    split at h
    · cases h
    next hall =>
    obtain ⟨⟨d, content⟩, hprolog, h⟩ := Option.bind_eq_some_iff.mp h
    obtain ⟨es, hes, hroot⟩ := Option.bind_eq_some_iff.mp h
    exact ⟨List.all_eq_true.mp (by simpa using hall), d, content, es, hprolog, hes, hroot⟩
  · rintro ⟨hs, d, content, es, hprolog, hes, hroot⟩
    have hall : s.all isChar = true := List.all_eq_true.mpr hs
    rw [if_neg (by simp [hall])]
    exact Option.bind_eq_some_iff.mpr
      ⟨_, hprolog, Option.bind_eq_some_iff.mpr ⟨es, hes, hroot⟩⟩

end Document

/-! ### Trees -/

/-- The texts below the node hold characters of documents only. -/
inductive Node.Plain : Node → Prop
  | element {tag : Tag} {children : List Node} :
    (∀ n ∈ children, n.Plain) → Plain (.element tag children)
  | text {s : List Char} : Chars s → Plain (.text s)
  | aside : Plain .aside

namespace Growth

/-- All the texts of a tree in the making hold characters of documents only. -/
structure Plain (g : Growth) : Prop where
  levels : ∀ level ∈ g.levels, ∀ n ∈ level.content, n.Plain
  root : ∀ e ∈ g.root, ∀ n ∈ e.children, n.Plain

variable {g g' : Growth}

theorem plain_start (remarks : List Remark) : (start remarks).Plain :=
  ⟨by simp [start], by simp [start]⟩

theorem Plain.add {n : Node} (hg : g.Plain) (hn : n.Plain) (h : g.add? n = some g') : g'.Plain := by
  rw [add?] at h
  split at h
  · cases h
  · next top rest hlevels =>
    cases h
    have hall := hg.levels
    rw [hlevels, List.forall_mem_cons] at hall
    exact ⟨List.forall_mem_cons.mpr ⟨List.forall_mem_cons.mpr ⟨hn, hall.1⟩, hall.2⟩, hg.root⟩

theorem Plain.open {name : String} {attributes : List Attribute} (hg : g.Plain)
    (h : g.open? name attributes = some g') : g'.Plain := by
  rw [open?] at h
  split at h
  · cases h
  split at h
  · cases h
  obtain ⟨b, -, heq⟩ := Option.map_eq_some_iff.mp h
  cases heq
  exact ⟨List.forall_mem_cons.mpr ⟨nofun, hg.levels⟩, hg.root⟩

theorem Plain.close {name : String} (hg : g.Plain) (h : g.close? name = some g') : g'.Plain := by
  rw [close?] at h
  split at h
  · cases h
  next top rest hlevels =>
  have hall := hg.levels
  rw [hlevels, List.forall_mem_cons] at hall
  have hnodes : ∀ n ∈ top.content.reverse, n.Plain := fun n hn => hall.1 n (List.mem_reverse.mp hn)
  split at h
  -- the element that ends is the root, or a node of the level around it
  · dsimp only at h
    split at h
    · cases h
      exact ⟨nofun, by rintro e ⟨⟩; exact hnodes⟩
    · have hrest : Plain { g with levels := rest } := ⟨hall.2, hg.root⟩
      exact hrest.add (.element hnodes) h
  · cases h

theorem Plain.leave (hg : g.Plain) (h : g.leave? = some g') : g'.Plain := by
  rw [leave?] at h
  split at h
  · next top next rest hlevels =>
    have hall := hg.levels
    rw [hlevels, List.forall_mem_cons, List.forall_mem_cons] at hall
    split at h
    · cases h
      exact ⟨List.forall_mem_cons.mpr ⟨List.forall_mem_append.mpr ⟨hall.1, hall.2.1⟩, hall.2.2⟩, hg.root⟩
    · cases h
  · cases h

theorem Plain.step {e : Event} (hg : g.Plain) (he : e.Fits) (h : g.step e = some g') : g'.Plain := by
  cases e with
  | opening name attributes => exact hg.open h
  | closing name => exact hg.close h
  | text s written =>
    rw [Growth.step] at h
    split at h
    · split at h <;> cases h
      exact hg
    · exact hg.add (.text he) h
  | aside =>
    rw [Growth.step] at h
    split at h
    · cases h
      exact hg
    · exact hg.add .aside h
  | unknown => exact hg.add .aside h
  | enter =>
    rw [Growth.step] at h
    split at h
    · cases h
    · cases h
      exact ⟨List.forall_mem_cons.mpr ⟨nofun, hg.levels⟩, hg.root⟩
  | leave => exact hg.leave h
  | remark r =>
    cases h
    exact ⟨hg.levels, hg.root⟩

theorem plain_of_run {es : List Event} (hg : g.Plain) (hes : ∀ e ∈ es, e.Fits)
    (h : es.foldlM step g = some g') : g'.Plain := by
  induction es generalizing g with
  | nil =>
    cases h
    exact hg
  | cons e es ih =>
    rw [List.foldlM_cons] at h
    obtain ⟨g₁, hstep, hrest⟩ := Option.bind_eq_some_iff.mp h
    rw [List.forall_mem_cons] at hes
    exact ih (hg.step hes.1 hstep) hes.2 hrest

end Growth

theorem Document.plain_of_ofChars {s : List Char} {root : Element} (h : ofChars s = some root) :
    ∀ n ∈ root.children, n.Plain := by
  obtain ⟨hs, d, content, es, hprolog, hes, hroot⟩ := ofChars_eq_some_iff.mp h
  obtain ⟨hd, w, hw, -⟩ := steady_prolog _ _ _ _ hs.unifyLineEnds hprolog
  have hcontent : Chars content := (steady_prolog _).chars_rest hs.unifyLineEnds hprolog
  have hfits := (Event.orderly_of_ofContent hd hcontent hes).fits
  obtain ⟨g, hrun, hfinish⟩ := Option.bind_eq_some_iff.mp hroot
  have hplain := Growth.plain_of_run (Growth.plain_start _) hfits hrun
  rw [Growth.finish] at hfinish
  split at hfinish
  · exact hplain.root root hfinish
  · cases hfinish

end NetconfWire.Xml
