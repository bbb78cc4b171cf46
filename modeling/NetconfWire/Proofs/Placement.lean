/-
The place of content in a tree.

What a level holds has no say in what becomes of the levels: further events are taken or
refused alike, and what they add stands behind it.  So the tree that is built in the end
has a place for the nodes of the level, with what surrounds them on all sides:

* `Growth.step_held`, `Growth.run_held` — events inside of a level;
* `Growth.exists_plug` — the tree around a level;
* `Growth.named_of_run` — outside of the texts of entities all levels are elements;
* `Document.exists_plug` — the tree of a document, with and without a comment.
-/
import NetconfWire.Proofs.Insertion

namespace NetconfWire.Xml

/-! ### Frames -/

/-- An element with a place among its children. -/
structure Frame where
  tag : Tag
  before : List Node
  after : List Node

namespace Frame

/-- The element with nodes at the place. -/
def around (f : Frame) (inner : List Node) : Element :=
  ⟨f.tag, f.before ++ inner ++ f.after⟩

/-- The frame shows how the element of the level began. -/
def Begins (f : Frame) (level : Level) : Prop :=
  f.tag = level.tag ∧ f.before = level.content.reverse

end Frame

/-- The root with nodes at the place in its innermost frame; the other frames lie around that, each
with the next inner one at its place. -/
def plug : Frame → List Frame → List Node → Element
  | f, [], inner => f.around inner
  | f, outer :: more, inner => plug outer more [(f.around inner).node]

namespace Growth

/-! ### Inside of a level -/

section Held

variable {top : Level} {outer inner : List Level} {root : Option Element} {added nodes : List Node}
  {last : Option Remark} {e : Event} {es : List Event} {g' : Growth} {result : Element}

/-- A tree in the making whose level `top` holds some nodes more and, behind them, what was added. -/
def held (top : Level) (outer : List Level) (root : Option Element) (inner : List Level)
    (added : List Node) (last : Option Remark) (nodes : List Node) : Growth :=
  ⟨inner ++ { top with content := added ++ (nodes.reverse ++ top.content) } :: outer, root, last⟩

theorem add_held (top : Level) (outer : List Level) (root : Option Element) (inner : List Level)
    (added : List Node) (last : Option Remark) (n : Node) :
    ∃ inner' added', ∀ nodes, (held top outer root inner added last nodes).add? n
      = some (held top outer root inner' added' last nodes) := by
  cases inner with
  | nil => exact ⟨[], n :: added, fun _ => rfl⟩
  | cons level inner => exact ⟨{ level with content := n :: level.content } :: inner, added, fun _ => rfl⟩

/-- An event inside of a level is taken whatever the level holds. -/
theorem step_held (hname : top.name ≠ none) (hinside : inner = [] → ∀ n, e ≠ .closing n)
    (h : (held top outer root inner added last nodes).step e = some g') :
    ∃ inner' added' last', ∀ nodes', (held top outer root inner added last nodes').step e
      = some (held top outer root inner' added' last' nodes') := by
  have hlevels : ∀ nodes', (held top outer root inner added last nodes').levels.isEmpty = false := by
    intro nodes'
    cases inner <;> rfl
  have hlength : ∀ nodes', (held top outer root inner added last nodes').levels.length
      = (held top outer root inner added last nodes).levels.length := by
    intro nodes'
    simp [held]
  have hadd : ∀ n, ∃ inner' added' last', ∀ nodes', (held top outer root inner added last nodes').add? n
      = some (held top outer root inner' added' last' nodes') := by
    intro n
    obtain ⟨inner', added', hadded⟩ := add_held top outer root inner added last n
    exact ⟨inner', added', last, hadded⟩
  cases e with
  | opening name attributes =>
    rw [step, open?] at h
    split at h
    · cases h
    next hdepth =>
    split at h
    · cases h
    obtain ⟨b, hb, -⟩ := Option.map_eq_some_iff.mp h
    refine ⟨⟨some name, b.tag, b.scope, []⟩ :: inner, added, Remark.lastOf last b.remarks,
      fun nodes' => ?_⟩
    rw [step, open?, if_neg (by rwa [hlength nodes']), if_neg (by simp [hlevels])]
    -- the scope is that of the innermost level, whose content does not matter
    cases inner with
    | nil => exact Option.map_eq_some_iff.mpr ⟨b, hb, rfl⟩
    | cons level inner => exact Option.map_eq_some_iff.mpr ⟨b, hb, rfl⟩
  | closing name =>
    cases inner with
    | nil => exact absurd rfl (hinside rfl name)
    | cons level inner =>
      have hclose : ∀ nodes', (held top outer root (level :: inner) added last nodes').close? name
          = if level.name = some name then
              (held top outer root inner added last nodes').add? (.element level.tag level.content.reverse)
            else none := by
        intro nodes'
        cases inner <;> rfl
      rw [step, hclose] at h
      split at h
      · next hsame =>
        obtain ⟨inner', added', hadded⟩ := add_held top outer root inner added last
          (.element level.tag level.content.reverse)
        refine ⟨inner', added', last, fun nodes' => ?_⟩
        rw [step, hclose, if_pos hsame, hadded]
      · cases h
  | text s written =>
    simp only [step, hlevels]
    exact hadd _
  | aside =>
    simp only [step, hlevels]
    exact hadd _
  | unknown => exact hadd _
  | enter =>
    simp only [step, hlevels]
    exact ⟨⟨none, ⟨none, ""⟩, [], []⟩ :: inner, added, last, fun _ => rfl⟩
  | leave =>
    rw [step, leave?] at h
    split at h
    · next ended next rest hsplit =>
      split at h
      · next hnone =>
        cases inner with
        | nil =>
          cases hsplit
          exact absurd (Option.isNone_iff_eq_none.mp hnone) hname
        | cons level inner =>
          obtain ⟨rfl, -⟩ := List.cons.inj hsplit
          cases inner with
          | nil =>
            refine ⟨[], level.content ++ added, last, fun nodes' => ?_⟩
            simp [step, leave?, held, hnone]
          | cons next inner =>
            refine ⟨{ next with content := level.content ++ next.content } :: inner, added, last,
              fun nodes' => ?_⟩
            simp [step, leave?, held, hnone]
      · cases h
    · cases h
  | remark r => exact ⟨inner, added, some r, fun _ => rfl⟩

/-- A tree in the making in which an element has just ended. -/
def ended (outer : List Level) (root : Option Element) (last : Option Remark) (e : Element) : Growth :=
  match outer with
  | [] => ⟨[], some e, last⟩
  | next :: more => held next more root [] [] last [e.node]

theorem step_closing {n : String} (hn : top.name = some n) (nodes : List Node) :
    step (held top outer root [] added last nodes) (.closing n) = some (ended outer root last
      ((⟨top.tag, top.content.reverse, added.reverse⟩ : Frame).around nodes)) := by
  have hchildren : (added ++ (nodes.reverse ++ top.content)).reverse
      = top.content.reverse ++ nodes ++ added.reverse := by
    simp
  rw [Frame.around, ← hchildren]
  cases outer with
  | nil => exact if_pos hn
  | cons next more => exact if_pos hn

/-- If the tree is built in the end, the element of the level ends, and the events go on. -/
theorem run_held (hname : top.name ≠ none)
    (h : (es.foldlM step (held top outer root inner added last nodes)).bind finish = some result) :
    ∃ (f : Frame) (last' : Option Remark) (es' : List Event), f.Begins top ∧
      ∀ nodes', es.foldlM step (held top outer root inner added last nodes')
        = es'.foldlM step (ended outer root last' (f.around nodes')) := by
  -- the events are taken as inside of the level until one of them ends it
  induction es generalizing inner added last with
  | nil =>
    obtain ⟨g, hg, hfinish⟩ := Option.bind_eq_some_iff.mp h
    cases hg
    rw [finish, if_neg (by cases inner <;> simp [held])] at hfinish
    cases hfinish
  | cons e es ih =>
    obtain ⟨g, hg, hfinish⟩ := Option.bind_eq_some_iff.mp h
    rw [List.foldlM_cons] at hg
    obtain ⟨g₁, hstep, hrest⟩ := Option.bind_eq_some_iff.mp hg
    by_cases hinside : inner = [] → ∀ n, e ≠ .closing n
    · obtain ⟨inner', added', last', hheld⟩ := step_held hname hinside hstep
      have hg₁ := hstep.symm.trans (hheld nodes)
      cases hg₁
      obtain ⟨f, last₂, es', hf, hrun⟩ := ih (Option.bind_eq_some_iff.mpr ⟨g, hrest, hfinish⟩)
      refine ⟨f, last₂, es', hf, fun nodes' => ?_⟩
      rw [List.foldlM_cons, hheld nodes']
      exact hrun nodes'
    · -- the event ends the level itself
      obtain ⟨rfl, n, rfl⟩ : inner = [] ∧ ∃ n, e = .closing n := by simpa using hinside
      have hn : top.name = some n := by
        by_contra hother
        rw [step, close?] at hstep
        dsimp only [held, List.nil_append] at hstep
        rw [if_neg hother] at hstep
        cases hstep
      refine ⟨⟨top.tag, top.content.reverse, added.reverse⟩, last, es, ⟨rfl, rfl⟩, fun nodes' => ?_⟩
      rw [List.foldlM_cons, step_closing hn]
      rfl

end Held

/-! ### The tree around a level -/

/-- Behind the root nothing is added to it. -/
theorem run_behind {e e' result : Element} {last : Option Remark} {es : List Event}
    (h : (es.foldlM step ⟨[], some e, last⟩).bind finish = some result) :
    (es.foldlM step ⟨[], some e', last⟩).bind finish = some e' := by
  induction es generalizing last with
  | nil =>
    change finish _ = _ at h
    change finish _ = _
    rw [finish] at h ⊢
    split at h
    · next hdone => rw [if_pos hdone]
    · cases h
  | cons event es ih =>
    obtain ⟨g, hg, hfinish⟩ := Option.bind_eq_some_iff.mp h
    rw [List.foldlM_cons] at hg ⊢
    obtain ⟨g₁, hstep, hrest⟩ := Option.bind_eq_some_iff.mp hg
    -- the event is taken without the level that most events need
    obtain ⟨last', hlast⟩ : ∃ last', ∀ e, step ⟨[], some e, last⟩ event = some ⟨[], some e, last'⟩ := by
      cases event with
      | text s written =>
        simp only [step, List.isEmpty_nil, if_true] at hstep ⊢
        split at hstep
        · next hblank => exact ⟨last, fun _ => if_pos hblank⟩
        · cases hstep
      | aside => exact ⟨last, fun _ => rfl⟩
      | remark r => exact ⟨some r, fun _ => rfl⟩
      | opening name attributes => cases hstep
      | _ => cases hstep
    rw [hlast] at hstep ⊢
    cases hstep
    exact ih (Option.bind_eq_some_iff.mpr ⟨g, hrest, hfinish⟩)

/-- The tree that is built in the end has a place for the nodes of the innermost level. -/
theorem exists_plug {top : Level} {outer : List Level} {root : Option Element} {last : Option Remark}
    {es : List Event} {nodes : List Node} {result : Element}
    (hnames : ∀ level ∈ top :: outer, level.name ≠ none)
    (h : (es.foldlM step (held top outer root [] [] last nodes)).bind finish = some result) :
    ∃ f fs, List.Forall₂ Frame.Begins (f :: fs) (top :: outer) ∧ ∀ nodes,
      (es.foldlM step (held top outer root [] [] last nodes)).bind finish = some (plug f fs nodes) := by
  -- outwards from the level, with what ends at each level as the node that the next one holds
  induction outer generalizing top last es nodes with
  | nil =>
    obtain ⟨f, last', es', hf, hrun⟩ := run_held (hnames top List.mem_cons_self) h
    rw [hrun] at h
    refine ⟨f, [], .cons hf .nil, fun nodes' => ?_⟩
    rw [hrun]
    exact run_behind h
  | cons next more ih =>
    obtain ⟨f, last', es', hf, hrun⟩ := run_held (hnames top List.mem_cons_self) h
    rw [hrun] at h
    obtain ⟨f', fs, hbegins, hplug⟩ := ih (fun l hl => hnames l (List.mem_cons_of_mem _ hl)) h
    refine ⟨f, f' :: fs, .cons hf hbegins, fun nodes' => ?_⟩
    rw [hrun]
    exact hplug _

/-! ### Levels outside of the texts of entities -/

/-- The number of levels that are texts of entities. -/
def entityLevels (g : Growth) : Nat :=
  g.levels.countP (·.name.isNone)

theorem entityLevels_add {g g' : Growth} {n : Node} (h : g.add? n = some g') :
    g'.entityLevels = g.entityLevels := by
  rw [add?] at h
  split at h
  · cases h
  · next top rest hlevels =>
    cases h
    simp [entityLevels, hlevels, List.countP_cons]

theorem entityLevels_open {g g' : Growth} {name : String} {attributes : List Attribute}
    (h : g.open? name attributes = some g') : g'.entityLevels = g.entityLevels := by
  rw [open?] at h
  split at h
  · cases h
  split at h
  · cases h
  obtain ⟨b, -, heq⟩ := Option.map_eq_some_iff.mp h
  cases heq
  exact List.countP_cons_of_neg (by simp)

theorem entityLevels_close {g g' : Growth} {name : String} (h : g.close? name = some g') :
    g'.entityLevels = g.entityLevels := by
  rw [close?] at h
  split at h
  · cases h
  next top rest hlevels =>
  split at h
  · next hname =>
    have hrest : g.entityLevels = rest.countP (·.name.isNone) := by
      rw [entityLevels, hlevels, List.countP_cons_of_neg (by simp [hname])]
    dsimp only at h
    split at h
    · cases h
      exact hrest.symm
    · exact (entityLevels_add h).trans hrest.symm
  · cases h

theorem entityLevels_leave {g g' : Growth} (h : g.leave? = some g') :
    g'.entityLevels + 1 = g.entityLevels := by
  rw [leave?] at h
  split at h
  · next top next rest hlevels =>
    split at h
    · next hname =>
      cases h
      simp only [entityLevels, hlevels, List.countP_cons, hname, if_true]
    · cases h
  · cases h

/-- The texts of entities are entered and left as levels. -/
theorem entityLevels_step {g g' : Growth} {e : Event} (h : g.step e = some g') :
    g'.entityLevels + [e].count .leave = g.entityLevels + [e].count .enter := by
  cases e with
  | opening name attributes => exact entityLevels_open h
  | closing name => exact entityLevels_close h
  | text s written =>
    rw [step] at h
    split at h
    · split at h <;> cases h
      rfl
    · exact entityLevels_add h
  | aside =>
    rw [step] at h
    split at h
    · cases h
      rfl
    · exact entityLevels_add h
  | unknown => exact entityLevels_add h
  | enter =>
    rw [step] at h
    split at h
    · cases h
    · cases h
      simp [entityLevels]
  | leave => exact entityLevels_leave h
  | remark r =>
    cases h
    rfl

theorem entityLevels_run {g g' : Growth} {es : List Event} (h : es.foldlM step g = some g') :
    g'.entityLevels + es.count .leave = g.entityLevels + es.count .enter := by
  induction es generalizing g with
  | nil =>
    cases h
    rfl
  | cons e es ih =>
    rw [List.foldlM_cons] at h
    obtain ⟨g₁, hstep, hrest⟩ := Option.bind_eq_some_iff.mp h
    have hone := entityLevels_step hstep
    have hmore := ih hrest
    rw [← List.singleton_append, List.count_append, List.count_append]
    omega

/-- Outside of the texts of entities all levels are elements. -/
theorem named_of_run {remarks : List Remark} {g : Growth} {es : List Event} (hes : Event.Orderly es)
    (h : es.foldlM step (start remarks) = some g) : ∀ level ∈ g.levels, level.name ≠ none := by
  have hcount := entityLevels_run h
  have hnone : (start remarks).entityLevels = 0 := rfl
  rw [hes.balanced, hnone, Nat.zero_add, Nat.add_eq_right, entityLevels, List.countP_eq_zero] at hcount
  -- a level without a name would count
  intro level hlevel hname
  exact hcount level hlevel (by rw [hname]; rfl)

/-! ### Nodes that are added -/

/-- The events add the nodes to the innermost level, whatever else there is. -/
def Adds (es : List Event) (nodes : List Node) : Prop :=
  ∀ (top : Level) (outer : List Level) (root : Option Element) (last : Option Remark),
    es.foldlM step ⟨top :: outer, root, last⟩ = some (held top outer root [] [] last nodes)

namespace Adds

variable {es fs : List Event} {nodes more : List Node}

theorem append (hes : Adds es nodes) (hfs : Adds fs more) : Adds (es ++ fs) (nodes ++ more) := by
  intro top outer root last
  have hmore := hfs { top with content := nodes.reverse ++ top.content } outer root last
  rw [held, List.nil_append, List.nil_append, ← List.append_assoc, ← List.reverse_append] at hmore
  rw [List.foldlM_append, hes]
  exact hmore

theorem texts (ss : List (List Char)) : Adds (Event.texts ss) (ss.map .text) := by
  induction ss with
  | nil => exact fun _ _ _ _ => rfl
  | cons s ss ih =>
    have hone : Adds [.text s true] [.text s] := fun _ _ _ _ => rfl
    exact hone.append ih

theorem aside : Adds [.aside] [.aside] :=
  fun _ _ _ _ => rfl

end Adds

end Growth

namespace Document

variable {a b : List Char} {root : Element}

/-- **The tree of a document has a place for a comment**, which is the end of the innermost level that
the tree had there; the text around the place is parted. -/
theorem exists_plug (hroot : ofChars (a ++ b) = some root) (hsplit : Splits a b) :
    ∃ g, Reaches a b g ∧ ∀ body, Comment.Allowed body → g.levels ≠ [] →
      ∃ (f : Frame) (fs : List Frame) (mine whole more : List (List Char)),
        List.Forall₂ Frame.Begins ({ f with before := f.before ++ mine.map .text } :: fs) g.levels ∧
        mine.flatten <+: whole.flatten ∧ root = plug f fs (whole.map .text) ∧
        ofChars (a ++ Comment.written body ++ b)
          = some (plug f fs (mine.map .text ++ .aside :: more.map .text)) := by
  obtain ⟨remarks, before, after, mine, whole, horderly, hpart, hroot, hreach⟩ :=
    interrupt hroot hsplit
  have hrun := hroot
  rw [Element.ofEvents, List.append_assoc, List.foldlM_append] at hrun
  obtain ⟨_, hrun, -⟩ := Option.bind_eq_some_iff.mp hrun
  obtain ⟨⟨levels, built, last⟩, hbefore, hrun⟩ := Option.bind_eq_some_iff.mp hrun
  have hmine : ∀ {g}, (Event.texts mine).foldlM Growth.step ⟨levels, built, last⟩ = some g →
      (before ++ Event.texts mine).foldlM Growth.step (Growth.start remarks) = some g := by
    intro g hg
    rw [List.foldlM_append, hbefore]
    exact hg
  cases levels with
  | nil =>
    -- outside of the root the text is blank, and so is its beginning
    rw [List.foldlM_append] at hrun
    obtain ⟨_, hwhole, -⟩ := Option.bind_eq_some_iff.mp hrun
    rw [Growth.run_texts_outside rfl] at hwhole
    split at hwhole
    · next hblank =>
      have hblank' : mine.flatten.all isBlank = true :=
        List.all_eq_true.mpr fun c hc => List.all_eq_true.mp hblank c (hpart.subset hc)
      have hnothing := Growth.run_texts_outside (g := ⟨[], built, last⟩) rfl mine
      rw [if_pos hblank'] at hnothing
      exact ⟨_, (hreach _ (hmine hnothing)).1, fun _ _ hin => absurd rfl hin⟩
    · cases hwhole
  | cons top outer =>
    obtain ⟨hreaches, hnew⟩ := hreach _ (hmine (Growth.Adds.texts mine top outer built last))
    refine ⟨_, hreaches, fun body hbody hin => ?_⟩
    -- the events behind the place find the level with some nodes or others added to it
    have hadds : ∀ {es nodes}, Growth.Adds es nodes → Element.ofEvents remarks (before ++ es ++ after)
        = (after.foldlM Growth.step (Growth.held top outer built [] [] last nodes)).bind
            Growth.finish := by
      intro es nodes hadds
      rw [Element.ofEvents, List.append_assoc, List.foldlM_append, hbefore]
      show Option.bind ((es ++ after).foldlM Growth.step _) _ = _
      rw [List.foldlM_append, hadds]
      rfl
    rw [hadds (.texts whole)] at hroot
    obtain ⟨f, fs, hbegins, hplug⟩ := Growth.exists_plug (Growth.named_of_run horderly hbefore) hroot
    obtain ⟨more, hnew⟩ := hnew body hbody hin
    refine ⟨f, fs, mine, whole, more, ?_, hpart, ?_, hnew _ ?_⟩
    · obtain _ | ⟨⟨htag, hcontent⟩, hrest⟩ := hbegins
      refine .cons ⟨htag, ?_⟩ hrest
      simp [hcontent]
    · exact Option.some.inj (hroot.symm.trans (hplug _))
    · have hparted := hadds ((Growth.Adds.texts mine).append (Growth.Adds.aside.append (.texts more)))
      rw [hplug] at hparted
      simpa using hparted

end Document

end NetconfWire.Xml
