/-
What the reader of an introduction looks at.

The reader looks at the texts of capabilities and at the text of the first session id.
The text of an element is what stands before anything else in it, so that from outside of
the element around it nothing is seen of an element but its name and its text:

* `Hello.ofElement_congr` — what is looked at decides the message;
* `Hello.Resembles` — elements that look alike from outside of the element around them;
* `Hello.ofElement_plug` — text is parted by a comment somewhere in a tree;
* `Hello.ofElement_plug_capability`, `Hello.ofElement_plug_sessionId` — the same where the
  text is looked at.
-/
import NetconfWire.Proofs.Copies
import NetconfWire.Proofs.Placement

namespace NetconfWire

namespace Xml

/-! ### Nodes -/

section Nodes

variable {tag : Tag} {xs ys : List Node}

/-- The elements of a name among the nodes. -/
def among (tag : Tag) (nodes : List Node) : List Element :=
  (⟨tag, nodes⟩ : Element).below tag

theorem below_eq_among (e : Element) (tag : Tag) : e.below tag = among tag e.children :=
  rfl

@[simp]
theorem among_append : among tag (xs ++ ys) = among tag xs ++ among tag ys :=
  List.filterMap_append

@[simp]
theorem among_texts (ss : List (List Char)) : among tag (ss.map .text) = [] := by
  induction ss with
  | nil => rfl
  | cons s ss ih => exact ih

@[simp]
theorem among_aside : among tag (.aside :: xs) = among tag xs := by
  rw [among, Element.below, List.filterMap_cons_none rfl]
  rfl

theorem among_node (e : Element) : among tag [e.node] = if e.tag = tag then [e] else [] := by
  obtain ⟨t, children⟩ := e
  by_cases h : t = tag
  · simp [among, Element.below, Element.node, h]
  · simp [among, Element.below, Element.node, h]

/-- The text that stands before anything else among the nodes. -/
def leading (nodes : List Node) : List Char :=
  (Element.leadingTexts nodes).flatten

theorem leading_texts_append (ss : List (List Char)) :
    leading (ss.map .text ++ xs) = ss.flatten ++ leading xs := by
  induction ss with
  | nil => rfl
  | cons s ss ih =>
    rw [List.flatten_cons, List.append_assoc, ← ih]
    rfl

@[simp]
theorem leading_aside : leading (.aside :: xs) = [] :=
  rfl

theorem leading_append_node (e : Element) : leading (xs ++ e.node :: ys) = leading xs := by
  induction xs with
  | nil => rfl
  | cons n xs ih =>
    cases n with
    | text s => exact congrArg (s ++ ·) ih
    | element => rfl
    | aside => rfl

/-- Behind anything else than text nothing is added to the text. -/
theorem leading_append_of_not (h : ¬ ∃ ss : List (List Char), xs = ss.map .text) :
    leading (xs ++ ys) = leading xs := by
  induction xs with
  | nil => exact absurd ⟨[], rfl⟩ h
  | cons n xs ih =>
    cases n with
    | text s =>
      refine congrArg (s ++ ·) (ih ?_)
      rintro ⟨ss, rfl⟩
      exact h ⟨s :: ss, rfl⟩
    | element => rfl
    | aside => rfl

end Nodes

end Xml

open Xml

namespace Hello

/-! ### What the reader looks at -/

section Looks

variable {root x y : Element} {f : Frame} {m : Hello} {d : Datum}

theorem trimmedText_eq (e : Element) : trimmedText e = Text.strip (leading e.children) := by
  rw [trimmedText, getD_text?]
  rfl

/-- The texts of the capabilities in the lists among the nodes. -/
def listed (nodes : List Node) : List (List Char) :=
  (among (baseTag "capabilities") nodes).flatMap fun e =>
    (e.below (baseTag "capability")).map trimmedText

@[simp]
theorem listed_append (xs ys : List Node) : listed (xs ++ ys) = listed xs ++ listed ys := by
  simp [listed]

theorem listed_node (e : Element) : listed [e.node] = if e.tag = baseTag "capabilities" then
    (e.below (baseTag "capability")).map trimmedText else [] := by
  rw [listed, among_node]
  split <;> simp

theorem advertised_eq (htag : root.tag = baseTag "hello") :
    advertised root = (listed root.children).map String.ofList := by
  rw [advertised, if_pos htag, listed, List.map_flatMap, List.map_flatMap]
  simp only [List.map_map]
  rfl

/-- The text of the session id that counts. -/
def idText? (nodes : List Node) : Option (List Char) :=
  (among (baseTag "session-id") nodes).head?.map trimmedText

theorem sessionIdOf_of_text {s : List Char} (h : idText? root.children = some s) :
    (∀ n, Numeral.ofText (String.ofList s) = .ok n → sessionIdOf root = .ok (.integer n)) ∧
      ∀ why, Numeral.ofText (String.ofList s) = .error why →
        ∃ text, sessionIdOf root = .error (.badSessionId text) := by
  obtain ⟨e, he, rfl⟩ := Option.map_eq_some_iff.mp h
  obtain ⟨es, hes⟩ := List.head?_eq_some_iff.mp he
  rw [← below_eq_among] at hes
  rw [sessionIdOf, hes]
  refine ⟨fun n hn => ?_, fun why hwhy => ⟨e.text?.map String.ofList, ?_⟩⟩
  · simp only [hn]
  · simp only [hwhy]

theorem sessionIdOf_of_none (h : idText? root.children = none) : sessionIdOf root = .ok .null := by
  have hnone : root.below (baseTag "session-id") = [] := by
    rw [below_eq_among]
    simpa [idText?] using h
  rw [sessionIdOf, hnone]

theorem ofElement_of_error {flaw : HelloFlaw} (htag : root.tag = baseTag "hello")
    (hsome : advertised root ≠ []) (hid : sessionIdOf root = .error flaw) :
    ofElement root = .error flaw := by
  have hfull : (advertised root).isEmpty = false := by simpa using hsome
  rw [ofElement, if_neg (by simp [htag])]
  simp [hfull, hid, bind, Except.bind]

theorem sessionIdOf_congr (h : idText? x.children = idText? y.children)
    (hd : sessionIdOf x = .ok d) : sessionIdOf y = .ok d := by
  cases htext : idText? x.children with
  | none =>
    rw [sessionIdOf_of_none htext] at hd
    rw [sessionIdOf_of_none (h ▸ htext), hd]
  | some s =>
    cases hn : Numeral.ofText (String.ofList s) with
    | ok n =>
      rw [(sessionIdOf_of_text htext).1 n hn] at hd
      rw [(sessionIdOf_of_text (h ▸ htext)).1 n hn, hd]
    | error why =>
      obtain ⟨text, herror⟩ := (sessionIdOf_of_text htext).2 why hn
      rw [herror] at hd
      cases hd

/-- The capabilities that texts stand for. -/
def capabilitiesOf (texts : List (List Char)) : List Datum :=
  texts.map fun s => .text (String.ofList s)

theorem advertised_map (htag : root.tag = baseTag "hello") :
    (advertised root).map Datum.text = capabilitiesOf (listed root.children) := by
  rw [advertised_eq htag, List.map_map]
  rfl

/-- An element with the same text of the session id has the same session id. -/
theorem ofElement_of_idText? (htag : x.tag = y.tag) (hsome : listed y.children ≠ [])
    (hid : idText? x.children = idText? y.children) (h : ofElement x = .ok m) :
    m.capabilities = capabilitiesOf (listed x.children) ∧
      ofElement y = .ok ⟨capabilitiesOf (listed y.children), m.sessionId⟩ := by
  obtain ⟨hx, -, d, hd, rfl⟩ := ofElement_eq_ok_iff.mp h
  have hy : y.tag = baseTag "hello" := htag ▸ hx
  refine ⟨advertised_map hx, ofElement_eq_ok_iff.mpr ⟨hy, ?_, d, sessionIdOf_congr hid hd, ?_⟩⟩
  · simpa [advertised_eq hy] using hsome
  · rw [advertised_map hy]
    rfl

/-- Elements with the same capabilities and the same text of the session id are the same message. -/
theorem ofElement_congr (htag : x.tag = y.tag) (hlisted : listed x.children = listed y.children)
    (hid : idText? x.children = idText? y.children) (h : ofElement x = .ok m) :
    ofElement y = .ok m := by
  obtain ⟨hx, hsome, -⟩ := ofElement_eq_ok_iff.mp h
  have hsome : listed x.children ≠ [] := by simpa [advertised_eq hx] using hsome
  obtain ⟨hm, hy⟩ := ofElement_of_idText? htag (hlisted ▸ hsome) hid h
  rw [hy, ← hlisted, ← hm]

end Looks

/-! ### Elements that look alike from outside -/

/-- Elements that look alike to the reader of an element in which they stand. -/
structure Resembles (x y : Element) : Prop where
  tag : x.tag = y.tag
  text : trimmedText x = trimmedText y
  capabilities : (x.below (baseTag "capability")).map trimmedText
    = (y.below (baseTag "capability")).map trimmedText

section Resembles

variable {x y : Element} {f r : Frame} {m : Hello}

theorem trimmedText_around (f : Frame) (e : Element) :
    trimmedText (f.around [e.node]) = Text.strip (leading f.before) := by
  rw [trimmedText_eq, Frame.around, List.append_assoc, List.singleton_append, leading_append_node]

theorem below_around_node (f : Frame) (e : Element) (tag : Tag) : (f.around [e.node]).below tag
    = among tag f.before ++ among tag [e.node] ++ among tag f.after := by
  rw [below_eq_among, Frame.around, among_append, among_append]

/-- From farther outside, only the texts of capabilities are seen. -/
theorem Resembles.around (f : Frame) (htag : x.tag = y.tag)
    (htext : x.tag = baseTag "capability" → trimmedText x = trimmedText y) :
    Resembles (f.around [x.node]) (f.around [y.node]) where
  tag := rfl
  text := by rw [trimmedText_around, trimmedText_around]
  capabilities := by
    simp only [below_around_node, List.map_append, among_node, ← htag]
    split
    · next h => simp [htext h]
    · rfl

/-- A child of the root is exchanged. -/
theorem ofElement_around (htag : x.tag = y.tag)
    (hlist : x.tag = baseTag "capabilities" → (x.below (baseTag "capability")).map trimmedText
      = (y.below (baseTag "capability")).map trimmedText)
    (hid : x.tag = baseTag "session-id" → among (baseTag "session-id") r.before = [] →
      trimmedText x = trimmedText y)
    (h : ofElement (r.around [x.node]) = .ok m) : ofElement (r.around [y.node]) = .ok m := by
  refine ofElement_congr (x := r.around [x.node]) rfl ?_ ?_ h
  · simp only [Frame.around, listed_append, listed_node, ← htag]
    split
    · next hcaps => rw [hlist hcaps]
    · rfl
  · simp only [idText?, Frame.around, among_append, among_node, ← htag, List.append_assoc]
    cases hfirst : among (baseTag "session-id") r.before with
    | cons => rfl
    | nil =>
      split
      · next hsid => simp [hid hsid hfirst]
      · rfl

theorem ofElement_plug_of_resembles {fs : List Frame} (hxy : Resembles x y)
    (h : ofElement (plug r fs [x.node]) = .ok m) : ofElement (plug r fs [y.node]) = .ok m := by
  -- from the inside outwards: what stands around the two elements looks alike in turn
  induction fs generalizing r x y with
  | nil => exact ofElement_around hxy.tag (fun _ => hxy.capabilities) (fun _ _ => hxy.text) h
  | cons outer fs ih => exact ih (.around r hxy.tag fun _ => hxy.text) h

end Resembles

/-! ### Nodes deep in a tree -/

section Plug

variable {f r l : Frame} {fs : List Frame} {mine whole more : List (List Char)} {m : Hello}

theorem below_around (f : Frame) (tag : Tag) (ss : List (List Char)) :
    (f.around (ss.map .text)).below tag = among tag f.before ++ among tag f.after := by
  simp [below_eq_among, Frame.around]

theorem below_parted (f : Frame) (tag : Tag) (ss ts : List (List Char)) :
    (f.around (ss.map .text ++ .aside :: ts.map .text)).below tag
      = among tag f.before ++ among tag f.after := by
  simp [below_eq_among, Frame.around]

/-- The root may hold any text. -/
theorem ofElement_root (h : ofElement (f.around (whole.map .text)) = .ok m) :
    ofElement (f.around (mine.map .text ++ .aside :: more.map .text)) = .ok m := by
  refine ofElement_congr (x := f.around (whole.map .text)) rfl ?_ ?_ h
  · simp [listed, Frame.around]
  · simp [idText?, Frame.around]

/-- The frame begins with text, and with nothing else. -/
def OnlyText (f : Frame) : Prop :=
  ∃ ss : List (List Char), f.before = ss.map .text

/-- A comment makes no difference but in the text of a capability, or of the session id that
counts. -/
theorem ofElement_plug (hcapability : ∀ l r, OnlyText f → fs = [l, r] →
      f.tag = baseTag "capability" → l.tag ≠ baseTag "capabilities")
    (hid : ∀ r, OnlyText f → fs = [r] → f.tag = baseTag "session-id" →
      among (baseTag "session-id") r.before ≠ [])
    (h : ofElement (plug f fs (whole.map .text)) = .ok m) :
    ofElement (plug f fs (mine.map .text ++ .aside :: more.map .text)) = .ok m := by
  have hbelow : ∀ tag, (f.around (whole.map .text)).below tag
      = (f.around (mine.map .text ++ .aside :: more.map .text)).below tag := by
    intro tag
    rw [below_around, below_parted]
  by_cases htext : OnlyText f
  · match fs with
    | [] => exact ofElement_root h
    -- a child of the root: only the text of a session id is looked at
    | [r] =>
      refine ofElement_around (x := f.around (whole.map .text)) rfl (fun _ => by rw [hbelow]) ?_ h
      exact fun htag hfirst => absurd hfirst (hid r htext rfl htag)
    -- a grandchild of the root: only the text of a capability in a list is looked at
    | [l, r] =>
      refine ofElement_around (x := l.around [(f.around (whole.map .text)).node]) rfl ?_ ?_ h
      · intro hlist
        have htag : f.tag ≠ baseTag "capability" := fun htag => hcapability l r htext rfl htag hlist
        have hinner : ∀ nodes, among (baseTag "capability") [(f.around nodes).node] = [] := by
          intro nodes
          rw [among_node]
          exact if_neg htag
        rw [below_around_node, below_around_node, hinner, hinner]
      · intro _ _
        rw [trimmedText_around, trimmedText_around]
    | l :: k :: r :: fs =>
      -- the text is too deep in the tree to be seen
      have hsame : ∀ nodes nodes', Resembles (k.around [(l.around [(f.around nodes).node]).node])
          (k.around [(l.around [(f.around nodes').node]).node]) := by
        refine fun nodes nodes' => .around k rfl fun _ => ?_
        rw [trimmedText_around, trimmedText_around]
      exact ofElement_plug_of_resembles (r := r) (hsame _ _) h
  -- something else stands in front, so that the text is over before the place
  · have hsame : Resembles (f.around (whole.map .text))
        (f.around (mine.map .text ++ .aside :: more.map .text)) := by
      refine ⟨rfl, ?_, by rw [hbelow]⟩
      simp only [trimmedText_eq, Frame.around, List.append_assoc]
      rw [leading_append_of_not htext, leading_append_of_not htext]
    cases fs with
    | nil => exact ofElement_root h
    | cons r fs => exact ofElement_plug_of_resembles hsame h

/-- What the text of the frame is, with the comment and without it. -/
theorem trimmedText_parted {ss : List (List Char)} (hf : f.before = ss.map .text)
    (hpart : mine.flatten <+: whole.flatten) :
    ∃ behind, trimmedText (f.around (whole.map .text))
        = Text.strip ((ss ++ mine).flatten ++ behind) ∧
      trimmedText (f.around (mine.map .text ++ .aside :: more.map .text))
        = Text.strip (ss ++ mine).flatten := by
  obtain ⟨behind, hwhole⟩ := hpart
  refine ⟨behind ++ leading f.after, ?_, ?_⟩
  · rw [trimmedText_eq, Frame.around, hf, List.append_assoc, leading_texts_append,
      leading_texts_append, ← hwhole, List.flatten_append]
    simp
  · rw [trimmedText_eq, Frame.around, hf, List.append_assoc, List.append_assoc, leading_texts_append,
      leading_texts_append, List.cons_append, leading_aside, List.flatten_append, List.append_nil]

/-- The texts of the capabilities that stand before a place in a list of capabilities. -/
def listedBefore (root list : List Node) : List (List Char) :=
  listed root ++ (among (baseTag "capability") list).map trimmedText

/-- In a capability, the comment cuts off the text behind it. -/
theorem ofElement_plug_capability (nodes nodes' : List Node) (hf : f.tag = baseTag "capability")
    (hl : l.tag = baseTag "capabilities") (h : ofElement (plug f [l, r] nodes) = .ok m) :
    ∃ after, m.capabilities
        = capabilitiesOf (listedBefore r.before l.before ++ trimmedText (f.around nodes) :: after) ∧
      ofElement (plug f [l, r] nodes') = .ok ⟨capabilitiesOf
        (listedBefore r.before l.before ++ trimmedText (f.around nodes') :: after), m.sessionId⟩ := by
  have hlisted : ∀ nodes, listed (plug f [l, r] nodes).children
      = listedBefore r.before l.before ++ trimmedText (f.around nodes)
        :: ((among (baseTag "capability") l.after).map trimmedText ++ listed r.after) := by
    intro nodes
    have hcapability : (f.around nodes).tag = baseTag "capability" := hf
    have hlist : (l.around [(f.around nodes).node]).tag = baseTag "capabilities" := hl
    rw [plug, plug, plug, Frame.around, listed_append, listed_append, listed_node, if_pos hlist,
      below_around_node, among_node, if_pos hcapability, listedBefore]
    simp
  have hid : ∀ nodes, idText? (plug f [l, r] nodes).children
      = (among (baseTag "session-id") r.before ++ among (baseTag "session-id") r.after).head?.map
          trimmedText := by
    intro nodes
    have hnames : baseTag "capabilities" ≠ baseTag "session-id" := by decide
    have hlist : (l.around [(f.around nodes).node]).tag ≠ baseTag "session-id" :=
      fun htag => hnames (hl.symm.trans htag)
    rw [plug, plug, plug, idText?, Frame.around, among_append, among_append, among_node, if_neg hlist,
      List.append_nil]
  have htag : ∀ nodes, (plug f [l, r] nodes).tag = r.tag := fun _ => rfl
  obtain ⟨hm, hout⟩ := ofElement_of_idText? ((htag nodes).trans (htag nodes').symm)
    (by simp [hlisted]) ((hid nodes).trans (hid nodes').symm) h
  rw [hlisted] at hm hout
  exact ⟨_, hm, hout⟩

/-- In the session id that counts, the comment cuts off the text behind it; what is left may be no
number. -/
theorem ofElement_plug_sessionId (nodes nodes' : List Node) (hf : f.tag = baseTag "session-id")
    (hr : among (baseTag "session-id") r.before = []) (h : ofElement (plug f [r] nodes) = .ok m) :
    (∃ n, Numeral.ofText (String.ofList (trimmedText (f.around nodes))) = .ok n ∧
        m = ofParts m.capabilities (.integer n)) ∧
      (∀ n, Numeral.ofText (String.ofList (trimmedText (f.around nodes'))) = .ok n →
        ofElement (plug f [r] nodes') = .ok (ofParts m.capabilities (.integer n))) ∧
      ∀ why, Numeral.ofText (String.ofList (trimmedText (f.around nodes'))) = .error why →
        ∃ text, ofElement (plug f [r] nodes') = .error (.badSessionId text) := by
  have hlisted : ∀ nodes, listed (plug f [r] nodes).children = listed r.before ++ listed r.after := by
    intro nodes
    have hnames : baseTag "session-id" ≠ baseTag "capabilities" := by decide
    have hid : (f.around nodes).tag ≠ baseTag "capabilities" :=
      fun htag => hnames (hf.symm.trans htag)
    rw [plug, plug, Frame.around, listed_append, listed_append, listed_node, if_neg hid,
      List.append_nil]
  have hid : ∀ nodes, idText? (plug f [r] nodes).children = some (trimmedText (f.around nodes)) := by
    intro nodes
    have hid : (f.around nodes).tag = baseTag "session-id" := hf
    rw [plug, plug, idText?, Frame.around, among_append, among_append, hr, among_node, if_pos hid]
    rfl
  obtain ⟨htag, hsome, d, hd, rfl⟩ := ofElement_eq_ok_iff.mp h
  have htag' : (plug f [r] nodes').tag = baseTag "hello" := htag
  have hsame : advertised (plug f [r] nodes) = advertised (plug f [r] nodes') := by
    rw [advertised_eq htag, advertised_eq htag', hlisted, hlisted]
  rw [hsame] at hsome ⊢
  obtain ⟨n, hn⟩ : ∃ n, Numeral.ofText (String.ofList (trimmedText (f.around nodes))) = .ok n := by
    cases hnumeral : Numeral.ofText (String.ofList (trimmedText (f.around nodes))) with
    | ok n => exact ⟨n, rfl⟩
    | error why =>
      obtain ⟨text, herror⟩ := (sessionIdOf_of_text (hid nodes)).2 why hnumeral
      rw [herror] at hd
      cases hd
  have hsession := (sessionIdOf_of_text (hid nodes)).1 n hn
  rw [hsession] at hd
  cases hd
  refine ⟨⟨n, hn, rfl⟩, fun k hk => ?_, fun why hwhy => ?_⟩
  · exact ofElement_of_hello htag' hsome ((sessionIdOf_of_text (hid nodes')).1 k hk)
  · obtain ⟨text, herror⟩ := (sessionIdOf_of_text (hid nodes')).2 why hwhy
    exact ⟨text, ofElement_of_error htag' hsome herror⟩

end Plug

end Hello

end NetconfWire
