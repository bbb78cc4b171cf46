/-
How an introduction is read back from its document.

An element that holds text comes back with it, and so does a row of such elements.  The
document of an introduction consists of nothing else, so that its root holds what was
written:

* `Hello.inside_additive` — what holds of the tags and texts of a document, and of texts
  one after another, holds of all that stands inside of its root;
* `Hello.ofOctets_document` — the root of a document;
* `Hello.read_document` — the message that is read from it, with the capabilities without
  the white space around them.
-/
import NetconfWire.Proofs.Documents
import NetconfWire.Proofs.Numerals

namespace NetconfWire

open Xml

/-! ### Elements that hold text -/

namespace Xml

/-- The node is an element of the given name that holds the text and nothing else. -/
def Node.Shows (tag : Tag) (node : Node) (s : List Char) : Prop :=
  ∃ texts : List (List Char), node = .element tag (texts.map .text) ∧ texts.flatten = s

theorem leadingTexts_map (texts : List (List Char)) :
    Element.leadingTexts (texts.map .text) = texts := by
  induction texts with
  | nil => rfl
  | cons s texts ih => rw [List.map_cons, Element.leadingTexts, ih]

/-- The elements of a name below an element that holds only such elements. -/
theorem below_of_shows {tag : Tag} {nodes : List Node} {ss : List (List Char)} (outer : Tag)
    (h : List.Forall₂ (Node.Shows tag) nodes ss) :
    ((⟨outer, nodes⟩ : Element).below tag).map Hello.trimmedText = ss.map Text.strip := by
  induction h with
  | nil => rfl
  | @cons node s nodes ss hnode h ih =>
    obtain ⟨texts, rfl, rfl⟩ := hnode
    have hbelow : (⟨outer, .element tag (texts.map .text) :: nodes⟩ : Element).below tag
        = ⟨tag, texts.map .text⟩ :: (⟨outer, nodes⟩ : Element).below tag := by
      simp [Element.below]
    have htext : Hello.trimmedText ⟨tag, texts.map .text⟩ = Text.strip texts.flatten := by
      rw [Hello.trimmedText, Element.text?]
      simp only [leadingTexts_map]
      cases texts <;> rfl
    rw [hbelow, List.map_cons, List.map_cons, htext, ih]

namespace Content

variable {scope : Scope} {depth : Nat} {name : String}

/-- An element that holds text comes back with it; one without anything holds the empty text. -/
theorem textElement (hname : isName name.toList = true)
    (hplain : splitName? name = some (none, name)) (held : Option (List Char)) :
    ∃ node, node.Shows ⟨scope.namespace? none, name⟩ (held.getD []) ∧
      Content scope (depth + 1) (textElement name held) [node] := by
  cases held with
  | none => exact ⟨_, ⟨[], rfl, rfl⟩, emptyElement hname hplain⟩
  | some s =>
    obtain ⟨texts, htexts, hcontent⟩ := @escape scope depth s
    exact ⟨_, ⟨texts, rfl, htexts⟩, hcontent.element hname hplain⟩

theorem opens_textElement (name : String) (held : Option (List Char)) (s : List Char) :
    Piece.Opens (Xml.textElement name held ++ s) := by
  cases held <;> simp [Xml.textElement, Piece.Opens]

theorem textElements (hname : isName name.toList = true)
    (hplain : splitName? name = some (none, name)) (each : List (Option (List Char))) :
    ∃ nodes, List.Forall₂ (Node.Shows ⟨scope.namespace? none, name⟩) nodes
        (each.map fun held => held.getD []) ∧
      Content scope (depth + 1) (each.flatMap (Xml.textElement name)) nodes := by
  induction each with
  | nil => exact ⟨[], .nil, nil⟩
  | cons held each ih =>
    obtain ⟨node, hnode, hfirst⟩ := @textElement scope depth name hname hplain held
    obtain ⟨nodes, hnodes, hmore⟩ := ih
    refine ⟨node :: nodes, .cons hnode hnodes, ?_⟩
    rw [List.flatMap_cons]
    refine hfirst.append hmore ?_
    -- the next element, if there is one, begins with its tag
    cases each with
    | nil => simp [Piece.Opens]
    | cons held each =>
      rw [List.flatMap_cons]
      exact opens_textElement _ _ _

end Content

/-! ### The characters that are written -/

theorem kept_escape {s : List Char} (h : ∀ c ∈ s, isChar c = true) : ∀ c ∈ escape s, Kept c := by
  intro c hc
  obtain ⟨d, hd, hc⟩ := List.mem_flatMap.mp hc
  rw [escapeChar] at hc
  split at hc
  · exact kept_of_all (by decide) c hc
  split at hc
  · exact kept_of_all (by decide) c hc
  split at hc
  · exact kept_of_all (by decide) c hc
  split at hc
  · exact kept_of_all (by decide) c hc
  · next hreturn =>
    rw [List.mem_singleton.mp hc]
    exact ⟨h d hd, by simpa using hreturn⟩

/-- A property that texts one after another have if each of them has it. -/
structure Additive (P : List Char → Prop) : Prop where
  nil : P []
  append : ∀ {s t}, P s → P t → P (s ++ t)

theorem additive_kept : Additive fun s => ∀ c ∈ s, Kept c where
  nil := by simp
  append hs ht := List.forall_mem_append.mpr ⟨hs, ht⟩

/-- The tags with which an element of the name is written. -/
def tagsOf (name : String) : List String :=
  ["<" ++ name ++ ">", "</" ++ name ++ ">", "<" ++ name ++ "/>"]

namespace Additive

variable {P : List Char → Prop} (hP : Additive P) {name : String}
include hP

theorem flatMap {α : Type} {write : α → List Char} {each : List α} (h : ∀ a ∈ each, P (write a)) :
    P (each.flatMap write) := by
  induction each with
  | nil => exact hP.nil
  | cons a each ih =>
    rw [List.flatMap_cons]
    exact hP.append (h a List.mem_cons_self) (ih fun a' ha' => h a' (List.mem_cons_of_mem _ ha'))

theorem wrapped {s : List Char} (htags : ∀ tag ∈ tagsOf name, P tag.toList) (hs : P s) :
    P (wrapped name s) :=
  hP.append (hP.append (htags _ (by simp [tagsOf])) hs) (htags _ (by simp [tagsOf]))

theorem textElement {held : Option (List Char)} (htags : ∀ tag ∈ tagsOf name, P tag.toList)
    (h : ∀ s ∈ held, P (escape s)) : P (textElement name held) := by
  cases held with
  | none => exact htags _ (by simp [tagsOf])
  | some s => exact hP.wrapped htags (h s rfl)

end Additive

end Xml

/-! ### The document of a message -/

namespace Hello

variable {capabilities : List (Option (List Char))} {sessionId : Option (List Char)}

/-- What stands inside of the root of a document. -/
def inside (capabilities : List (Option (List Char))) (sessionId : Option (List Char)) : List Char :=
  wrapped "capabilities" (capabilities.flatMap (textElement "capability"))
    ++ (sessionId.toList.map some).flatMap (textElement "session-id")

theorem document_eq (capabilities : List (Option (List Char))) (sessionId : Option (List Char)) :
    document capabilities sessionId
      = declaration ++ (helloTag ++ inside capabilities sessionId ++ "</hello>".toList) := by
  have hopening : ("<hello xmlns=\"" ++ baseNamespace ++ "\"><capabilities>").toList
      = helloTag ++ ("<" ++ "capabilities" ++ ">").toList := by
    simp [helloTag]
  have hclosing : "</capabilities>".toList = ("</" ++ "capabilities" ++ ">").toList := by
    simp
  have hid : document capabilities sessionId
      = declaration ++ ("<hello xmlns=\"" ++ baseNamespace ++ "\"><capabilities>").toList
        ++ capabilities.flatMap (textElement "capability") ++ "</capabilities>".toList
        ++ (sessionId.toList.map some).flatMap (textElement "session-id") ++ "</hello>".toList := by
    cases sessionId <;> simp only [document, Option.toList_none, Option.toList_some, List.map_nil,
      List.map_singleton, List.flatMap_nil, List.flatMap_singleton]
  rw [hid, hopening, hclosing, inside, wrapped]
  simp only [List.append_assoc]

/-- The tags inside of the root of a document. -/
def innerTags : List String :=
  ["capabilities", "capability", "session-id"].flatMap tagsOf

/-- What stands inside of a root has the properties of its tags and texts. -/
theorem inside_additive {P : List Char → Prop} (hP : Additive P)
    (htags : ∀ tag ∈ innerTags, P tag.toList)
    (hcapabilities : ∀ held ∈ capabilities, ∀ s ∈ held, P (escape s))
    (hsessionId : ∀ s ∈ sessionId, P (escape s)) : P (inside capabilities sessionId) := by
  have hnamed : ∀ name ∈ ["capabilities", "capability", "session-id"],
      ∀ tag ∈ tagsOf name, P tag.toList :=
    fun name hname tag htag => htags tag (List.mem_flatMap.mpr ⟨name, hname, htag⟩)
  have hlist : P (capabilities.flatMap (textElement "capability")) :=
    hP.flatMap fun held hheld =>
      hP.textElement (hnamed _ (by simp)) (hcapabilities held hheld)
  have hid : P ((sessionId.toList.map some).flatMap (textElement "session-id")) := by
    refine hP.flatMap fun held hheld => hP.textElement (hnamed _ (by simp)) fun s hs => ?_
    obtain ⟨digits, hdigits, rfl⟩ := List.mem_map.mp hheld
    rw [← Option.some.inj hs]
    exact hsessionId digits (Option.mem_toList.mp hdigits)
  exact hP.append (hP.wrapped (hnamed _ (by simp)) hlist) hid

theorem kept_inside (hcapabilities : ∀ held ∈ capabilities, ∀ s ∈ held, ∀ c ∈ s, isChar c = true)
    (hsessionId : ∀ s ∈ sessionId, ∀ c ∈ s, isChar c = true) :
    ∀ c ∈ inside capabilities sessionId, Kept c := by
  have htags : ∀ tag ∈ innerTags, tag.toList.all (fun c => isChar c && c != '\r') = true := by
    decide
  exact inside_additive additive_kept (fun tag htag => kept_of_all (htags tag htag))
    (fun held hheld s hs => kept_escape (hcapabilities held hheld s hs))
    (fun s hs => kept_escape (hsessionId s hs))

theorem content_inside (capabilities : List (Option (List Char))) (sessionId : Option (List Char)) :
    ∃ nodes more,
      List.Forall₂ (Node.Shows (baseTag "capability")) nodes
        (capabilities.map fun held => held.getD []) ∧
      List.Forall₂ (Node.Shows (baseTag "session-id")) more sessionId.toList ∧
      Content helloScope 2 (inside capabilities sessionId)
        (.element (baseTag "capabilities") nodes :: more) := by
  have hname : isName "capabilities".toList = true := by decide
  have hname' : isName "capability".toList = true := by decide
  have hname'' : isName "session-id".toList = true := by decide
  obtain ⟨nodes, hnodes, hlist⟩ := @Content.textElements helloScope 0 "capability" hname' rfl
    capabilities
  obtain ⟨more, hmore, hid⟩ := @Content.textElements helloScope 1 "session-id" hname'' rfl
    (sessionId.toList.map some)
  have hsame : (sessionId.toList.map some).map (fun held => held.getD []) = sessionId.toList := by
    cases sessionId <;> rfl
  rw [hsame] at hmore
  refine ⟨nodes, more, hnodes, hmore, (hlist.element hname rfl).append hid ?_⟩
  cases sessionId with
  | none => simp [Piece.Opens]
  | some digits => exact Content.opens_textElement _ _ _

/-- The root of a document holds the capabilities and the session id that were written. -/
theorem ofOctets_document
    (hcapabilities : ∀ held ∈ capabilities, ∀ s ∈ held, ∀ c ∈ s, isChar c = true)
    (hsessionId : ∀ s ∈ sessionId, ∀ c ∈ s, isChar c = true) :
    ∃ nodes more,
      List.Forall₂ (Node.Shows (baseTag "capability")) nodes
        (capabilities.map fun held => held.getD []) ∧
      List.Forall₂ (Node.Shows (baseTag "session-id")) more sessionId.toList ∧
      Document.ofOctets (Utf8.encode (document capabilities sessionId))
        = some ⟨baseTag "hello", .element (baseTag "capabilities") nodes :: more⟩ := by
  obtain ⟨nodes, more, hnodes, hmore, hcontent⟩ := content_inside capabilities sessionId
  refine ⟨nodes, more, hnodes, hmore, ?_⟩
  rw [Document.ofOctets, document_eq, Coding.characters?_declaration, Option.bind_some]
  exact ofChars_hello hcontent (by decide) (kept_inside hcapabilities hsessionId)

theorem isChar_of_mem_signed {n : Int} {c : Char} (hc : c ∈ Numeral.signed n) : isChar c = true := by
  rcases Numeral.minus_or_isDigit_of_mem_signed hc with rfl | hc
  · rfl
  · have hbounds := Char.isDigit_iff_toNat.mp hc
    have hzero : '0'.toNat = 48 := rfl
    have hnine : '9'.toNat = 57 := rfl
    simp [isChar]
    omega

/-! ### Reading a message -/

section Reading

variable {nodes more : List Node} {texts ids : List (List Char)}

theorem below_other {tag tag' : Tag} (htag : tag ≠ tag') (outer : Tag)
    (h : List.Forall₂ (Node.Shows tag) nodes texts) :
    (⟨outer, nodes⟩ : Element).below tag' = [] := by
  induction h with
  | nil => rfl
  | cons hnode h ih =>
    obtain ⟨texts, rfl, -⟩ := hnode
    rw [Element.below] at ih ⊢
    simpa [htag] using ih

theorem advertised_root (hnodes : List.Forall₂ (Node.Shows (baseTag "capability")) nodes texts)
    (hmore : List.Forall₂ (Node.Shows (baseTag "session-id")) more ids) :
    advertised ⟨baseTag "hello", .element (baseTag "capabilities") nodes :: more⟩
      = texts.map fun s => String.ofList (Text.strip s) := by
  have hother : (⟨baseTag "hello", more⟩ : Element).below (baseTag "capabilities") = [] :=
    below_other (by decide) _ hmore
  have hlists : (⟨baseTag "hello", .element (baseTag "capabilities") nodes :: more⟩ : Element).below
      (baseTag "capabilities") = [⟨baseTag "capabilities", nodes⟩] := by
    rw [Element.below] at hother ⊢
    simpa using hother
  have htexts := below_of_shows (baseTag "capabilities") hnodes
  rw [advertised, if_pos rfl, hlists]
  show ((Element.below _ _ ++ []).map fun e => String.ofList (trimmedText e)) = _
  rw [List.append_nil]
  simpa only [List.map_map, Function.comp_def] using congrArg (List.map String.ofList) htexts

theorem sessionIdOf_root {id : Option Int}
    (hmore : List.Forall₂ (Node.Shows (baseTag "session-id")) more
      (id.map Numeral.signed).toList)
    (hdigits : ∀ n ∈ id, (Numeral.decimal n.natAbs).length ≤ Numeral.digitLimit) :
    sessionIdOf ⟨baseTag "hello", .element (baseTag "capabilities") nodes :: more⟩
      = .ok ((id.map Datum.integer).getD .null) := by
  have htexts := below_of_shows (baseTag "hello") hmore
  -- the list of capabilities has another name and does not count
  have hbelow : (⟨baseTag "hello", .element (baseTag "capabilities") nodes :: more⟩ : Element).below
      (baseTag "session-id") = (⟨baseTag "hello", more⟩ : Element).below (baseTag "session-id") := by
    have htag : baseTag "capabilities" ≠ baseTag "session-id" := by decide
    simp [Element.below, htag]
  rw [sessionIdOf, hbelow]
  cases id with
  | none =>
    rw [List.map_eq_nil_iff.mp htexts]
    rfl
  | some n =>
    obtain ⟨e, he, htext⟩ : ∃ e, (⟨baseTag "hello", more⟩ : Element).below (baseTag "session-id") = [e]
        ∧ trimmedText e = Text.strip (Numeral.signed n) :=
      List.map_eq_singleton_iff.mp htexts
    rw [he]
    simp only [htext, Numeral.strip_signed, Numeral.ofText_signed (hdigits n rfl)]
    rfl

theorem ofElement_of_hello {root : Element} {sessionId : Datum} (htag : root.tag = baseTag "hello")
    (hsome : advertised root ≠ []) (hid : sessionIdOf root = .ok sessionId) :
    ofElement root = .ok (ofParts ((advertised root).map .text) sessionId) := by
  have hfull : (advertised root).isEmpty = false := by simpa using hsome
  rw [ofElement, if_neg (by simp [htag])]
  simp [hfull, hid, pure, Except.pure, bind, Except.bind]

/-- A document is read as the message with its trimmed capabilities and its session id. -/
theorem read_document (store : OctetStore) {capabilities : List (Option (List Char))}
    {id : Option Int} (hne : capabilities ≠ [])
    (hcapabilities : ∀ held ∈ capabilities, ∀ s ∈ held, ∀ c ∈ s, isChar c = true)
    (hdigits : ∀ n ∈ id, (Numeral.decimal n.natAbs).length ≤ Numeral.digitLimit) :
    read (.octets store (Utf8.encode (document capabilities (id.map Numeral.signed))))
      = .ok (ofParts
          (capabilities.map fun held => .text (String.ofList (Text.strip (held.getD []))))
          ((id.map Datum.integer).getD .null)) := by
  have hsessionId : ∀ s ∈ id.map Numeral.signed, ∀ c ∈ s, isChar c = true := by
    intro s hs
    obtain ⟨n, -, rfl⟩ := Option.map_eq_some_iff.mp hs
    exact fun c => isChar_of_mem_signed
  obtain ⟨nodes, more, hnodes, hmore, hroot⟩ := ofOctets_document hcapabilities hsessionId
  have hadvertised := advertised_root hnodes hmore
  have hsome : advertised ⟨baseTag "hello",
      .element (baseTag "capabilities") nodes :: more⟩ ≠ [] := by
    rw [hadvertised]
    simpa using hne
  have hroot' := ofElement_of_hello rfl hsome (sessionIdOf_root hmore hdigits)
  rw [read, Document.read, hroot]
  simp only [hroot', hadvertised, List.map_map]
  rfl

end Reading

end Hello

end NetconfWire
