/-
Introductions with comments in them.

A comment that is put into the root of a document makes no difference to the message that
is read, except in one kind of place: inside of the text of a capability, or of the session
id that counts.  There it cuts off the text behind it, and the message is read with what is
left, if that is a session id at all.

* `Hello.InCapability`, `Hello.InSessionId` — the places where a comment is noticed;
* `Hello.read_commented` — what is read from a document with a comment;
* `Hello.read_comment_within` — a document whose capability loses its end.
-/
import NetconfWire.Proofs.Sight

namespace NetconfWire

open Xml

/-- The characters of the document that a value holds. -/
def Xml.Document.characters? (decoding : Decoding) : Datum → Option (List Char)
  | .text s => if Declaration.namesEncoding s.toList then none else some (withoutMarks s.toList)
  | .octets _ b => decoding b
  | _ => none

namespace Hello

/-! ### Places of comments -/

theorem texts_split {xs : List Node} {ss mine : List (List Char)}
    (h : xs ++ mine.map Node.text = ss.map Node.text) : ∃ ts, xs = ts.map .text ∧ ss = ts ++ mine := by
  obtain ⟨ts, us, rfl, rfl, hus⟩ := List.map_eq_append_iff.mp h.symm
  exact ⟨ts, rfl, by rw [(List.map_inj_right fun _ _ => Node.text.inj).mp hus]⟩

/-- The level holds nothing but the text. -/
def HoldsText (level : Level) (s : List Char) : Prop :=
  ∃ ss : List (List Char), level.content.reverse = ss.map .text ∧ ss.flatten = s

/-- The place lies in a capability behind the text `s`, in which no other markup stands; `before` are
the texts of the capabilities that have ended. -/
def InCapability (g : Growth) (before : List (List Char)) (s : List Char) : Prop :=
  ∃ top list root, g.levels = [top, list, root] ∧ top.tag = baseTag "capability" ∧
    list.tag = baseTag "capabilities" ∧
    before = listedBefore root.content.reverse list.content.reverse ∧ HoldsText top s

/-- The place lies in the first session id behind the text `s`, in which no other markup stands. -/
def InSessionId (g : Growth) (s : List Char) : Prop :=
  ∃ top root, g.levels = [top, root] ∧ top.tag = baseTag "session-id" ∧
    among (baseTag "session-id") root.content.reverse = [] ∧ HoldsText top s

section Places

variable {g : Growth} {f : Frame} {fs : List Frame} {mine before : List (List Char)} {s : List Char}

/-- The frames around a place tell whether it lies in a capability. -/
theorem inCapability_iff
    (h : List.Forall₂ Frame.Begins ({ f with before := f.before ++ mine.map .text } :: fs) g.levels) :
    InCapability g before s ↔ ∃ l r ss, fs = [l, r] ∧ f.tag = baseTag "capability" ∧
      l.tag = baseTag "capabilities" ∧ before = listedBefore r.before l.before ∧
      f.before = ss.map .text ∧ s = (ss ++ mine).flatten := by
  rw [InCapability]
  generalize g.levels = levels at h
  constructor
  · rintro ⟨top, list, root, rfl, htop, hlist, rfl, ss, hss, rfl⟩
    -- three levels have begun, so that there are three frames
    obtain _ | ⟨hf, _ | ⟨hl, _ | ⟨hr, ⟨⟩⟩⟩⟩ := h
    obtain ⟨ts, hts, rfl⟩ := texts_split (hf.2.trans hss)
    exact ⟨_, _, ts, rfl, hf.1.trans htop, hl.1.trans hlist, by rw [hl.2, hr.2], hts, rfl⟩
  · rintro ⟨l, r, ss, rfl, hf, hl, rfl, hss, rfl⟩
    obtain _ | ⟨hf', _ | ⟨hl', _ | ⟨hr', ⟨⟩⟩⟩⟩ := h
    refine ⟨_, _, _, rfl, hf'.1.symm.trans hf, hl'.1.symm.trans hl, by rw [hl'.2, hr'.2], ss ++ mine,
      ?_, rfl⟩
    rw [← hf'.2, hss, List.map_append]

/-- The frames around a place tell whether it lies in the first session id. -/
theorem inSessionId_iff
    (h : List.Forall₂ Frame.Begins ({ f with before := f.before ++ mine.map .text } :: fs) g.levels) :
    InSessionId g s ↔ ∃ r ss, fs = [r] ∧ f.tag = baseTag "session-id" ∧
      among (baseTag "session-id") r.before = [] ∧ f.before = ss.map .text ∧
      s = (ss ++ mine).flatten := by
  rw [InSessionId]
  generalize g.levels = levels at h
  constructor
  · rintro ⟨top, root, rfl, htop, hroot, ss, hss, rfl⟩
    obtain _ | ⟨hf, _ | ⟨hr, ⟨⟩⟩⟩ := h
    obtain ⟨ts, hts, rfl⟩ := texts_split (hf.2.trans hss)
    exact ⟨_, ts, rfl, hf.1.trans htop, by rw [hr.2, hroot], hts, rfl⟩
  · rintro ⟨r, ss, rfl, hf, hr, hss, rfl⟩
    obtain _ | ⟨hf', _ | ⟨hr', ⟨⟩⟩⟩ := h
    refine ⟨_, _, rfl, hf'.1.symm.trans hf, by rw [← hr'.2, hr], ss ++ mine, ?_, rfl⟩
    rw [← hf'.2, hss, List.map_append]

end Places

/-! ### A document with one capability -/

theorem read_hello {s : List Char} {nodes : List Node} {depth : Nat} {m : Hello}
    (hs : Content helloScope depth s nodes) (hdepth : depth < Growth.maxDepth)
    (hchars : ∀ c ∈ s, Kept c) (hm : ofElement ⟨baseTag "hello", nodes⟩ = .ok m)
    (store : OctetStore) :
    read (.octets store (Utf8.encode (declaration ++ (helloTag ++ s ++ "</hello>".toList))))
      = .ok m :=
  read_octets_eq_ok_iff.mpr
    ⟨_, _, Coding.characters?_declaration _, ofChars_hello hs hdepth hchars, hm⟩

/-- One capability in a list. -/
def oneCapability (s : List Char) : List Char :=
  wrapped "capabilities" (wrapped "capability" s)

theorem kept_oneCapability {s : List Char} (hs : ∀ c ∈ s, Kept c) :
    ∀ c ∈ oneCapability s, Kept c := by
  have hkept : ∀ c ∈ oneCapability [], Kept c := kept_of_all (by decide)
  simp only [oneCapability, wrapped, List.append_nil, List.forall_mem_append] at hkept ⊢
  exact ⟨⟨hkept.1.1, ⟨hkept.1.2.1, hs⟩, hkept.1.2.2⟩, hkept.2⟩

theorem content_oneCapability {s : List Char} {nodes : List Node}
    (hs : Content helloScope 0 s nodes) : Content helloScope 2 (oneCapability s)
      [.element (baseTag "capabilities") [.element (baseTag "capability") nodes]] :=
  have hnames : isName "capabilities".toList = true ∧ isName "capability".toList = true := by decide
  .element hnames.1 (by decide) (.element hnames.2 (by decide) hs)

theorem ofElement_oneCapability (nodes : List Node) :
    ofElement ⟨baseTag "hello", [.element (baseTag "capabilities")
        [.element (baseTag "capability") nodes]]⟩
      = .ok ⟨capabilitiesOf [Text.strip (leading nodes)], .null⟩ := by
  let list : Element := ⟨baseTag "capabilities", [.element (baseTag "capability") nodes]⟩
  have hlisted : listed [list.node] = [Text.strip (leading nodes)] := by
    have hinner : list.below (baseTag "capability") = [⟨baseTag "capability", nodes⟩] :=
      (among_node ⟨baseTag "capability", nodes⟩).trans (if_pos rfl)
    rw [listed_node, if_pos rfl, hinner, List.map_singleton, trimmedText_eq]
  have hid : idText? [list.node] = none := by
    have hnames : baseTag "capabilities" ≠ baseTag "session-id" := by decide
    rw [idText?, among_node, if_neg hnames]
    rfl
  have hroot : advertised ⟨baseTag "hello", [list.node]⟩
      = [String.ofList (Text.strip (leading nodes))] := by
    rw [advertised_eq rfl, hlisted, List.map_singleton]
  refine ofElement_eq_ok_iff.mpr ⟨rfl, ?_, .null, sessionIdOf_of_none hid, ?_⟩
  · exact hroot ▸ List.cons_ne_nil _ _
  · exact congrArg (fun texts => ofParts (texts.map Datum.text) .null) hroot.symm

theorem read_oneCapability {s : List Char} {nodes : List Node} {value : String}
    (hs : Content helloScope 0 s nodes) (hkept : ∀ c ∈ s, Kept c)
    (hvalue : String.ofList (Text.strip (leading nodes)) = value) (store : OctetStore) :
    read (.octets store (Utf8.encode (declaration ++ (helloTag ++ oneCapability s
      ++ "</hello>".toList)))) = .ok ⟨[.text value], .null⟩ := by
  rw [← hvalue]
  exact read_hello (content_oneCapability hs) (by decide) (kept_oneCapability hkept)
    (ofElement_oneCapability nodes) store

/-- Text of ordinary characters. -/
def Ordinary (s : List Char) : Prop :=
  s ≠ [] ∧ s.all (fun c => isChar c && c != '\r' && c != '<' && c != '&' && c != '>') = true

theorem Ordinary.kept {s : List Char} (h : Ordinary s) : ∀ c ∈ s, Kept c := by
  intro c hc
  have hall := List.all_eq_true.mp h.2 c hc
  simp only [Bool.and_eq_true, bne_iff_ne] at hall
  exact hall.1.1.1

theorem Ordinary.spells {s : List Char} (h : Ordinary s) : Piece.Spells s [.text s] := by
  refine .single h.1 fun _ => Piece.scan_text h.1 fun c hc => ?_
  have hall := List.all_eq_true.mp h.2 c hc
  simp only [Bool.and_eq_true, bne_iff_ne] at hall
  exact ⟨hall.1.1.2, hall.1.2, hall.2⟩

theorem Ordinary.content {s : List Char} (h : Ordinary s) : Content helloScope 0 s [.text s] :=
  ⟨_, _, h.spells, .text s, .text s true⟩

theorem content_comment {scope : Scope} {depth : Nat} {body t : List Char} {nodes : List Node}
    (hbody : Comment.Allowed body) (ht : Content scope depth t nodes) :
    Content scope depth (Comment.written body ++ t) (.aside :: nodes) := by
  obtain ⟨ps, es, hspells, hmeans, hgrows⟩ := ht
  have hmeaning : Means [.comment] [.aside] := fun _ _ _ _ => rfl
  have hgrowth : Grows scope depth [.aside] [.aside] := fun _ _ _ _ _ _ => rfl
  exact ⟨_, _, hspells.cons (by simp [Comment.written]) (Piece.scan_comment hbody),
    hmeaning.append hmeans, hgrowth.append hgrows⟩

/-- A root of a message has begun. -/
def begun : Growth :=
  ⟨[⟨some "hello", baseTag "hello", helloScope, []⟩], none, none⟩

/-- The place behind some pieces in the root. -/
theorem splits_hello {front back : List Char} {ps : List Piece} {es : List Event} {g : Growth}
    (hkept : ∀ c ∈ declaration ++ (helloTag ++ front) ++ back, Kept c)
    (hspells : Piece.Spells front ps) (hmeans : Means ps es)
    (hg : es.foldlM Growth.step begun = some g) :
    Document.Splits (declaration ++ (helloTag ++ front)) back ∧
      Document.Reaches (declaration ++ (helloTag ++ front)) back g := by
  have hkept' : ∀ c ∈ declaration ++ (helloTag ++ front), Kept c :=
    fun c hc => hkept c (List.mem_append_left back hc)
  obtain ⟨more, hmore⟩ : ∃ more, helloTag = '<' :: 'h' :: more := ⟨_, rfl⟩
  obtain ⟨d, hrules, hremarks, hprolog⟩ :=
    prolog_hello (declaration ++ (helloTag ++ front) ++ back).length (more ++ front ++ back)
  rw [← List.cons_append, ← List.cons_append, ← List.cons_append, ← List.cons_append, ← hmore,
    ← List.append_assoc declaration (helloTag ++ front)] at hprolog
  have hwhole := hspells.cons (by simp [helloTag]) scan_helloTag
  have hevents := ofContent_of_spells hwhole
    ((Means.opening false (ofTag_declaring "hello")).append hmeans) hrules
  have hbegin : Growth.step (Growth.start []) (.opening "hello" [⟨"xmlns", baseNamespace.toList, true⟩])
      = some begun := rfl
  have hrun : (Event.opening "hello" [⟨"xmlns", baseNamespace.toList, true⟩] :: es).foldlM Growth.step
      (Growth.start d.remarks) = some g := by
    rw [hremarks, List.foldlM_cons, hbegin]
    exact hg
  rw [Document.Splits, Document.Reaches, unifyLineEnds_of_kept hkept, unifyLineEnds_of_kept hkept']
  exact ⟨⟨d, helloTag ++ front, back, _, hprolog, rfl, hwhole.ofContent⟩,
    d, helloTag ++ front, back, _, hprolog, rfl, hevents, hrun⟩

theorem characters?_parts (s t : List Char) :
    Document.characters? Coding.characters? (.octets .frozen (Utf8.encode (declaration ++ s ++ t)))
      = some (declaration ++ s ++ t) := by
  rw [List.append_assoc]
  exact Coding.characters?_declaration (s ++ t)

theorem allowed_c : Comment.Allowed "c".toList :=
  ⟨List.all_eq_true.mp (by decide), by decide⟩

/-! ### Documents with a comment -/

section Documents

variable {decoding : Decoding} {raw : Datum} {s : List Char}

theorem read_of_characters? (hs : Document.characters? decoding raw = some s) :
    Document.read raw decoding = (Document.ofChars s).elim (.error .malformed) .ok := by
  cases raw with
  | text t =>
    rw [Document.characters?] at hs
    split at hs
    · cases hs
    next hencoding =>
    cases hs
    rw [Document.read, Document.ofText, if_neg hencoding]
    cases Document.ofChars (Document.withoutMarks t.toList) <;> rfl
  | octets store b =>
    have hoctets : decoding b = some s := hs
    rw [Document.read, Document.ofOctets, hoctets, Option.bind_some]
    cases Document.ofChars s <;> rfl
  | _ => cases hs

theorem read_of_ofChars {root : Element} (hs : Document.characters? decoding raw = some s)
    (hroot : Document.ofChars s = some root) :
    read raw decoding = (ofElement root).mapError fun why => .helloUnreadable raw why := by
  rw [read, read_of_characters? hs, hroot]
  rfl

theorem ofChars_of_read {h : Hello} (hs : Document.characters? decoding raw = some s)
    (hread : read raw decoding = .ok h) :
    ∃ root, Document.ofChars s = some root ∧ ofElement root = .ok h := by
  cases hroot : Document.ofChars s with
  | some root =>
    rw [read_of_ofChars hs hroot] at hread
    exact ⟨root, rfl, mapError_eq_ok_iff.mp hread⟩
  | none =>
    rw [read, read_of_characters? hs, hroot] at hread
    cases hread

end Documents

/-- What is read from a document when a comment has been put into it, instead of the message `h`. -/
structure Commented (g : Growth) (h : Hello) (decoding : Decoding) (raw : Datum) : Prop where
  elsewhere : (∀ before s, ¬ InCapability g before s) → (∀ s, ¬ InSessionId g s) →
    read raw decoding = .ok h
  capability : ∀ before s, InCapability g before s → ∃ more after,
    h.capabilities = capabilitiesOf (before ++ Text.strip (s ++ more) :: after) ∧
      read raw decoding = .ok ⟨capabilitiesOf (before ++ Text.strip s :: after), h.sessionId⟩
  sessionId : ∀ s, InSessionId g s → ∃ more n,
    Numeral.ofText (String.ofList (Text.strip (s ++ more))) = .ok n ∧
      h = ofParts h.capabilities (.integer n) ∧
      (∀ k, Numeral.ofText (String.ofList (Text.strip s)) = .ok k →
        read raw decoding = .ok (ofParts h.capabilities (.integer k))) ∧
      ∀ why, Numeral.ofText (String.ofList (Text.strip s)) = .error why →
        ∃ text, read raw decoding = .error (.helloUnreadable raw (.badSessionId text))

/-- **A comment that is put into a document makes no difference to what is read**, except in the text
of a capability and of the first session id, where it cuts off the text behind it.  The comment may
stand anywhere in the root, but not inside of other markup, and the documents may be in any coding.
-/
theorem read_commented {decoding : Decoding} {a b : List Char} {raw : Datum} {h : Hello}
    (hraw : Document.characters? decoding raw = some (a ++ b)) (hread : read raw decoding = .ok h)
    (hsplit : Document.Splits a b) :
    (∃ g, Document.Reaches a b g) ∧
      ∀ g body raw', Document.Reaches a b g → g.levels ≠ [] → Comment.Allowed body →
        Document.characters? decoding raw' = some (a ++ Comment.written body ++ b) →
        Commented g h decoding raw' := by
  obtain ⟨root, hroot, hmessage⟩ := ofChars_of_read hraw hread
  obtain ⟨g₀, hreaches, hplug⟩ := Document.exists_plug hroot hsplit
  refine ⟨⟨g₀, hreaches⟩, fun g body raw' hg hin hbody hraw' => ?_⟩
  obtain rfl := hreaches.unique hg
  obtain ⟨f, fs, mine, whole, more, hbegins, hpart, rfl, hnew⟩ := hplug body hbody hin
  have hout : ∀ {m}, ofElement (plug f fs (mine.map .text ++ .aside :: more.map .text)) = .ok m →
      read raw' decoding = .ok m := by
    intro m hm
    rw [read_of_ofChars hraw' hnew, hm]
    rfl
  refine ⟨fun hcapability hid => hout ?_, fun before s hplace => ?_, fun s hplace => ?_⟩
  -- a place in the finished tree that counts is such a place in the tree so far
  · refine ofElement_plug (fun l r htext hfs hf hl => ?_) (fun r htext hfs hf hr => ?_) hmessage
    · obtain ⟨ss, hss⟩ := htext
      exact hcapability _ _ ((inCapability_iff hbegins).mpr ⟨l, r, ss, hfs, hf, hl, rfl, hss, rfl⟩)
    · obtain ⟨ss, hss⟩ := htext
      exact hid _ ((inSessionId_iff hbegins).mpr ⟨r, ss, hfs, hf, hr, hss, rfl⟩)
  · obtain ⟨l, r, ss, rfl, hf, hl, rfl, hss, rfl⟩ := (inCapability_iff hbegins).mp hplace
    obtain ⟨behind, hwhole, hparted⟩ := trimmedText_parted (f := f) hss hpart
    obtain ⟨after, hm, hafter⟩ := ofElement_plug_capability (whole.map .text)
      (mine.map .text ++ .aside :: more.map .text) hf hl hmessage
    rw [hwhole] at hm
    rw [hparted] at hafter
    exact ⟨behind, after, hm, hout hafter⟩
  · obtain ⟨r, ss, rfl, hf, hr, hss, rfl⟩ := (inSessionId_iff hbegins).mp hplace
    obtain ⟨behind, hwhole, hparted⟩ := trimmedText_parted (f := f) hss hpart
    obtain ⟨⟨n, hn, hm⟩, hnumeral, hflaw⟩ := ofElement_plug_sessionId (whole.map .text)
      (mine.map .text ++ .aside :: more.map .text) hf hr hmessage
    rw [hwhole] at hn
    rw [hparted] at hnumeral hflaw
    refine ⟨behind, n, hn, hm, fun k hk => hout (hnumeral k hk), fun why hwhy => ?_⟩
    obtain ⟨text, herror⟩ := hflaw why hwhy
    refine ⟨text, ?_⟩
    rw [read_of_ofChars hraw' hnew, herror]
    rfl

/-- A comment between the tags of the root and of its first child. -/
theorem read_commented_beforeList : ∃ (a b : List Char) (raw raw' : Datum) (g : Growth),
    Document.characters? Coding.characters? raw = some (a ++ b) ∧
      Document.characters? Coding.characters? raw' = some (a ++ Comment.written "c".toList ++ b) ∧
      read raw = .ok ⟨[.text "urn:a"], .null⟩ ∧
      Document.Splits a b ∧ Document.Reaches a b g ∧ g.levels.length = 1 ∧
      read raw' = .ok ⟨[.text "urn:a"], .null⟩ := by
  have hplain : Ordinary "urn:a".toList := ⟨by decide, by decide⟩
  have hstrip : String.ofList (Text.strip (leading [.text "urn:a".toList])) = "urn:a" := by
    decide +kernel
  have hread := read_oneCapability hplain.content hplain.kept hstrip .frozen
  have hkept := kept_hello (kept_oneCapability hplain.kept)
  rw [List.append_assoc helloTag, ← List.append_assoc declaration] at hread hkept
  have hraw := characters?_parts helloTag (oneCapability "urn:a".toList ++ "</hello>".toList)
  have hraw' := characters?_parts helloTag
    (Comment.written "c".toList ++ (oneCapability "urn:a".toList ++ "</hello>".toList))
  rw [← List.append_assoc (declaration ++ helloTag)] at hraw'
  obtain ⟨hsplit, hplace⟩ : Document.Splits (declaration ++ helloTag)
        (oneCapability "urn:a".toList ++ "</hello>".toList) ∧
      Document.Reaches (declaration ++ helloTag)
        (oneCapability "urn:a".toList ++ "</hello>".toList) begun := by
    rw [← List.append_nil helloTag] at hkept ⊢
    exact splits_hello hkept .nil (fun _ _ _ _ => rfl) rfl
  have hcommented : Commented begun ⟨[.text "urn:a"], .null⟩ Coding.characters?
      (.octets .frozen _) :=
    (read_commented hraw hread hsplit).2 begun _ _ hplace (List.cons_ne_nil _ _) allowed_c hraw'
  refine ⟨_, _, _, _, begun, hraw, hraw', hread, hsplit, hplace, rfl, hcommented.elsewhere ?_ ?_⟩
  · rintro before s ⟨top, list, root, hlevels, -⟩
    cases hlevels
  · rintro s ⟨top, root, hlevels, -⟩
    cases hlevels

/-- A document up to a place in its capability. -/
def cutFront : List Char :=
  declaration ++ (helloTag ++ ("<capabilities>".toList ++ ("<capability>".toList ++ "urn:a".toList)))

/-- The document from that place on. -/
def cutBack : List Char :=
  "b".toList ++ "</capability></capabilities></hello>".toList

theorem cut_whole : cutFront ++ cutBack
    = declaration ++ (helloTag ++ oneCapability "urn:ab".toList ++ "</hello>".toList) := by
  simp [cutFront, cutBack, oneCapability, wrapped]

theorem splits_cut : Document.Splits cutFront cutBack ∧
    ∃ g, Document.Reaches cutFront cutBack g ∧ g.levels ≠ [] := by
  have hnames : isName "capabilities".toList = true ∧ isName "capability".toList = true := by decide
  have hwhole : Ordinary "urn:ab".toList := ⟨by decide, by decide⟩
  have hfront : Ordinary "urn:a".toList := ⟨by decide, by decide⟩
  have hkept := kept_hello (kept_oneCapability hwhole.kept)
  rw [← cut_whole] at hkept
  have hlist : ∀ rest, Piece.scan ("<capabilities>".toList ++ rest)
      = some (.opening "capabilities" [] false, rest) := fun rest => Piece.scan_tag hnames.1 rest
  have hcapability : ∀ rest, Piece.scan ("<capability>".toList ++ rest)
      = some (.opening "capability" [] false, rest) := fun rest => Piece.scan_tag hnames.2 rest
  have hspells := (hfront.spells.cons (by simp) hcapability).cons (by simp) hlist
  have hmeans := (Means.opening false (Means.ofTag_plain "capabilities")).append
    ((Means.opening false (Means.ofTag_plain "capability")).append (.text "urn:a".toList))
  have hrun : ∃ g, [Event.opening "capabilities" [], .opening "capability" [],
      .text "urn:a".toList true].foldlM Growth.step begun = some g ∧ g.levels ≠ [] :=
    ⟨_, rfl, List.cons_ne_nil _ _⟩
  obtain ⟨g, hg, hlevels⟩ := hrun
  rw [cutFront] at hkept ⊢
  obtain ⟨hsplit, hreaches⟩ := splits_hello hkept hspells hmeans hg
  exact ⟨hsplit, g, hreaches, hlevels⟩

/-- A capability with a comment inside of it loses its end. -/
theorem read_comment_within :
    Comment.Allowed "c".toList ∧ Document.Splits cutFront cutBack ∧
      (∃ g, Document.Reaches cutFront cutBack g ∧ g.levels ≠ []) ∧
      read (.octets .frozen (Utf8.encode (cutFront ++ cutBack))) = .ok ⟨[.text "urn:ab"], .null⟩ ∧
      read (.octets .frozen (Utf8.encode (cutFront ++ Comment.written "c".toList ++ cutBack)))
        = .ok ⟨[.text "urn:a"], .null⟩ ∧
      same ⟨[.text "urn:a"], .null⟩ ⟨[.text "urn:ab"], .null⟩ = false := by
  have hwhole : Ordinary "urn:ab".toList := ⟨by decide, by decide⟩
  have hfront : Ordinary "urn:a".toList := ⟨by decide, by decide⟩
  have hback : Ordinary "b".toList := ⟨by decide, by decide⟩
  have hcontent := hfront.content.append (content_comment allowed_c hback.content)
    (by simp [Piece.Opens, Comment.written])
  have hparted : cutFront ++ Comment.written "c".toList ++ cutBack = declaration ++ (helloTag
      ++ oneCapability ("urn:a".toList ++ (Comment.written "c".toList ++ "b".toList))
      ++ "</hello>".toList) := by
    simp [cutFront, cutBack, oneCapability, wrapped]
  refine ⟨allowed_c, splits_cut.1, splits_cut.2, ?_, ?_, by decide +kernel⟩
  · rw [cut_whole]
    exact read_oneCapability hwhole.content hwhole.kept (by decide +kernel) .frozen
  · rw [hparted]
    exact read_oneCapability hcontent (kept_of_all (by decide)) (by decide +kernel) .frozen

end Hello

end NetconfWire
