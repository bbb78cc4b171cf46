/-
How a document of introduction is read.

The document has a declaration, and its root declares the namespace of the protocol.
Its octets stand for its characters, none of which is altered by the reader, and what
stands inside of the root is content like any other:

* `Coding.characters?_declaration` — the characters of the document come back;
* `Xml.ofChars_hello` — the root holds the nodes that the content adds.
-/
import NetconfWire.Hello.Reader
import NetconfWire.Proofs.Content
import NetconfWire.Proofs.Utf8

namespace NetconfWire.Xml

/-! ### The coding of a document -/

namespace Coding

theorem encode_declaration (s : List Char) : Utf8.encode (Hello.declaration ++ s)
    = Hello.declaration.map (fun c => c.toNat.toUInt8) ++ Utf8.encode s := by
  have hascii : Utf8.encode Hello.declaration
      = Hello.declaration.map fun c => c.toNat.toUInt8 := by decide
  rw [← hascii]
  exact List.flatMap_append

theorem decode_utf8 (s : List Char) : decode (.charset .utf8) (Utf8.encode s) = some s := by
  simp only [decode, Charset.decode, Utf8.decode_encode, Except.toOption, Option.map_some,
    String.toList_ofList]

theorem announced?_declaration (s : List Char) :
    announced? (Utf8.encode (Hello.declaration ++ s)) = none := by
  rw [encode_declaration]
  rfl

theorem declared?_declaration (s : List Char) :
    declared? (Utf8.encode (Hello.declaration ++ s)) = some (.charset .utf8) := by
  have hname : ofName? "UTF-8" = some (.charset .utf8) := by decide +kernel
  have hscan : ∀ t, Declaration.scanIfThere (Hello.declaration ++ t)
      = some (some ⟨some "UTF-8", false⟩, '\n' :: t) := fun _ => rfl
  have hascii : (Hello.declaration.map fun c => c.toNat.toUInt8).map (fun x => Char.ofNat x.toNat)
      = Hello.declaration := by decide
  rw [declared?, encode_declaration, List.map_append, hascii, hscan, ← hname]

/-- The characters of a document with the declaration are found in its octets. -/
theorem characters?_declaration (s : List Char) :
    characters? (Utf8.encode (Hello.declaration ++ s)) = some (Hello.declaration ++ s) := by
  rw [characters?, announced?_declaration]
  simp only [declared?_declaration, Option.bind_some, decode_utf8]

end Coding

/-! ### The root -/

/-- A character that the reader of a document takes as it is. -/
abbrev Kept (c : Char) : Prop :=
  isChar c = true ∧ c ≠ '\r'

theorem kept_of_all {s : List Char} (h : s.all (fun c => isChar c && c != '\r') = true) :
    ∀ c ∈ s, Kept c := by
  intro c hc
  simpa using List.all_eq_true.mp h c hc

theorem unifyLineEnds_of_kept {s : List Char} (h : ∀ c ∈ s, Kept c) : unifyLineEnds s = s := by
  induction s with
  | nil => rfl
  | cons c s ih =>
    have hc := (h c List.mem_cons_self).2
    rw [unifyLineEnds, ih fun d hd => h d (List.mem_cons_of_mem _ hd)]
    · exact fun _ hreturn _ => hc hreturn
    · exact hc

theorem Piece.Spells.ofContent {s : List Char} {ps : List Piece} (hs : Piece.Spells s ps) :
    Piece.ofContent s = some ps := by
  have hcuts := hs [] [] (by simp [Piece.Opens]) .nil
  rw [List.append_nil, List.append_nil] at hcuts
  exact hcuts s.length (Nat.le_refl _)

theorem ofContent_of_spells {s : List Char} {ps : List Piece} {es : List Event}
    (hs : Piece.Spells s ps) (hps : Means ps es) {d : Dtd} (hd : d.rules = []) :
    Event.ofContent d s = some es := by
  have hlift : (liftM (Piece.ofContent s) : Thrift (List Piece)) d.allowance
      = some (ps, d.allowance) := by
    rw [hs.ofContent]
    rfl
  rw [Event.ofContent, maxNesting, Event.ofContentWithin, bind_of_some hlift, hps _ _ _ hd]
  rfl

theorem ofTag_declaring (name : String) (d : Dtd) (left : Nat) (hd : d.rules = []) :
    Event.ofTag d name [("xmlns", baseNamespace.toList)] left
      = some ([.opening name [⟨"xmlns", baseNamespace.toList, true⟩]], left) := by
  rw [Event.ofTag, hd]
  rfl

/-- The tag with which a message of introduction begins. -/
def helloTag : List Char :=
  '<' :: ("hello".toList ++ " xmlns=\"".toList ++ baseNamespace.toList ++ ['"', '>'])

/-- The scope inside of an introduction. -/
def helloScope : Scope :=
  [(none, baseNamespace)]

theorem prolog_hello (size : Nat) (s : List Char) :
    ∃ d : Dtd, d.rules = [] ∧ d.remarks = [] ∧
      Document.prolog size (Hello.declaration ++ ('<' :: 'h' :: s)) = some (d, '<' :: 'h' :: s) := by
  have hdeclaration : Declaration.scanIfThere (Hello.declaration ++ ('<' :: 'h' :: s))
      = some (some ⟨some "UTF-8", false⟩, '\n' :: '<' :: 'h' :: s) := rfl
  have hasides : Document.asides ('\n' :: '<' :: 'h' :: s) = some ([], '<' :: 'h' :: s) := rfl
  -- no document type stands between the first line and the root
  rw [Document.prolog, bind_of_some hdeclaration, bind_of_some hasides,
    Scan.ite_tries_of_not_prefix _ _ (by simp)]
  exact ⟨_, rfl, rfl, rfl⟩

theorem ofEvents_hello {es : List Event} {nodes : List Node} {depth : Nat}
    (hes : Grows helloScope depth es nodes) (hdepth : depth < Growth.maxDepth) :
    Element.ofEvents [] (.opening "hello" [⟨"xmlns", baseNamespace.toList, true⟩]
        :: (es ++ [.closing "hello"])) = some ⟨Hello.baseTag "hello", nodes⟩ := by
  have hbegin : Growth.step (Growth.start []) (.opening "hello" [⟨"xmlns", baseNamespace.toList, true⟩])
      = some ⟨[⟨some "hello", Hello.baseTag "hello", helloScope, []⟩], none, none⟩ := rfl
  rw [Element.ofEvents, List.foldlM_cons, hbegin]
  show ((es ++ [Event.closing "hello"]).foldlM Growth.step _).bind Growth.finish = _
  rw [List.foldlM_append, hes _ [] none none rfl (by simp; omega)]
  simp [Growth.step, Growth.close?, Growth.finish]

theorem scan_helloTag (rest : List Char) : Piece.scan (helloTag ++ rest)
    = some (.opening "hello" [("xmlns", baseNamespace.toList)] false, rest) := by
  have hname : isName "hello".toList = true := by decide
  rw [helloTag, List.cons_append, List.append_assoc]
  exact Piece.scan_declaringTag hname (by decide) (by decide) rest

theorem spells_hello {s : List Char} {ps : List Piece} (hs : Piece.Spells s ps) :
    Piece.Spells (helloTag ++ s ++ "</hello>".toList)
      (.opening "hello" [("xmlns", baseNamespace.toList)] false :: (ps ++ [.closing "hello"])) := by
  have hname : isName "hello".toList = true := by decide
  have hclosing : Piece.Spells "</hello>".toList [.closing "hello"] :=
    .single (by simp) fun rest _ => Piece.scan_closingTag hname rest
  rw [List.append_assoc]
  exact (hs.append hclosing (by simp [Piece.Opens])).cons (by simp [helloTag]) scan_helloTag

theorem kept_hello {s : List Char} (hs : ∀ c ∈ s, Kept c) :
    ∀ c ∈ Hello.declaration ++ (helloTag ++ s ++ "</hello>".toList), Kept c := by
  intro c hc
  have hdeclaration : ∀ c ∈ Hello.declaration, Kept c := kept_of_all (by decide)
  have htag : ∀ c ∈ helloTag, Kept c := kept_of_all (by decide)
  have hend : ∀ c ∈ "</hello>".toList, Kept c := kept_of_all (by decide)
  simp only [List.mem_append] at hc
  rcases hc with hc | (hc | hc) | hc
  · exact hdeclaration c hc
  · exact htag c hc
  · exact hs c hc
  · exact hend c hc

theorem ofChars_declaration {content more : List Char} {es : List Event} {root : Element}
    (hcontent : content = '<' :: 'h' :: more)
    (hchars : ∀ c ∈ Hello.declaration ++ content, Kept c)
    (hevents : ∀ d : Dtd, d.rules = [] → Event.ofContent d content = some es)
    (hroot : Element.ofEvents [] es = some root) :
    Document.ofChars (Hello.declaration ++ content) = some root := by
  -- the characters are allowed, and their line ends stay as they are
  have hall : (Hello.declaration ++ content).all isChar = true :=
    List.all_eq_true.mpr fun c hc => (hchars c hc).1
  have hsame := unifyLineEnds_of_kept hchars
  obtain ⟨d, hrules, hremarks, hprolog⟩ := prolog_hello (Hello.declaration ++ content).length more
  rw [← hcontent] at hprolog
  rw [Document.ofChars, hall, if_neg (by simp)]
  simp only [hsame]
  show (Document.prolog _ _).bind _ = _
  rw [hprolog]
  show (Event.ofContent d content).bind _ = _
  rw [hevents d hrules]
  show Element.ofEvents d.remarks es = _
  rw [hremarks, hroot]

theorem ofChars_hello {s : List Char} {nodes : List Node} {depth : Nat}
    (hs : Content helloScope depth s nodes) (hdepth : depth < Growth.maxDepth)
    (hchars : ∀ c ∈ s, Kept c) :
    Document.ofChars (Hello.declaration ++ (helloTag ++ s ++ "</hello>".toList))
      = some ⟨Hello.baseTag "hello", nodes⟩ := by
  obtain ⟨ps, es, hspells, hmeans, hgrows⟩ := hs
  have hopening := Means.opening false (ofTag_declaring "hello")
  exact ofChars_declaration rfl (kept_hello hchars)
    (fun d => ofContent_of_spells (spells_hello hspells)
      (hopening.append (hmeans.append (.closing _))))
    (ofEvents_hello hgrows hdepth)

end NetconfWire.Xml
