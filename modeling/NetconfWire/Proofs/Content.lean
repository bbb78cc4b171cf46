/-
What the content of an element adds to a document.

Markup makes up pieces, pieces stand for events, and events add nodes to the element
that is being read.  Each of these steps respects that one part stands in front of
another one, so that content can be put together from its parts:

* `Content.escape` — text adds itself to an element, whatever characters it holds, though
  perhaps in several nodes;
* `Content.element`, `Content.emptyElement` — an element without attributes adds itself,
  with the nodes that its own content adds to it.
-/
import NetconfWire.Hello.Writer
import NetconfWire.Proofs.Markup
import NetconfWire.Xml.Tree

namespace NetconfWire.Xml

/-! ### Events -/

/-- The events of two rows of pieces stand in the order of the rows. -/
theorem Event.ofPiecesWith_append {d : Dtd} {nested : List Char → Thrift (List Event)}
    (ps qs : List Piece) : ofPiecesWith d nested (ps ++ qs) = do
      let es ← ofPiecesWith d nested ps
      let fs ← ofPiecesWith d nested qs
      return es ++ fs := by
  simp [ofPiecesWith]

theorem Event.ofPiecesWith_append_of_some {d : Dtd} {nested : List Char → Thrift (List Event)}
    {ps qs : List Piece} {es fs : List Event} {left left' left'' : Nat}
    (hps : ofPiecesWith d nested ps left = some (es, left'))
    (hqs : ofPiecesWith d nested qs left' = some (fs, left'')) :
    ofPiecesWith d nested (ps ++ qs) left = some (es ++ fs, left'') := by
  rw [ofPiecesWith_append, bind_of_some hps, bind_of_some hqs]
  rfl

/-- The pieces stand for the events, whatever entities are declared. -/
def Means (ps : List Piece) (es : List Event) : Prop :=
  ∀ (d : Dtd) nested left, d.rules = [] → Event.ofPiecesWith d nested ps left = some (es, left)

namespace Means

theorem append {ps qs : List Piece} {es fs : List Event} (hps : Means ps es) (hqs : Means qs fs) :
    Means (ps ++ qs) (es ++ fs) := by
  intro d nested left hd
  exact Event.ofPiecesWith_append_of_some (hps d nested left hd) (hqs d nested left hd)

/-- An opening tag stands for its events; that of an empty element is a closing tag as well. -/
theorem opening {name : String} {attributes : List (String × List Char)} {es : List Event}
    (isEmpty : Bool) (htag : ∀ d left, d.rules = [] →
      Event.ofTag d name attributes left = some (es, left)) :
    Means [.opening name attributes isEmpty] (es ++ if isEmpty then [.closing name] else []) := by
  intro d nested left hd
  simp only [Event.ofPiecesWith, List.mapM_cons, List.mapM_nil, bind_assoc, pure_bind]
  rw [bind_of_some (htag d left hd)]
  rw [List.flatten_singleton]
  rfl

theorem ofTag_plain (name : String) (d : Dtd) (left : Nat) (hd : d.rules = []) :
    Event.ofTag d name [] left = some ([.opening name []], left) := by
  rw [Event.ofTag, hd]
  rfl

theorem reference {name : String} {c : Char} (h : (name, c) ∈ Entities.predefined) :
    Means [.reference name] [.text [c] false] := by
  intro d nested left hd
  simp only [Entities.predefined, List.mem_cons, List.not_mem_nil, or_false, Prod.mk.injEq] at h
  rcases h with ⟨rfl, rfl⟩ | ⟨rfl, rfl⟩ | ⟨rfl, rfl⟩ | ⟨rfl, rfl⟩ | ⟨rfl, rfl⟩ <;> rfl

theorem text (s : List Char) : Means [.text s] [.text s true] :=
  fun _ _ _ _ => rfl

theorem coded (c : Char) : Means [.coded c] [.text [c] false] :=
  fun _ _ _ _ => rfl

theorem closing (name : String) : Means [.closing name] [.closing name] :=
  fun _ _ _ _ => rfl

end Means


/-! ### Growth -/

/-- The events add the nodes to the level at which they stand; `depth` more levels nest in it. -/
def Grows (scope : Scope) (depth : Nat) (es : List Event) (nodes : List Node) : Prop :=
  ∀ (top : Level) (outer : List Level) (root : Option Element) (last : Option Remark),
    top.scope = scope → outer.length + 1 + depth ≤ Growth.maxDepth →
    es.foldlM Growth.step ⟨top :: outer, root, last⟩
      = some ⟨{ top with content := nodes.reverse ++ top.content } :: outer, root, last⟩

namespace Grows

variable {scope : Scope} {depth : Nat}

theorem nil (scope : Scope) (depth : Nat) : Grows scope depth [] [] :=
  fun _ _ _ _ _ _ => rfl

theorem append {es fs : List Event} {nodes more : List Node} (hes : Grows scope depth es nodes)
    (hfs : Grows scope depth fs more) : Grows scope depth (es ++ fs) (nodes ++ more) := by
  intro top outer root last hscope hdepth
  rw [List.foldlM_append, hes top outer root last hscope hdepth]
  show fs.foldlM Growth.step _ = _
  rw [hfs { top with content := nodes.reverse ++ top.content } outer root last hscope hdepth,
    List.reverse_append, List.append_assoc]

theorem text (s : List Char) (written : Bool) : Grows scope depth [.text s written] [.text s] :=
  fun _ _ _ _ _ _ => rfl

/-- An element without attributes is resolved in the scope around it. -/
theorem element {name : String} {es : List Event} {nodes : List Node}
    (hname : splitName? name = some (none, name)) (hes : Grows scope depth es nodes) :
    Grows scope (depth + 1) (.opening name [] :: (es ++ [.closing name]))
      [.element ⟨scope.namespace? none, name⟩ nodes] := by
  intro top outer root last hscope hdepth
  -- the level of the element is opened, grows, and is closed into the one around it
  have hbegin : scope.begin name [] = some ⟨⟨scope.namespace? none, name⟩, scope, []⟩ := by
    simp [Scope.begin, Scope.declareAll, Scope.tag, Scope.onAttributes, hname, Remark.when]
  have hopen : Growth.step ⟨top :: outer, root, last⟩ (.opening name [])
      = some ⟨⟨some name, ⟨scope.namespace? none, name⟩, scope, []⟩ :: top :: outer, root, last⟩ := by
    show Growth.open? _ _ _ = _
    rw [Growth.open?, if_neg (by simp; omega), if_neg (by simp)]
    simp only [hscope, hbegin]
    rfl
  have hinside := hes ⟨some name, ⟨scope.namespace? none, name⟩, scope, []⟩ (top :: outer) root last
    rfl (by simp; omega)
  rw [List.foldlM_cons, hopen]
  show (es ++ [Event.closing name]).foldlM Growth.step _ = _
  rw [List.foldlM_append, hinside]
  simp [Growth.step, Growth.close?, Growth.add?, Element.node]

end Grows

/-! ### Content -/

/-- Content between the tags of an element without attributes. -/
def wrapped (name : String) (s : List Char) : List Char :=
  ("<" ++ name ++ ">").toList ++ s ++ ("</" ++ name ++ ">").toList

/-- Markup that adds the nodes to the element in which it stands. -/
def Content (scope : Scope) (depth : Nat) (s : List Char) (nodes : List Node) : Prop :=
  ∃ ps es, Piece.Spells s ps ∧ Means ps es ∧ Grows scope depth es nodes

namespace Content

variable {scope : Scope} {depth : Nat} {s t : List Char} {nodes more : List Node}

theorem nil : Content scope depth [] [] :=
  ⟨[], [], .nil, fun _ _ _ _ => rfl, .nil _ _⟩

theorem append (hs : Content scope depth s nodes) (ht : Content scope depth t more)
    (hopens : Piece.Opens t) : Content scope depth (s ++ t) (nodes ++ more) := by
  obtain ⟨ps, es, hspells, hmeans, hgrows⟩ := hs
  obtain ⟨qs, fs, hspells', hmeans', hgrows'⟩ := ht
  exact ⟨_, _, hspells.append hspells' hopens, hmeans.append hmeans', hgrows.append hgrows'⟩

theorem escapeChar_append {c : Char} (h : c = '&' ∨ c = '<' ∨ c = '>' ∨ c = '\r')
    (ht : Content scope depth t more) :
    Content scope depth (escapeChar c ++ t) (.text [c] :: more) := by
  obtain ⟨ps, es, hspells, hmeans, hgrows⟩ := ht
  have hreference : ∀ {c : Char} (name : String), escapeChar c ≠ [] →
      (∀ rest, Piece.scan (escapeChar c ++ rest) = some (.reference name, rest)) →
      (name, c) ∈ Entities.predefined → Content scope depth (escapeChar c ++ t) (.text [c] :: more) :=
    fun name hne hscan hname =>
      ⟨_, _, hspells.cons hne hscan, (Means.reference hname).append hmeans,
        (Grows.text _ _).append hgrows⟩
  rcases h with rfl | rfl | rfl | rfl
  · exact hreference "amp" (by decide) (fun _ => rfl) (by decide)
  · exact hreference "lt" (by decide) (fun _ => rfl) (by decide)
  · exact hreference "gt" (by decide) (fun _ => rfl) (by decide)
  · have hscan : ∀ rest, Piece.scan (escapeChar '\r' ++ rest) = some (.coded '\r', rest) :=
      fun _ => rfl
    exact ⟨_, _, hspells.cons (by decide) hscan, (Means.coded _).append hmeans,
      (Grows.text _ _).append hgrows⟩

theorem opens_escapeChar {c : Char} (h : c = '&' ∨ c = '<' ∨ c = '>' ∨ c = '\r') (s : List Char) :
    Piece.Opens (escapeChar c ++ s) := by
  rcases h with rfl | rfl | rfl | rfl <;> exact fun c hc => .inr (Option.some.inj hc).symm

/-- A run of characters that are written as they are. -/
theorem run {r : List Char} (hr : ∀ c ∈ r, c ≠ '<' ∧ c ≠ '&' ∧ c ≠ '>') :
    ∃ texts : List (List Char), texts.flatten = r ∧ Content scope depth r (texts.map .text) := by
  by_cases hne : r = []
  · rw [hne]
    exact ⟨[], rfl, nil⟩
  · exact ⟨[r], List.flatten_singleton, _, _, .single hne fun rest => Piece.scan_text hne hr,
      .text _, .text _ _⟩

theorem run_escape {r : List Char} (hr : ∀ c ∈ r, c ≠ '<' ∧ c ≠ '&' ∧ c ≠ '>') (s : List Char) :
    ∃ texts : List (List Char), texts.flatten = r ++ s ∧
      Content scope depth (r ++ escape s) (texts.map .text) := by
  -- the run grows until a character is met that is not written as it is
  induction s generalizing r with
  | nil =>
    rw [List.append_nil]
    obtain ⟨texts, htexts, hcontent⟩ := @run scope depth r hr
    exact ⟨texts, htexts, by rwa [escape, List.flatMap_nil, List.append_nil]⟩
  | cons c s ih =>
    have hescape : escape (c :: s) = escapeChar c ++ escape s := List.flatMap_cons
    by_cases h : c = '&' ∨ c = '<' ∨ c = '>' ∨ c = '\r'
    · obtain ⟨front, hfront, hrun⟩ := @run scope depth r hr
      obtain ⟨texts, htexts, hmore⟩ := ih (r := []) (by simp)
      refine ⟨front ++ [c] :: texts, ?_, ?_⟩
      · rw [List.flatten_append, List.flatten_cons, hfront, htexts]
        rfl
      · rw [hescape, List.map_append, List.map_cons]
        exact hrun.append (escapeChar_append h hmore) (opens_escapeChar h _)
    · obtain ⟨hand, hless, hgreater, hreturn⟩ : c ≠ '&' ∧ c ≠ '<' ∧ c ≠ '>' ∧ c ≠ '\r' := by
        simpa only [not_or] using h
      have hplain : escapeChar c = [c] := by
        simp [escapeChar, hand, hless, hgreater, hreturn]
      obtain ⟨texts, htexts, hcontent⟩ := ih (r := r ++ [c]) (by
        intro d hd
        rcases List.mem_append.mp hd with hd | hd
        · exact hr d hd
        · rw [List.mem_singleton.mp hd]
          exact ⟨hless, hand, hgreater⟩)
      rw [List.append_assoc] at htexts hcontent
      rw [hescape, hplain]
      exact ⟨texts, htexts, hcontent⟩

/-- Text comes back whatever it holds. -/
theorem escape (s : List Char) :
    ∃ texts : List (List Char), texts.flatten = s ∧ Content scope depth (escape s) (texts.map .text) :=
  run_escape (r := []) (by simp) s

/-- An element without attributes adds itself with what its content adds to it. -/
theorem element {name : String} (hname : isName name.toList = true)
    (hplain : splitName? name = some (none, name)) (hs : Content scope depth s nodes) :
    Content scope (depth + 1) (wrapped name s)
      [.element ⟨scope.namespace? none, name⟩ nodes] := by
  obtain ⟨ps, es, hspells, hmeans, hgrows⟩ := hs
  have hbegin : ("<" ++ name ++ ">").toList = '<' :: (name.toList ++ ['>']) := by simp
  have hend : ("</" ++ name ++ ">").toList = '<' :: '/' :: (name.toList ++ ['>']) := by simp
  have hclosing : Piece.Spells ('<' :: '/' :: (name.toList ++ ['>'])) [.closing name] := by
    refine .single (by simp) fun rest _ => ?_
    rw [List.cons_append, List.cons_append, List.append_assoc]
    exact Piece.scan_closingTag hname rest
  rw [wrapped, hbegin, hend, List.append_assoc]
  refine ⟨_, _, (hspells.append hclosing (by simp [Piece.Opens])).cons (by simp) fun rest => ?_,
    (Means.opening false (Means.ofTag_plain name)).append (hmeans.append (.closing name)),
    hgrows.element hplain⟩
  rw [List.cons_append, List.append_assoc]
  exact Piece.scan_tag hname rest

theorem emptyElement {name : String} (hname : isName name.toList = true)
    (hplain : splitName? name = some (none, name)) :
    Content scope (depth + 1) ("<" ++ name ++ "/>").toList
      [.element ⟨scope.namespace? none, name⟩ []] := by
  have hwritten : ("<" ++ name ++ "/>").toList = '<' :: (name.toList ++ ['/', '>']) := by simp
  refine ⟨_, _, .single (by simp) fun rest _ => ?_,
    Means.opening true (Means.ofTag_plain name), (Grows.nil _ _).element hplain⟩
  rw [hwritten, List.cons_append, List.append_assoc]
  exact Piece.scan_emptyTag hname rest

end Content

end NetconfWire.Xml
