/-
Building the tree of a document from its events.

The elements that have begun and not ended form a stack; the text of an entity
is a level of the stack too, so that an element ends where it began.  Inside of
the text of an entity only the namespaces declared there are in force.
-/
import NetconfWire.Xml.Scope

namespace NetconfWire.Xml

/-- A level of the stack: an element by its written name, or the text of an entity. -/
structure Level where
  name : Option String
  tag : Tag
  scope : Scope
  /-- What the level holds so far, the latest first. -/
  content : List Node
  deriving Repr

/-- A tree in the making. -/
structure Growth where
  /-- The levels that have not ended, the innermost first. -/
  levels : List Level
  root : Option Element
  lastRemark : Option Remark
  deriving Repr

namespace Growth

/-- The greatest number of levels. -/
def maxDepth : Nat := 256

/-- Nothing has been read but the remarks on what lies before the content. -/
def start (remarks : List Remark) : Growth :=
  ⟨[], none, Remark.lastOf none remarks⟩

/-- Adds a node to the innermost level. -/
def add? (g : Growth) (n : Node) : Option Growth :=
  match g.levels with
  | [] => none
  | top :: rest => some { g with levels := { top with content := n :: top.content } :: rest }

/-- Begins an element. -/
def open? (g : Growth) (name : String) (attributes : List Attribute) : Option Growth :=
  if maxDepth ≤ g.levels.length then none
  else if g.levels.isEmpty && g.root.isSome then none
  else
    let scope : Scope := match g.levels with
      | [] => []
      | top :: _ => top.scope
    (scope.begin name attributes).map fun b =>
      { g with
        levels := ⟨some name, b.tag, b.scope, []⟩ :: g.levels
        lastRemark := Remark.lastOf g.lastRemark b.remarks }

/-- Ends the innermost element, which must have the given name. -/
def close? (g : Growth) (name : String) : Option Growth :=
  match g.levels with
  | [] => none
  | top :: rest =>
    if top.name = some name then
      let e : Element := ⟨top.tag, top.content.reverse⟩
      match rest with
      | [] => some { g with levels := [], root := some e }
      | _ => { g with levels := rest }.add? e.node
    else none

/-- Ends the text of an entity; what it holds goes to the level around it. -/
def leave? (g : Growth) : Option Growth :=
  match g.levels with
  | top :: next :: rest =>
    if top.name.isNone then
      some { g with levels := { next with content := top.content ++ next.content } :: rest }
    else none
  | _ => none

/-- Takes one event. -/
def step (g : Growth) (event : Event) : Option Growth :=
  match event with
  | .opening name attributes => g.open? name attributes
  | .closing name => g.close? name
  | .text s written =>
    if g.levels.isEmpty then if written && s.all isBlank then some g else none
    else g.add? (.text s)
  | .aside => if g.levels.isEmpty then some g else g.add? .aside
  | .unknown => g.add? .aside
  | .enter =>
    if g.levels.isEmpty then none
    else some { g with levels := ⟨none, ⟨none, ""⟩, [], []⟩ :: g.levels }
  | .leave => g.leave?
  | .remark r => some { g with lastRemark := some r }

/-- The root element, when everything has ended and the last remark is not about a fault. -/
def finish (g : Growth) : Option Element :=
  if g.levels.isEmpty && g.lastRemark != some .error then g.root else none

end Growth

/-- The root element of the tree that the events build. -/
def Element.ofEvents (remarks : List Remark) (events : List Event) : Option Element :=
  (events.foldlM Growth.step (Growth.start remarks)).bind Growth.finish

end NetconfWire.Xml
