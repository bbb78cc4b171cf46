/-
Elements and what they hold.

The name of an element is a namespace and a base name.  The text of an element
is what stands before its first child element, comment or processing
instruction; an element that begins with one of those, or is empty, has none.
-/

namespace NetconfWire.Xml

/-- The name of an element: its namespace, if it has one, and its base name. -/
structure Tag where
  space : Option String
  base : String
  deriving DecidableEq, Repr

/-- A name with its namespace in braces before it. -/
def Tag.written (t : Tag) : String :=
  match t.space with
  | some space => "\x7b" ++ space ++ "\x7d" ++ t.base
  | none => t.base

/-- What an element holds. -/
inductive Node
  | element (tag : Tag) (children : List Node)
  | text (s : List Char)
  /-- A comment, a processing instruction or an unknown entity. -/
  | aside
  deriving Repr

/-- An element. -/
structure Element where
  tag : Tag
  children : List Node
  deriving Repr

namespace Element

/-- The element as a node. -/
def node (e : Element) : Node :=
  .element e.tag e.children

/-- The child elements with the given name, in order. -/
def below (e : Element) (tag : Tag) : List Element :=
  e.children.filterMap fun
    | .element t children => if t = tag then some ⟨t, children⟩ else none
    | _ => none

/-- The texts that stand before anything else. -/
def leadingTexts : List Node → List (List Char)
  | .text s :: rest => s :: leadingTexts rest
  | _ => []

/-- The text of the element, if it begins with text. -/
def text? (e : Element) : Option (List Char) :=
  match leadingTexts e.children with
  | [] => none
  | texts => some texts.flatten

end Element

end NetconfWire.Xml
