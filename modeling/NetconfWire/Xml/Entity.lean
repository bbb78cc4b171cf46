/-
Entities and the values that refer to them.

A reference to a declared entity stands for the text of the entity.  How deep
references may nest and how much text they may yield in all is limited; an
entity outside of the document is refused.  A reference to an entity that is not
declared is refused too, unless its declaration may be elsewhere.
-/
import NetconfWire.Xml.Piece

namespace NetconfWire.Xml

/-- An entity. -/
inductive Entity
  /-- A text of the document. -/
  | internal (text : List Char)
  /-- A resource outside of the document, markup or not. -/
  | external
  deriving DecidableEq, Repr

/-- What a reference stands for. -/
inductive Referent
  | character (c : Char)
  | text (s : List Char)
  /-- Nothing that the document knows of. -/
  | unknown
  deriving DecidableEq, Repr

/-- The entities of a document; `complete` means that all of them are known. -/
structure Entities where
  declared : List (String × Entity)
  complete : Bool
  deriving Repr

namespace Entities

/-- The entities that need no declaration. -/
def predefined : List (String × Char) :=
  [("lt", '<'), ("gt", '>'), ("amp", '&'), ("quot", '"'), ("apos", '\'')]

/-- What a reference to the entity stands for, unless it is refused. -/
def referent? (e : Entities) (name : String) : Option Referent :=
  match predefined.find? (·.1 == name) with
  | some (_, c) => some (.character c)
  | none =>
    match e.declared.find? (·.1 == name) with
    | some (_, .internal s) => some (.text s)
    | some (_, .external) => none
    | none => if e.complete then none else some .unknown

end Entities

/-- Work that may yield only so much text from entities; the state is what is left. -/
abbrev Thrift := StateT Nat Option

namespace Thrift

/-- The cost of a reference apart from its text. -/
def referenceCost : Nat := 20

/-- The amount of text that any document may yield. -/
def free : Nat := 1000000

/-- The amount that a document of the given size may yield. -/
def allowance (size : Nat) : Nat :=
  max free (5 * size + 4)

/-- Pays for the text of a reference. -/
def pay (text : List Char) : Thrift Unit := fun left =>
  let cost := text.length + referenceCost
  if left < cost then none else some ((), left - cost)

end Thrift

/-- The number of references that may nest. -/
def maxNesting : Nat := 20

namespace Entities

/-- The characters of a value, given what the text of an entity yields.  White space becomes spaces;
nothing stands in the place of an unknown entity. -/
def expandPieces (e : Entities) (nested : List Char → Thrift (List (Option Char)))
    (pieces : List Piece) : Thrift (List (Option Char)) := do
  let parts ← pieces.mapM fun p => do
    match p with
    | .text s => return s.map fun c => some (if isBlank c then ' ' else c)
    | .coded c => return [some c]
    | .reference name =>
      match ← e.referent? name with
      | .character c => return [some c]
      | .text s =>
        Thrift.pay s
        if s.contains '<' then failure
        nested s
      | .unknown => return [none]
    | _ => failure
  return parts.flatten

/-- The characters of a value in which references nest at most so deep. -/
def expandWithin (e : Entities) : Nat → List Char → Thrift (List (Option Char))
  | 0, s => do e.expandPieces (fun _ => failure) (← Piece.ofValue s)
  | depth + 1, s => do e.expandPieces (e.expandWithin depth) (← Piece.ofValue s)

/-- The characters of a value. -/
def expand (e : Entities) (s : List Char) : Thrift (List (Option Char)) :=
  e.expandWithin maxNesting s

end Entities

end NetconfWire.Xml
