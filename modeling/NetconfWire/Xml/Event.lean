/-
Events of a document: its content with the references resolved.

The text of an entity is cut into pieces of its own, whose events stand between
an `enter` and a `leave`.  Attribute values are expanded, and attributes that are
not given but have a default follow those that are.
-/
import NetconfWire.Xml.Dtd

namespace NetconfWire.Xml

/-- An attribute of an element; `given` means that the tag has it. -/
structure Attribute where
  name : String
  value : List Char
  given : Bool
  deriving DecidableEq, Repr

/-- An event of a document. -/
inductive Event
  | opening (name : String) (attributes : List Attribute)
  | closing (name : String)
  /-- Text; `written` means that it stands in the document itself and not behind markup. -/
  | text (s : List Char) (written : Bool)
  /-- A comment or a processing instruction. -/
  | aside
  /-- The place of an entity that is not known. -/
  | unknown
  /-- The text of an entity begins. -/
  | enter
  /-- The text of an entity ends. -/
  | leave
  | remark (r : Remark)
  deriving DecidableEq, Repr

namespace Event

/-- The events of an opening tag. -/
def ofTag (d : Dtd) (name : String) (attributes : List (String × List Char)) :
    Thrift (List Event) := do
  let rules := d.rules.filter (·.element == name)
  let rule? := fun n => rules.find? (·.name == n)
  let values ← attributes.mapM fun a => d.general.expand a.2
  let given := (attributes.zip values).map fun (a, value) =>
    let value := value.filterMap id
    let tokenized := ((rule? a.1).map (·.tokenized)).getD false
    Attribute.mk a.1 (if tokenized then Dtd.joinTokens value else value) true
  let others := (rules.map (·.name)).eraseDups.filter fun n => !attributes.any (·.1 == n)
  let defaults := others.filterMap fun n =>
    ((rule? n).bind (·.fallback)).map fun value => Attribute.mk n value false
  return (Remark.when (values.any (·.contains none)) .error).map remark
    ++ [opening name (given ++ defaults)]

/-- The events of pieces, given those of the text of an entity. -/
def ofPiecesWith (d : Dtd) (nested : List Char → Thrift (List Event)) (pieces : List Piece) :
    Thrift (List Event) := do
  let each ← pieces.mapM fun p => do
    match p with
    | .opening name attributes isEmpty =>
      return (← ofTag d name attributes) ++ (if isEmpty then [closing name] else [])
    | .closing name => return [closing name]
    | .text s => return [text s true]
    | .coded c => return [text [c] false]
    | .verbatim s => return [text s false]
    | .comment => return [aside]
    | .instruction target => return (Remark.onTarget target).map remark ++ [aside]
    | .reference name =>
      match ← d.general.referent? name with
      | .character c => return [text [c] false]
      | .text s =>
        Thrift.pay s
        return enter :: (← nested s) ++ [leave]
      | .unknown => return [remark .error, unknown]
  return each.flatten

/-- The events of content in which references nest at most so deep. -/
def ofContentWithin (d : Dtd) : Nat → List Char → Thrift (List Event)
  | 0, s => do ofPiecesWith d (fun _ => failure) (← Piece.ofContent s)
  | depth + 1, s => do
    ofPiecesWith d (fun text => ofContentWithin d depth (unifyLineEnds text)) (← Piece.ofContent s)

/-- The events of content. -/
def ofContent (d : Dtd) (s : List Char) : Option (List Event) :=
  (ofContentWithin d maxNesting s d.allowance).map (·.1)

end Event

end NetconfWire.Xml
