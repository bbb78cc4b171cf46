/-
Namespaces in force.

A tag may declare namespaces, for prefixes or by default; they hold inside its
element.  The names of elements and attributes are resolved by the declarations
in force.  Declarations that misuse the reserved prefixes or namespaces do not
hold, and faults of names are remarked.
-/
import NetconfWire.Text.Blank
import NetconfWire.Xml.Event
import NetconfWire.Xml.Node
import NetconfWire.Xml.Uri

namespace NetconfWire.Xml

/-- The namespaces in force by prefix, the innermost first; no prefix stands for the default. -/
abbrev Scope := List (Option String × String)

/-- The address of a reserved namespace. -/
def reservedNamespace (year name : String) : String :=
  "http:" ++ "//" ++ "www.w3.org/" ++ year ++ "/" ++ name

/-- The namespace of the prefix `xml`. -/
def xmlNamespace : String :=
  reservedNamespace "XML/1998" "namespace"

/-- The namespace of the prefix `xmlns`. -/
def xmlnsNamespace : String :=
  reservedNamespace "2000" "xmlns/"

/-- A prefix, if there is one, and a base name. -/
def splitName? (name : String) : Option (Option String × String) :=
  match name.toList.splitOn ':' with
  | [base] => if isPlainName base then some (none, name) else none
  | [front, base] =>
    if isPlainName front && isPlainName base then
      some (some (String.ofList front), String.ofList base)
    else none
  | _ => none

namespace Scope

/-- The namespace of a prefix, or the default one. -/
def namespace? (scope : Scope) (front : Option String) : Option String :=
  if front = some "xml" then some xmlNamespace
  else
    match scope.find? (·.1 == front) with
    | some (_, uri) => if uri.isEmpty then none else some uri
    | none => none

/-- A declaration of the default namespace: whether it holds, and the remarks on it. -/
def onDefault (uri : String) : Bool × List Remark :=
  let form := match uriForm? uri.toList with
    | none => [.error]
    | some .relative => Remark.when (!uri.isEmpty) .warning
    | some .absolute => []
  let reserved := uri == xmlNamespace || uri == xmlnsNamespace
  (!reserved, form ++ Remark.when reserved .error)

/-- A declaration of the namespace of a prefix: whether it holds, and the remarks on it. -/
def onPrefix (front uri : String) : Bool × List Remark :=
  if front == "xml" then (false, Remark.when (uri != xmlNamespace) .error)
  else if uri == xmlNamespace || front == "xmlns" || uri == xmlnsNamespace || uri.isEmpty then
    (false, [.error])
  else (true, Remark.when (uriForm? uri.toList).isNone .error)

/-- What an attribute is: a declaration of a namespace, or an attribute by prefix and base name. -/
inductive Role
  | declaration (front : Option String)
  | plain (front : Option String) (base : String)
  deriving DecidableEq

/-- The role of an attribute with the given name. -/
def role (name : String) : Role :=
  match splitName? name with
  | some (none, "xmlns") => .declaration none
  | some (some "xmlns", base) => .declaration (some base)
  | some (front, base) => .plain front base
  | none => .plain none name

/-- Puts an attribute into force if it declares a namespace; attributes by default are not
remarked on. -/
def declare (scope : Scope) (a : Attribute) : Scope × List Remark :=
  let uri := String.ofList a.value
  let named := Remark.when (splitName? a.name).isNone .error
  match role a.name with
  | .declaration front =>
    let (holds, remarks) := match front with
      | none => onDefault uri
      | some p => onPrefix p uri
    if a.given then (if holds then (front, uri) :: scope else scope, named ++ remarks)
    else ((front, uri) :: scope, [])
  | .plain (some "xml") "space" =>
    (scope, named ++ Remark.when (uri != "default" && uri != "preserve") .warning)
  | .plain _ _ => (scope, named)

/-- Puts attributes into force, one after another. -/
def declareAll (scope : Scope) : List Attribute → Scope × List Remark
  | [] => (scope, [])
  | a :: rest =>
    let (scope', remarks) := declare scope a
    let (final, more) := declareAll scope' rest
    (final, remarks ++ more)

/-- The remarks on attributes whose prefix is unknown, whose resolved names agree, or that identify
their element by what is no name. -/
def onAttributes (scope : Scope) (attributes : List Attribute) : List Remark :=
  let plain := attributes.filterMap fun a =>
    match role a.name with
    | .plain front base => some (a, front, base)
    | .declaration _ => none
  let resolved := plain.map fun (_, front, base) =>
    (front.bind fun p => namespace? scope (some p), base)
  let unknown := plain.any fun (_, front, _) =>
    front.any fun p => (namespace? scope (some p)).isNone
  let misidentified := plain.any fun (a, front, base) =>
    front == some "xml" && base == "id" && !isPlainName (Text.trimBoth isBlank a.value)
  Remark.when (unknown || resolved.eraseDups.length != resolved.length || misidentified) .error

/-- The name of an element in a scope, and the remarks on it. -/
def tag (scope : Scope) (name : String) : Tag × List Remark :=
  match splitName? name with
  | none => (⟨namespace? scope none, name⟩, [])
  | some (none, base) => (⟨namespace? scope none, base⟩, [])
  | some (some front, base) =>
    match namespace? scope (some front) with
    | some uri => (⟨some uri, base⟩, [])
    | none => (⟨none, name⟩, [.error])

end Scope

/-- An element that begins: its name, the scope inside it, and the remarks on its tag. -/
structure Beginning where
  tag : Tag
  scope : Scope
  remarks : List Remark
  deriving Repr

/-- Begins an element; two attributes of one name are refused. -/
def Scope.begin (scope : Scope) (name : String) (attributes : List Attribute) : Option Beginning :=
  let names := attributes.map (·.name)
  if names.eraseDups.length != names.length then none
  else
    let onName := Remark.when (splitName? name).isNone .error
    let (inside, onDeclarations) := scope.declareAll attributes
    let (tag, onTag) := inside.tag name
    some ⟨tag, inside, onName ++ onDeclarations ++ inside.onAttributes attributes ++ onTag⟩

end NetconfWire.Xml
