/-
The document type declaration.

Its internal subset declares entities and attributes with defaults; element and
notation declarations are read for their form only.  A reference to a parameter
entity stands for declarations.  External subsets and external entities are not
read.

* `Dtd.scan` reads a declaration after its first word.
-/
import NetconfWire.Xml.Entity
import NetconfWire.Xml.Remark

namespace NetconfWire.Xml

/-- What is declared of an attribute: whether its value is a row of tokens, and its default. -/
structure AttributeRule where
  element : String
  name : String
  tokenized : Bool
  fallback : Option (List Char)
  deriving DecidableEq, Repr

/-- What a document type declaration says; of several declarations of one name the first holds. -/
structure Dtd where
  entities : List (String × Entity)
  parameters : List (String × Entity)
  rules : List AttributeRule
  /-- There is an external subset. -/
  hasExternal : Bool
  /-- Parameter entities are referred to. -/
  hasParameters : Bool
  /-- The document is declared to stand alone. -/
  standalone : Bool
  /-- How much text entities may still yield. -/
  allowance : Nat
  remarks : List Remark
  deriving Repr

namespace Dtd

/-- A document without declarations. -/
def none (standalone : Bool) (allowance : Nat) : Dtd :=
  ⟨[], [], [], false, false, standalone, allowance, []⟩

/-- All entities are declared in the document itself. -/
def isComplete (d : Dtd) : Bool :=
  d.standalone || (!d.hasExternal && !d.hasParameters)

/-- The entities of the document. -/
def general (d : Dtd) : Entities :=
  ⟨d.entities, d.isComplete⟩

/-- Scanning with a growing document type declaration. -/
abbrev Subset := StateT Dtd Scan

/-- Adds a remark if it applies. -/
def remark (applies : Bool) (r : Remark) : Subset Unit :=
  modify fun d => { d with remarks := d.remarks ++ Remark.when applies r }

/-- A name, on which a remark is made if it has a colon. -/
def plainName : Subset String := do
  let n ← Scan.name
  remark (n.toList.contains ':') .error
  return n

/-- A character of a public identifier. -/
def isPublicChar (c : Char) : Bool :=
  isLetter c || isDigit c || " \n-'()+,./:=?;!*#@$_%".toList.contains c

/-- The location of an external resource, if one is given; `optional` means that a public identifier
may stand alone. -/
def location (optional : Bool) : Scan (Option (List Char)) := do
  if ← Scan.tries "SYSTEM" then
    Scan.gap
    return some (← Scan.quoted)
  else if ← Scan.tries "PUBLIC" then
    Scan.gap
    let identifier ← Scan.quoted
    if !identifier.all isPublicChar then failure
    let spaced ← Scan.blanks
    let quote := (← Scan.sees "\"") || (← Scan.sees "'")
    if optional && !(spaced && quote) then return some []
    if !spaced then failure
    return some (← Scan.quoted)
  else return Option.none

/-- The location of an external entity, which has no fragment. -/
def entityLocation : Scan Unit := do
  match ← location false with
  | some place => if place.contains '#' then failure
  | Option.none => failure

/-- The text of an entity: codes become characters, and references stay. -/
def entityText (s : List Char) : Option (List Char) := do
  let parts ← (← Piece.ofValue s).mapM fun
    | .text s => if s.contains '%' then failure else some s
    | .coded c => some [c]
    | .reference name => some ('&' :: name.toList ++ [';'])
    | _ => failure
  return parts.flatten

/-- The value of an entity: a text, or the place of a resource. -/
def entityValue (isParameter : Bool) : Scan Entity := do
  if (← Scan.sees "\"") || (← Scan.sees "'") then
    return .internal (← entityText (← Scan.quoted))
  else
    entityLocation
    let spaced ← Scan.blanks
    if !isParameter && (← Scan.tries "NDATA") then
      if !spaced then failure
      Scan.gap
      let _ ← Scan.name
    return .external

/-- The declaration of an entity, after its first word. -/
def entityDeclaration : Subset Unit := do
  Scan.gap
  let isParameter ← Scan.tries "%"
  if isParameter then Scan.gap
  let name ← plainName
  Scan.gap
  let value ← entityValue isParameter
  modify fun d =>
    if isParameter then { d with parameters := d.parameters ++ [(name, value)] }
    else { d with entities := d.entities ++ [(name, value)] }

/-- Members in parentheses, after the opening one, with the same sign between any two; the sign is
the first of `signs` that stands behind the first member. -/
def members (signs : List String) (member : Scan Unit) : Scan Unit := do
  let spacedMember : Scan Unit := do
    let _ ← Scan.blanks
    member
    let _ ← Scan.blanks
  spacedMember
  let front ← get
  match signs.find? fun sign => sign.toList.isPrefixOf front with
  | some sign =>
    let _ ← Scan.many do
      if ← Scan.tries sign then
        spacedMember
        return some ()
      else return Option.none
  | Option.none => pure ()
  Scan.word ")"

/-- How often a particle may occur, if that is said. -/
def occurrence : Scan Unit := do
  if ← Scan.tries "?" then return
  else if ← Scan.tries "*" then return
  else let _ ← Scan.tries "+"

/-- A particle of a content model: a name, or a group of particles with one sign between them. -/
def particle : Nat → Scan Unit
  | 0 => failure
  | depth + 1 => do
    if ← Scan.tries "(" then members ["|", ","] (particle depth)
    else discard Scan.name
    occurrence

/-- The greatest depth of a content model. -/
def maxParticleDepth : Nat := 128

/-- A content model of text and elements, after the word `#PCDATA`. -/
def mixedRest : Scan Unit := do
  let names ← Scan.many do
    let _ ← Scan.blanks
    if ← Scan.tries "|" then
      let _ ← Scan.blanks
      return some (← Scan.name)
    else return Option.none
  Scan.word ")"
  if names.isEmpty then let _ ← Scan.tries "*"
  else Scan.word "*"

/-- A content model of text and elements. -/
def mixed : Scan Unit := do
  Scan.word "("
  let _ ← Scan.blanks
  Scan.word "#PCDATA"
  mixedRest

/-- The declaration of an element, after its first word. -/
def elementDeclaration : Scan Unit := do
  Scan.gap
  let _ ← Scan.name
  Scan.gap
  if ← Scan.tries "EMPTY" then return
  else if ← Scan.tries "ANY" then return
  else if !(← Scan.sees "(") then failure
  else fun s => mixed s <|> particle maxParticleDepth s

/-- The types of attributes that are single words, those that begin like another before it. -/
def typeWords : List String :=
  ["IDREFS", "IDREF", "ID", "ENTITIES", "ENTITY", "NMTOKENS", "NMTOKEN"]

/-- The type of an attribute; tells whether its values are rows of tokens. -/
def attributeType : Scan Bool := do
  if ← Scan.tries "CDATA" then return false
  for w in typeWords do
    if ← Scan.tries w then return true
  if ← Scan.tries "NOTATION" then
    Scan.gap
    Scan.word "("
    members ["|"] (discard Scan.name)
    return true
  Scan.word "("
  members ["|"] (discard (Scan.someRun isNameChar))
  return true

/-- Blanks at the ends of a row of tokens are dropped, and runs of them become one. -/
def joinTokens (s : List Char) : List Char :=
  [' '].intercalate ((s.splitOn ' ').filter fun token => !token.isEmpty)

/-- The default of an attribute, if it has one. -/
def fallback (tokenized : Bool) : Subset (Option (List Char)) := do
  if ← Scan.tries "#REQUIRED" then return Option.none
  else if ← Scan.tries "#IMPLIED" then return Option.none
  else
    if ← Scan.tries "#FIXED" then Scan.gap
    let value ← Scan.quoted
    if value.contains '<' then failure
    let d ← get
    let (parts, left) ← d.general.expand value d.allowance
    set { d with allowance := left }
    remark (parts.contains Option.none) .error
    let value := parts.filterMap id
    return some (if tokenized then joinTokens value else value)

/-- The declaration of one attribute of an element, if there is another one. -/
def attributeRule (element : String) : Subset (Option Unit) := do
  let spaced ← Scan.blanks
  if ← Scan.sees ">" then return Option.none
  else
    if !spaced then failure
    let name ← Scan.name
    Scan.gap
    let tokenized ← attributeType
    Scan.gap
    let value ← fallback tokenized
    modify fun d => { d with rules := d.rules ++ [⟨element, name, tokenized, value⟩] }
    return some ()

/-- Results of `step`, until it gives none; at most `fuel` of them. -/
def repeatWithin (step : Subset (Option Unit)) : Nat → Subset Unit
  | 0 => failure
  | fuel + 1 => do
    if (← step).isSome then repeatWithin step fuel

/-- Repeats a step that takes a character off until it gives no result. -/
def repeatStep (step : Subset (Option Unit)) : Subset Unit := fun d s =>
  repeatWithin step (s.length + 1) d s

/-- The declaration of the attributes of an element, after its first word. -/
def attributeDeclaration : Subset Unit := do
  Scan.gap
  let element ← Scan.name
  repeatStep (attributeRule element)

/-- The declaration of a notation, after its first word. -/
def notationDeclaration : Subset Unit := do
  Scan.gap
  let _ ← plainName
  Scan.gap
  if (← location true).isNone then failure

/-- The declarations that a parameter entity stands for; `read` takes them from its text. -/
def parameterReference (read : List Char → Subset Unit) : Subset Unit := do
  let name ← Scan.entityName
  modify fun d => { d with hasParameters := true }
  let d ← get
  match d.parameters.find? (·.1 == name) with
  | some (_, .internal text) =>
    let (_, left) ← Thrift.pay text d.allowance
    set { d with allowance := left }
    read text
  | some (_, .external) => failure
  | Option.none =>
    if d.standalone then failure
    remark true .warning

/-- A declaration, after `<!`. -/
def declaration : Subset Unit := do
  if ← Scan.tries "ENTITY" then entityDeclaration
  else if ← Scan.tries "ELEMENT" then elementDeclaration
  else if ← Scan.tries "ATTLIST" then attributeDeclaration
  else
    Scan.word "NOTATION"
    notationDeclaration
  let _ ← Scan.blanks
  Scan.word ">"

/-- One part of the internal subset; `read` takes declarations from the text of an entity. -/
def part (read : List Char → Subset Unit) : Subset Unit := do
  if ← Scan.tries "<!--" then discard Piece.comment?
  else if ← Scan.tries "<?" then
    match ← Piece.instruction? with
    | .instruction target =>
      modify fun d => { d with remarks := d.remarks ++ Remark.onTarget target }
    | _ => failure
  else if ← Scan.tries "%" then parameterReference read
  else
    Scan.word "<!"
    declaration

/-- Parts of the internal subset up to its end. -/
def parts (read : List Char → Subset Unit) (isEnd : Scan Bool) : Subset Unit :=
  repeatStep do
    let _ ← Scan.blanks
    if ← isEnd then return Option.none
    part read
    return some ()

/-- The declarations in the text of a parameter entity, in which references nest at most so deep. -/
def textParts : Nat → List Char → Subset Unit
  | 0, _ => failure
  | depth + 1, text => fun d s =>
    match parts (textParts depth) Scan.atEnd d (unifyLineEnds text) with
    | some ((_, d'), []) => some (((), d'), s)
    | _ => Option.none

/-- Scans a document type declaration after its first word. -/
def scan : Subset Unit := do
  Scan.gap
  let _ ← Scan.name
  let spaced ← Scan.blanks
  if let some _ ← location false then
    if !spaced then failure
    modify fun d => { d with hasExternal := true }
  let _ ← Scan.blanks
  if ← Scan.tries "[" then
    parts (textParts maxNesting) (Scan.sees "]")
    Scan.word "]"
    let _ ← Scan.blanks
  Scan.word ">"

end Dtd

end NetconfWire.Xml
