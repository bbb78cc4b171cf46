/-
References to resources.

`uriForm?` tells whether a text is a reference, and whether it names its scheme.
A reference is built from unreserved characters, octets in hexadecimal after a
percent sign, and the delimiters that its parts allow; no character beyond ASCII
stands in one.
-/
import NetconfWire.Text.Hex
import NetconfWire.Xml.Char

namespace NetconfWire.Xml

/-- How a reference names its resource. -/
inductive UriForm
  /-- By scheme. -/
  | absolute
  /-- In relation to another resource. -/
  | relative
  deriving DecidableEq, Repr

namespace Uri

/-- A character that stands for itself or delimits within any part. -/
def isPlain (c : Char) : Bool :=
  isLetter c || isDigit c || "-._~!$&'()*+,;=".toList.contains c

/-- A character of a path segment. -/
def isSegmentChar (c : Char) : Bool :=
  isPlain c || c == ':' || c == '@'

/-- Drops the characters that satisfy `allowed` and octets in hexadecimal from the front. -/
def skip (allowed : Char → Bool) : List Char → List Char
  | '%' :: a :: b :: rest =>
    if (Text.hexValue? a).isSome && (Text.hexValue? b).isSome then skip allowed rest
    else '%' :: a :: b :: rest
  | c :: rest => if allowed c then skip allowed rest else c :: rest
  | [] => []

/-- What follows the path is a query, a fragment, both or nothing. -/
def endsWell (s : List Char) : Bool :=
  let afterQuery := match s with
    | '?' :: rest => skip (fun c => isSegmentChar c || c == '/' || c == '?') rest
    | _ => s
  match afterQuery with
  | '#' :: rest =>
    (skip (fun c => isSegmentChar c || "/?[]".toList.contains c) rest).isEmpty
  | rest => rest.isEmpty

/-- A number that an octet of an address may be, and what follows it. -/
def addressPart? (s : List Char) : Option (List Char) :=
  let digits := s.takeWhile isDigit
  let n := digits.foldl (fun n d => 10 * n + (d.toNat - 48)) 0
  if digits.isEmpty || 3 < digits.length || 255 < n || (digits.head? == some '0' && 1 < digits.length)
  then none
  else some (s.dropWhile isDigit)

/-- Drops an address of four numbers, if the text begins with one. -/
def skipAddress? (s : List Char) : Option (List Char) := do
  let dot : List Char → Option (List Char)
    | '.' :: rest => some rest
    | _ => none
  let s ← dot (← addressPart? s)
  let s ← dot (← addressPart? s)
  let s ← dot (← addressPart? s)
  addressPart? s

/-- Drops the host from the front: a literal in brackets, an address, or a name. -/
def skipHost (s : List Char) : Option (List Char) :=
  match s with
  | '[' :: rest =>
    match rest.dropWhile (· != ']') with
    | ']' :: behind => some behind
    | _ => none
  | _ => some ((skipAddress? s).getD (skip isPlain s))

/-- The greatest number of a port. -/
def maxPort : Nat := 2147483647

/-- Drops the authority from the front: a user, a host and a port, of which only the host must be
there. -/
def skipAuthority (s : List Char) : Option (List Char) := do
  let host := match skip (fun c => isPlain c || c == ':') s with
    | '@' :: behind => behind
    | _ => s
  match ← skipHost host with
  | ':' :: rest =>
    let digits := rest.takeWhile isDigit
    if digits.isEmpty || maxPort < digits.foldl (fun n d => 10 * n + (d.toNat - 48)) 0 then none
    else some (rest.dropWhile isDigit)
  | rest => some rest

/-- The text is a path, after an authority if there is one, and what may follow. -/
def isHierarchy (s : List Char) : Bool :=
  let pathEnd := skip fun c => isSegmentChar c || c == '/'
  match s with
  | '/' :: '/' :: rest =>
    match skipAuthority rest with
    | some [] => true
    | some (c :: behind) => if c == '/' then endsWell (pathEnd behind) else endsWell (c :: behind)
    | none => false
  | _ => endsWell (pathEnd s)

/-- What follows the scheme, if the text begins with one. -/
def afterScheme? (s : List Char) : Option (List Char) :=
  if s.head?.any isLetter then
    match s.dropWhile fun c => isLetter c || isDigit c || c == '+' || c == '-' || c == '.' with
    | ':' :: rest => some rest
    | _ => none
  else none

/-- The first segment of the path has a colon. -/
def colonFirst (s : List Char) : Bool :=
  match skip (fun c => isPlain c || c == '@') s with
  | ':' :: _ => true
  | _ => false

end Uri

/-- The form of a reference, if the text is one. -/
def uriForm? (s : List Char) : Option UriForm :=
  if ((Uri.afterScheme? s).map Uri.isHierarchy).getD false then some .absolute
  else if !Uri.colonFirst s && Uri.isHierarchy s then some .relative
  else none

end NetconfWire.Xml
