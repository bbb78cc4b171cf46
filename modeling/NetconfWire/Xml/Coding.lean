/-
How the octets of a document stand for its characters.

The first octets may announce the coding: a byte order mark, or the first two
characters of a declaration in sixteen-bit units.  Otherwise the declaration
names the coding, and without a name it is UTF-8.

These are codings that every reader knows.  Readers that know more of them have another
`Decoding`.
-/
import NetconfWire.Text.Charset
import NetconfWire.Xml.Declaration

namespace NetconfWire.Xml

/-- What the octets of documents stand for, where that is known. -/
abbrev Decoding := Octets → Option (List Char)

/-- A coding of documents. -/
inductive Coding
  | charset (c : Charset)
  | utf16 (bigEndian : Bool)
  deriving DecidableEq, Repr

namespace Coding

/-- The coding that the first octets announce, and the octets behind a byte order mark.  Fewer than
four octets announce nothing. -/
def announced? (b : Octets) : Option (Coding × Octets) :=
  match b with
  | 0xEF :: 0xBB :: 0xBF :: x :: rest => some (.charset .utf8, x :: rest)
  | 0xFE :: 0xFF :: x :: y :: rest => some (.utf16 true, x :: y :: rest)
  | 0xFF :: 0xFE :: x :: y :: rest => some (.utf16 false, x :: y :: rest)
  | 0x00 :: 0x3C :: 0x00 :: 0x3F :: _ => some (.utf16 true, b)
  | 0x3C :: 0x00 :: 0x3F :: 0x00 :: _ => some (.utf16 false, b)
  | _ => none

/-- The names of the codings that a declaration may give, in lower case. -/
def names : List (String × Coding) :=
  [("utf-8", .charset .utf8), ("utf8", .charset .utf8),
   ("iso-8859-1", .charset .latin1), ("iso8859-1", .charset .latin1),
   ("iso_8859-1", .charset .latin1), ("iso-ir-100", .charset .latin1),
   ("iso-latin-1", .charset .latin1), ("latin1", .charset .latin1), ("l1", .charset .latin1),
   ("us-ascii", .charset .ascii), ("ascii", .charset .ascii), ("us", .charset .ascii)]

/-- The coding with the given name, in letters of either case. -/
def ofName? (name : String) : Option Coding :=
  (names.find? fun n => n.1 == name.toLower).map (·.2)

/-- Joins octets into units of sixteen bits. -/
def units (bigEndian : Bool) : Octets → Option (List Nat)
  | [] => some []
  | [_] => none
  | a :: b :: rest =>
    let unit := if bigEndian then a.toNat * 256 + b.toNat else b.toNat * 256 + a.toNat
    (units bigEndian rest).map (unit :: ·)

/-- The characters of sixteen-bit units; two surrogates make one character. -/
def joinSurrogates : List Nat → Option (List Char)
  | [] => some []
  | u :: rest =>
    if u < 0xD800 || 0xDFFF < u then (joinSurrogates rest).map (Char.ofNat u :: ·)
    else
      match rest with
      | v :: rest =>
        if u < 0xDC00 && 0xDC00 ≤ v && v ≤ 0xDFFF then
          (joinSurrogates rest).map
            (Char.ofNat (0x10000 + (u - 0xD800) * 0x400 + (v - 0xDC00)) :: ·)
        else none
      | [] => none

/-- The characters that the octets stand for. -/
def decode (coding : Coding) (b : Octets) : Option (List Char) :=
  match coding with
  | charset c => (c.decode b).toOption.map String.toList
  | utf16 bigEndian => (units bigEndian b).bind joinSurrogates

/-- The coding that the declaration names, if there is a declaration; it is read octet by octet. -/
def declared? (b : Octets) : Option Coding :=
  match Declaration.scanIfThere (b.map fun x => Char.ofNat x.toNat) with
  | some (some ⟨some name, _⟩, _) => ofName? name
  | some _ => some (.charset .utf8)
  | none => none

/-- The characters of a document. -/
def characters? : Decoding := fun b =>
  match announced? b with
  | some (coding, rest) => coding.decode rest
  | none => (declared? b).bind fun coding => coding.decode b

end Coding

end NetconfWire.Xml
