/-
Character sets: how text becomes octets and octets become text.

UTF-8 takes every character.  Latin-1 and ASCII take the first 256 and the
first 128, one octet each; a run of characters that they cannot take is reported
as a whole.
-/
import NetconfWire.Text.Quoted
import NetconfWire.Text.Utf8
import NetconfWire.Number.Numeral

namespace NetconfWire

/-- A character set. -/
inductive Charset
  | utf8
  | latin1
  | ascii
  deriving DecidableEq, Repr

/-- Why text could not be encoded, or octets not be decoded; `start` is the first index concerned
and `stop` the index after the last one. -/
inductive CharsetFault
  | unencodable (charset : Charset) (first : Char) (start stop : Nat)
  | undecodable (charset : Charset) (first : UInt8) (start stop : Nat) (defect : Option Utf8.Defect)
  deriving DecidableEq, Repr

namespace Charset

/-- The name of a character set. -/
def name : Charset → String
  | utf8 => "utf-8"
  | latin1 => "latin-1"
  | ascii => "ascii"

/-- The number of characters that a set of single octets has. -/
def size : Charset → Nat
  | utf8 => 0x110000
  | latin1 => 256
  | ascii => 128

/-- Encodes text one octet a character; the first character has index `n`. -/
def encodeSingle (charset : Charset) (n : Nat) : List Char → Except CharsetFault Octets
  | [] => .ok []
  | c :: rest =>
    if c.toNat < charset.size then
      (encodeSingle charset (n + 1) rest).map (c.toNat.toUInt8 :: ·)
    else
      let run := (rest.takeWhile fun d => charset.size ≤ d.toNat).length
      .error (.unencodable charset c n (n + 1 + run))

/-- Decodes octets one character each; the first octet has index `n`. -/
def decodeSingle (charset : Charset) (n : Nat) : Octets → Except CharsetFault (List Char)
  | [] => .ok []
  | b :: rest =>
    if b.toNat < charset.size then
      (decodeSingle charset (n + 1) rest).map (Char.ofNat b.toNat :: ·)
    else .error (.undecodable charset b n (n + 1) none)

/-- The octets of a text. -/
def encode (charset : Charset) (s : String) : Except CharsetFault Octets :=
  match charset with
  | utf8 => .ok (Utf8.encode s.toList)
  | _ => encodeSingle charset 0 s.toList

/-- The text of octets. -/
def decode (charset : Charset) (b : Octets) : Except CharsetFault String :=
  match charset with
  | utf8 =>
    match Utf8.decode b with
    | .ok s => .ok (String.ofList s)
    | .error f => .error (.undecodable utf8 f.first f.start f.stop (some f.defect))
  | _ => (decodeSingle charset 0 b).map String.ofList

end Charset

namespace CharsetFault

/-- Digits of an index or size. -/
def digits (n : Nat) : String :=
  String.ofList (Numeral.decimal n)

/-- What is wrong, in words. -/
def reason : CharsetFault → String
  | unencodable charset _ _ _ => "ordinal not in range(" ++ digits charset.size ++ ")"
  | undecodable _ _ _ _ (some .invalidStart) => "invalid start byte"
  | undecodable _ _ _ _ (some .invalidContinuation) => "invalid continuation byte"
  | undecodable _ _ _ _ (some .truncated) => "unexpected end of data"
  | undecodable charset _ _ _ none => "ordinal not in range(" ++ digits charset.size ++ ")"

/-- Where it is: one index, or the first and the last of several. -/
def place (one several : String) (start stop : Nat) : String :=
  if stop = start + 1 then one ++ " in position " ++ digits start
  else several ++ " in position " ++ digits start ++ "-" ++ digits (stop - 1)

/-- The text of a charset fault. -/
def message (f : CharsetFault) : String :=
  match f with
  | unencodable charset first start stop =>
    "'" ++ charset.name ++ "' codec can't encode "
      ++ place ("character '" ++ String.ofList (Text.codeEscape first.toNat) ++ "'") "characters"
        start stop
      ++ ": " ++ f.reason
  | undecodable charset first start stop _ =>
    "'" ++ charset.name ++ "' codec can't decode "
      ++ place ("byte 0x" ++ String.ofList (Text.hexDigits 2 first.toNat)) "bytes" start stop
      ++ ": " ++ f.reason

end CharsetFault

end NetconfWire
