/-
UTF-8.

`encode` writes characters as octets.  `decode` reads them back; where it
cannot, it reports the octets from the start of the bad sequence up to the first
one that does not fit, and what is wrong there.
-/
import NetconfWire.Octets.Basic

namespace NetconfWire.Utf8

/-- What is wrong with a sequence of octets. -/
inductive Defect
  /-- No character starts with this octet. -/
  | invalidStart
  /-- The octet after these does not continue the character. -/
  | invalidContinuation
  /-- The octets end before the character does. -/
  | truncated
  deriving DecidableEq, Repr

/-- A bad sequence: its first octet, its first index, the index after its last octet, and its
defect. -/
structure Fault where
  first : UInt8
  start : Nat
  stop : Nat
  defect : Defect
  deriving DecidableEq, Repr

/-- The octets of one character. -/
def encodeChar (c : Char) : Octets :=
  let n := c.toNat
  if n < 0x80 then [n.toUInt8]
  else if n < 0x800 then [(0xC0 + n / 64).toUInt8, (0x80 + n % 64).toUInt8]
  else if n < 0x10000 then
    [(0xE0 + n / 4096).toUInt8, (0x80 + n / 64 % 64).toUInt8, (0x80 + n % 64).toUInt8]
  else
    [(0xF0 + n / 262144).toUInt8, (0x80 + n / 4096 % 64).toUInt8, (0x80 + n / 64 % 64).toUInt8,
      (0x80 + n % 64).toUInt8]

/-- The octets of a text. -/
def encode (s : List Char) : Octets :=
  s.flatMap encodeChar

/-- The octet continues a character. -/
def isTail (b : UInt8) : Bool :=
  0x80 ≤ b && b ≤ 0xBF

/-- The value that a continuing octet adds. -/
def tailBits (b : UInt8) : Nat :=
  b.toNat - 0x80

/-- The octets that may come second in a character with the given first octet: those that keep
the character in its shortest form, out of the surrogates and within Unicode. -/
def isSecond (first second : UInt8) : Bool :=
  if first == 0xE0 then 0xA0 ≤ second && second ≤ 0xBF
  else if first == 0xED then 0x80 ≤ second && second ≤ 0x9F
  else if first == 0xF0 then 0x90 ≤ second && second ≤ 0xBF
  else if first == 0xF4 then 0x80 ≤ second && second ≤ 0x8F
  else isTail second

/-- Reads characters; the first octet has index `n`. -/
def decodeFrom (n : Nat) : Octets → Except Fault (List Char)
  | [] => .ok []
  | a :: rest =>
    if a < 0x80 then (decodeFrom (n + 1) rest).map (Char.ofNat a.toNat :: ·)
    else if a < 0xC2 || 0xF4 < a then .error ⟨a, n, n + 1, .invalidStart⟩
    else
      match rest with
      | [] => .error ⟨a, n, n + 1, .truncated⟩
      | b :: rest =>
        if !isSecond a b then .error ⟨a, n, n + 1, .invalidContinuation⟩
        else if a < 0xE0 then
          (decodeFrom (n + 2) rest).map (Char.ofNat ((a.toNat - 0xC0) * 64 + tailBits b) :: ·)
        else
          match rest with
          | [] => .error ⟨a, n, n + 2, .truncated⟩
          | c :: rest =>
            if !isTail c then .error ⟨a, n, n + 2, .invalidContinuation⟩
            else if a < 0xF0 then
              (decodeFrom (n + 3) rest).map
                (Char.ofNat ((a.toNat - 0xE0) * 4096 + tailBits b * 64 + tailBits c) :: ·)
            else
              match rest with
              | [] => .error ⟨a, n, n + 3, .truncated⟩
              | d :: rest =>
                if !isTail d then .error ⟨a, n, n + 3, .invalidContinuation⟩
                else
                  (decodeFrom (n + 4) rest).map
                    (Char.ofNat ((a.toNat - 0xF0) * 262144 + tailBits b * 4096
                      + tailBits c * 64 + tailBits d) :: ·)

/-- Reads the characters that the octets encode. -/
def decode (b : Octets) : Except Fault (List Char) :=
  decodeFrom 0 b

end NetconfWire.Utf8
