/-
Matching by backtracking.

A pattern is matched at a cursor, which splits the subject into the octets
passed and the octets ahead and holds what the groups have captured.  `run`
takes what has to match afterwards as a function, and tries the alternatives of
the pattern in order until that function succeeds.

A repetition starts no further round where its last one started, so that rounds
that consume nothing end it.
-/
import NetconfWire.Pattern.Syntax

namespace NetconfWire

/-- The lower case form of an ASCII letter; any other code as it is. -/
def lowerCode (n : Nat) : Nat :=
  if 65 ≤ n && n ≤ 90 then n + 32 else n

/-- The upper case form of an ASCII letter; any other code as it is. -/
def upperCode (n : Nat) : Nat :=
  if 97 ≤ n && n ≤ 122 then n - 32 else n

/-- The octet is of this kind. -/
def OctetKind.has (k : OctetKind) (n : Nat) : Bool :=
  match k with
  | .digit => 48 ≤ n && n ≤ 57
  | .space => n == 32 || (9 ≤ n && n ≤ 13)
  | .word => (48 ≤ n && n ≤ 57) || (65 ≤ n && n ≤ 90) || (97 ≤ n && n ≤ 122) || n == 95

/-- The code lies in the part as it stands. -/
def ClassPart.has (part : ClassPart) (n : Nat) : Bool :=
  match part with
  | .code m => n == m
  | .range lo hi => lo ≤ n && n ≤ hi
  | .kind k negated => k.has n != negated

/-- The class takes the octet. -/
def OctetClass.has (c : OctetClass) (x : UInt8) : Bool :=
  let n := x.toNat
  let inside :=
    if c.folded then
      c.parts.any fun part => part.has (lowerCode n) || part.has (upperCode (lowerCode n))
    else c.parts.any fun part => part.has n
  inside != c.negated

/-- A place in the subject, with what the groups have captured so far. -/
structure Cursor where
  /-- The octets before the place, the nearest first. -/
  passed : Octets
  /-- The octets after it. -/
  ahead : Octets
  captures : List (Option Octets)
  deriving DecidableEq, Repr

namespace Cursor

/-- The octets between this place and a later one. -/
def upTo (s later : Cursor) : Octets :=
  s.ahead.take (s.ahead.length - later.ahead.length)

/-- Moves over `n` octets. -/
def skip (s : Cursor) (n : Nat) : Cursor :=
  { s with passed := (s.ahead.take n).reverse ++ s.passed, ahead := s.ahead.drop n }

/-- Moves back over `n` octets. -/
def back? (s : Cursor) (n : Nat) : Option Cursor :=
  if n ≤ s.passed.length then
    some { s with passed := s.passed.drop n, ahead := (s.passed.take n).reverse ++ s.ahead }
  else none

/-- An octet that is there and a word octet. -/
def isWord (x : Option UInt8) : Bool :=
  x.any fun b => OctetKind.word.has b.toNat

/-- The condition holds here. -/
def meets (s : Cursor) : Anchor → Bool
  | .start => s.passed.isEmpty
  | .lineStart => s.passed.isEmpty || s.passed.head? == some 10
  | .stop => s.ahead.isEmpty
  | .lastLine => s.ahead.isEmpty || s.ahead == [10]
  | .lineStop => s.ahead.isEmpty || s.ahead.head? == some 10
  | .wordEdge => isWord s.passed.head? != isWord s.ahead.head?
  | .noWordEdge =>
    !(s.passed.isEmpty && s.ahead.isEmpty) && isWord s.passed.head? == isWord s.ahead.head?

/-- What the group captured last. -/
def captured? (s : Cursor) (index : Nat) : Option Octets :=
  (s.captures[index]?).join

end Cursor

namespace Pattern

/-- What has to match after a pattern. -/
abbrev Next := Cursor → Option Cursor

/-- One round of a repetition. -/
abbrev Round := Cursor → Next → Option Cursor

/-- Exactly `n` rounds. -/
def exactly (round : Round) : Nat → Cursor → Next → Option Cursor
  | 0, s, next => next s
  | n + 1, s, next => round s fun s' => exactly round n s' next

/-- At most `fuel` further rounds, as many as possible; `last` is the number of octets that were
ahead where the round before began. -/
def atMost (round : Round) : Nat → Option Nat → Cursor → Next → Option Cursor
  | 0, _, s, next => next s
  | fuel + 1, last, s, next =>
    if last = some s.ahead.length then next s
    else
      match round s fun s' => atMost round fuel (some s.ahead.length) s' next with
      | some done => some done
      | none => next s

/-- At most `fuel` further rounds, as few as possible. -/
def asFew (round : Round) : Nat → Option Nat → Cursor → Next → Option Cursor
  | 0, _, s, next => next s
  | fuel + 1, last, s, next =>
    match next s with
    | some done => some done
    | none =>
      if last = some s.ahead.length then none
      else round s fun s' => asFew round fuel (some s.ahead.length) s' next

/-- The number of rounds that can differ beyond the least number, from a given cursor on: no more
than are allowed, and one for each place ahead. -/
def spareRounds (least : Nat) (most : Option Nat) (s : Cursor) : Nat :=
  match most with
  | some m => min (m - least) (s.ahead.length + 1)
  | none => s.ahead.length + 1

/-- Equality of octets, with or without regard to case. -/
def sameOctets (folded : Bool) (a b : Octets) : Bool :=
  if folded then a.map (lowerCode ·.toNat) == b.map (lowerCode ·.toNat) else a == b

/-- Matches a pattern here and what follows it afterwards; the result is the cursor at the end. -/
def run : Pattern → Round
  | empty, s, next => next s
  | one c, s, next =>
    match s.ahead with
    | [] => none
    | x :: _ => if c.has x then next (s.skip 1) else none
  | anchor a, s, next => if s.meets a then next s else none
  | seq p q, s, next => run p s fun s' => run q s' next
  | alt p q, s, next =>
    match run p s next with
    | some done => some done
    | none => run q s next
  | group index p, s, next =>
    run p s fun s' => next { s' with captures := s'.captures.set index (some (s.upTo s')) }
  | repeated .greedy least most p, s, next =>
    exactly (run p) least s fun s' => atMost (run p) (spareRounds least most s') none s' next
  | repeated .lazy least most p, s, next =>
    exactly (run p) least s fun s' => asFew (run p) (spareRounds least most s') none s' next
  | repeated .possessive least most p, s, next =>
    let round : Round := fun s next => (run p s some).bind next
    exactly round least s fun s' => (atMost round (spareRounds least most s') none s' some).bind next
  | backReference index folded, s, next =>
    match s.captured? index with
    | none => none
    | some b =>
      if b.length ≤ s.ahead.length && sameOctets folded b (s.ahead.take b.length) then
        next (s.skip b.length)
      else none
  | look wanted back p, s, next =>
    let found := (s.back? (back.getD 0)).bind fun s' => run p s' some
    match found with
    | some done => if wanted then next { s with captures := done.captures } else none
    | none => if wanted then none else next s
  | atomic p, s, next => (run p s some).bind next
  | whether index p q, s, next =>
    if (s.captured? index).isSome then run p s next else run q s next

end Pattern

/-- A match: the index after its last octet, and what each group captured. -/
structure RegexMatch where
  stop : Nat
  captures : List (Option Octets)
  deriving DecidableEq, Repr

namespace Regex

/-- The match that starts after the octets passed, of which there are `n`. -/
def matchAt (r : Regex) (n : Nat) (passed ahead : Octets) : Option RegexMatch :=
  let start : Cursor := ⟨passed, ahead, List.replicate (r.groups + 1) none⟩
  (r.tree.run start some).map fun done => ⟨n + (start.upTo done).length, done.captures.drop 1⟩

/-- Tries each start in turn, from the place after the `n` octets passed on. -/
def searchFrom (r : Regex) (n : Nat) (passed : Octets) : Octets → Option RegexMatch
  | [] => r.matchAt n passed []
  | x :: rest =>
    match r.matchAt n passed (x :: rest) with
    | some m => some m
    | none => searchFrom r (n + 1) (x :: passed) rest

/-- The first match in the subject. -/
def search (r : Regex) (subject : Octets) : Option RegexMatch :=
  r.searchFrom 0 [] subject

end Regex

end NetconfWire
