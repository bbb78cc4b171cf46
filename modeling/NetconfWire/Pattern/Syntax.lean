/-
Search patterns over octets.

A pattern is a tree.  Flags are resolved when a pattern is read, so that each
leaf says by itself what it accepts: whether letters match without regard to
case, and whether an anchor looks at lines or at the whole subject.
-/
import NetconfWire.Octets.Basic

namespace NetconfWire

/-- A kind of octet that a class can name. -/
inductive OctetKind
  | digit
  | space
  | word
  deriving DecidableEq, Repr

/-- A part of a class of octets. -/
inductive ClassPart
  | code (n : Nat)
  | range (lo hi : Nat)
  | kind (k : OctetKind) (negated : Bool)
  deriving DecidableEq, Repr

/-- A class of octets: those in one of its parts, or those in none; `folded` classes take letters
without regard to case. -/
structure OctetClass where
  negated : Bool
  parts : List ClassPart
  folded : Bool
  deriving DecidableEq, Repr

/-- A condition on a place in the subject. -/
inductive Anchor
  /-- The start of the subject. -/
  | start
  /-- The start of a line. -/
  | lineStart
  /-- The end of the subject. -/
  | stop
  /-- The end of the subject, or before a line feed that ends it. -/
  | lastLine
  /-- The end of a line. -/
  | lineStop
  /-- Between a word octet and another one. -/
  | wordEdge
  /-- Between two word octets or two others. -/
  | noWordEdge
  deriving DecidableEq, Repr

/-- In which order a repetition tries its counts. -/
inductive Hunger
  /-- The greatest count first. -/
  | greedy
  /-- The least count first. -/
  | lazy
  /-- The greatest count only. -/
  | possessive
  deriving DecidableEq, Repr

/-- A search pattern. -/
inductive Pattern
  | empty
  | one (c : OctetClass)
  | anchor (a : Anchor)
  | seq (p q : Pattern)
  | alt (p q : Pattern)
  | group (index : Nat) (p : Pattern)
  | repeated (hunger : Hunger) (least : Nat) (most : Option Nat) (p : Pattern)
  /-- What the group captured last. -/
  | backReference (index : Nat) (folded : Bool)
  /-- The pattern matches here, or does not, without consuming anything; with a distance it starts
  that many octets back. -/
  | look (wanted : Bool) (back : Option Nat) (p : Pattern)
  /-- The first match of the pattern only. -/
  | atomic (p : Pattern)
  /-- The first pattern if the group has captured something, else the second. -/
  | whether (index : Nat) (p q : Pattern)
  deriving DecidableEq, Repr

namespace Pattern

/-- The number of octets that every match consumes, where that is one number; `captured` gives it
for the groups. -/
def fixedWidth? (captured : Nat → Option Nat) : Pattern → Option Nat
  | empty => some 0
  | one _ => some 1
  | anchor _ => some 0
  | seq p q => do return (← p.fixedWidth? captured) + (← q.fixedWidth? captured)
  | alt p q => do
    let a ← p.fixedWidth? captured
    let b ← q.fixedWidth? captured
    if a = b then some a else none
  | group _ p => p.fixedWidth? captured
  | repeated _ least most p =>
    if most = some 0 then some 0
    else do
      let a ← p.fixedWidth? captured
      if a = 0 then some 0 else if most = some least then some (a * least) else none
  | backReference index _ => captured index
  | look _ _ _ => some 0
  | atomic p => p.fixedWidth? captured
  | whether _ p q => do
    let a ← p.fixedWidth? captured
    let b ← q.fixedWidth? captured
    if a = b then some a else none

/-- Why a pattern that is written as it should be cannot be searched for. -/
inductive Obstacle
  /-- It is a template, in which nothing is repeated. -/
  | repetition (hunger : Hunger)
  /-- It is to be looked for backwards and has no fixed width. -/
  | unevenLook
  deriving DecidableEq, Repr

/-- The first obstacle in a pattern, outer ones before inner ones and else from the left. -/
def obstacle? (template : Bool) (captured : Nat → Option Nat) : Pattern → Option Obstacle
  | seq p q | alt p q | whether _ p q =>
    (p.obstacle? template captured).or (q.obstacle? template captured)
  | group _ p | atomic p | look _ none p => p.obstacle? template captured
  | repeated hunger _ _ p =>
    if template then some (.repetition hunger) else p.obstacle? template captured
  | look _ (some _) p =>
    if (p.fixedWidth? captured).isNone then some .unevenLook else p.obstacle? template captured
  | empty | one _ | anchor _ | backReference _ _ => none

end Pattern

/-- A pattern ready for use: its tree and the number of its groups. -/
structure Regex where
  tree : Pattern
  groups : Nat
  deriving DecidableEq, Repr

end NetconfWire
