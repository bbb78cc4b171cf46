/-
A link with a window on what comes in.

Waiting for a boundary looks at the window, and reads from the link until the
boundary is found, the window exceeds its limit, or the stream ends.  What comes
after the boundary stays in the window, and so does everything when a wait fails.

* `Line.waitFor` gives the frame up to a boundary.
* `Line.waitForOctets`, `Line.waitForText` and `Line.waitForPattern` wait for a
  delimiter, a text and a match.
-/
import NetconfWire.Journal.Note
import NetconfWire.Link.Basic
import NetconfWire.Window.Basic
import NetconfWire.Window.Boundary

namespace NetconfWire

/-- A look at the window: how many octets were held, and how many of them had been searched. -/
structure Look where
  held : Nat
  searched : Nat
  deriving DecidableEq, Repr

/-- A link with a window. -/
structure Line (κ : Type) where
  link : κ
  window : Window
  /-- The notes so far, the latest first. -/
  journal : List Note
  /-- The looks of the last wait, the latest first. -/
  looks : List Look

/-- Work on a line, which keeps the changes made before a fault. -/
abbrev LineTask (κ α : Type) := EStateM Fault (Line κ) α

namespace Line

variable {κ α : Type} [Link κ]

/-- A line on which nothing has happened. -/
def fresh (link : κ) (window : Window) : Line κ :=
  ⟨link, window, [], []⟩

/-- Adds a note. -/
def note (l : Line κ) (n : Note) : Line κ :=
  { l with journal := n :: l.journal }

/-- Adds a look at the window. -/
def look (l : Line κ) (searched : Nat) : Line κ :=
  { l with looks := ⟨l.window.held.length, searched⟩ :: l.looks }

/-- Adds octets that were received to the window. -/
def take (l : Line κ) (link : κ) (b : Octets) : Line κ :=
  { l with link, window := l.window.extend b }

/-- Looks and reads until the boundary is found; the first `searched` octets were searched
before. -/
def waitFrom (boundary : Boundary α) (searched : Nat) (l : Line κ) :
    EStateM.Result Fault (Line κ) (Octets × α) :=
  match boundary l.window.held searched with
  | .error f => .error f (l.look searched)
  | .ok (some (stop, found)) =>
    let (frame, window) := l.window.cut stop
    .ok (frame, found) { l.look searched with window }
  | .ok none =>
    let n := l.window.held.length
    if l.window.limit < n then .error (.frameTooLarge n l.window.limit) (l.look searched)
    else
      match Link.receive l.window.quantum l.link with
      | (.error f, link) => .error f.fault { l.look searched with link }
      | (.ok [], link) =>
        .error (.frameIncomplete n) (({ l.look searched with link }).note (.streamEnded n))
      | (.ok (x :: rest), link) =>
        waitFrom boundary n ((l.look searched).take link (x :: rest))
termination_by l.window.limit + 1 - l.window.held.length
decreasing_by
  simp only [take, look, Window.extend, List.length_append, List.length_cons]
  omega

/-- Waits for a boundary; gives the frame up to it, and what the test has found. -/
def waitFor (boundary : Boundary α) : LineTask κ (Octets × α) := fun l =>
  waitFrom boundary 0 { l with looks := [] }

/-- Waits for a delimiter; gives the octets before it. -/
def waitForOctets (delimiter : Octets) : LineTask κ Octets := do
  MonadExcept.ofExcept (Boundary.checkDelimiter delimiter)
  let (frame, _) ← waitFor (Boundary.ofDelimiter delimiter)
  return frame.take (frame.length - delimiter.length)

/-- Waits for a text in a charset; gives the text before it. -/
def waitForText (text : String) (charset : Charset) : LineTask κ String := do
  let delimiter ← MonadExcept.ofExcept ((charset.encode text).mapError Fault.charset)
  let frame ← waitForOctets delimiter
  MonadExcept.ofExcept ((charset.decode frame).mapError Fault.charset)

/-- The boundary test for a match of the pattern that a value holds. -/
def patternBoundary (given : Datum) : Except Fault (Boundary (List (Option Octets))) :=
  match given with
  | .text s =>
    match Regex.read true s.toList with
    | .ok _ => .ok Boundary.ofTextPattern
    | .error why => .error (.pattern s.toList why)
  | .octets .frozen b =>
    let source := b.toText.toList
    match Regex.read false source with
    | .ok r => .ok (Boundary.ofPattern r)
    | .error why => .error (.pattern source why)
  | _ => .error (if given.isFilable then .notAPattern else .unfilable given.kindName)

/-- Waits for a match of a pattern; gives the octets up to its end, and what its groups captured. -/
def waitForPattern (given : Datum) : LineTask κ (Octets × List (Option Octets)) := do
  let boundary ← MonadExcept.ofExcept (patternBoundary given)
  waitFor boundary

end Line

end NetconfWire
