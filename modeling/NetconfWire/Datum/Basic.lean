/-
Values of any kind.

Callers may hand a value of any kind to the few operations whose refusals
depend on what they were given: the framing version, a payload, the
capabilities and the session id of a `<hello>`.  `Datum` is that value.

* `same` is equality of values: numbers are compared across kinds, octets
  across containers, tables without regard to order.
* `items?` lists what a value yields when it is gone through one by one.
-/
import NetconfWire.Frame.Version
import NetconfWire.Number.Binary64
import NetconfWire.Octets.Basic

namespace NetconfWire

/-- How a value holds its octets. -/
inductive OctetStore
  | frozen
  | growable
  | view
  deriving DecidableEq, Repr

/-- A value of any kind. -/
inductive Datum
  | null
  | truth (b : Bool)
  | integer (n : Int)
  | real (x : Binary64)
  | text (s : String)
  | octets (store : OctetStore) (b : Octets)
  | list (items : List Datum)
  | table (entries : List (String × Datum))
  | version (v : Version)
  deriving Repr, Inhabited

namespace Datum

/-- The name of a value's kind. -/
def kindName : Datum → String
  | null => "NoneType"
  | truth _ => "bool"
  | integer _ => "int"
  | real _ => "float"
  | text _ => "str"
  | octets .frozen _ => "bytes"
  | octets .growable _ => "bytearray"
  | octets .view _ => "memoryview"
  | list _ => "list"
  | table _ => "dict"
  | version _ => "ProtocolVersion"

/-- Zeros, empty values, the false truth value and null count as absent. -/
def isAbsent : Datum → Bool
  | null => true
  | truth b => !b
  | integer n => n == 0
  | real x => x.isZero
  | text s => s.isEmpty
  | octets _ b => b.isEmpty
  | list items => items.isEmpty
  | table entries => entries.isEmpty
  | version _ => false

/-- What a value yields when it is gone through: characters, octets, members or keys. -/
def items? : Datum → Option (List Datum)
  | text s => some (s.toList.map fun c => text (String.ofList [c]))
  | octets _ b => some (b.map fun x => integer x.toNat)
  | list items => some items
  | table entries => some (entries.map fun e => text e.1)
  | _ => none

/-- A value as a number, if it is one. -/
inductive Quantity
  | exact (n : Int)
  | approximate (x : Binary64)

/-- The number that a value is, truth values included. -/
def quantity? : Datum → Option Quantity
  | truth b => some (.exact (if b then 1 else 0))
  | integer n => some (.exact n)
  | real x => some (.approximate x)
  | _ => none

/-- Equality of numbers across kinds. -/
def Quantity.same : Quantity → Quantity → Bool
  | .exact a, .exact b => a == b
  | .exact a, .approximate x => x.integer? == some a
  | .approximate x, .exact a => x.integer? == some a
  | .approximate x, .approximate y => x.same y

mutual

/-- Equality of values. -/
def same : Datum → Datum → Bool
  | null, null => true
  | text s, text t => s == t
  | octets _ a, octets _ b => a == b
  | version v, version w => v == w
  | list xs, list ys => sameItems xs ys
  | table xs, table ys => xs.length == ys.length && sameEntries xs ys
  | a, b =>
    match a.quantity?, b.quantity? with
    | some p, some q => p.same q
    | _, _ => false

/-- Equality of sequences, member by member. -/
def sameItems : List Datum → List Datum → Bool
  | [], [] => true
  | x :: xs, y :: ys => same x y && sameItems xs ys
  | _, _ => false

/-- Every entry of the first table stands in the second one. -/
def sameEntries : List (String × Datum) → List (String × Datum) → Bool
  | [], _ => true
  | (k, x) :: xs, ys =>
    (match ys.find? fun e => e.1 == k with
      | some e => same x e.2
      | none => false) && sameEntries xs ys

end

/-- Values that may change have no stable identity and cannot be filed by it. -/
def isFilable : Datum → Bool
  | octets .growable _ => false
  | list _ => false
  | table _ => false
  | _ => true

end Datum

end NetconfWire
