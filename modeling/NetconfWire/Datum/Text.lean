/-
The text of a value.

`display` is the text of a value on its own: text stands as it is.  `quoted` is
the text of a value inside another one and in messages: text stands in quotes.
Neither is made of a value with an integer that has too many digits
(`isWritable`).
-/
import NetconfWire.Datum.Basic
import NetconfWire.Number.Numeral
import NetconfWire.Number.Shortest
import NetconfWire.Text.Quoted

namespace NetconfWire.Datum

/-- Texts with a comma and a space between them. -/
def commaSeparated (parts : List String) : String :=
  String.intercalate ", " parts

mutual

/-- The text of a value, with text in quotes. -/
def quoted : Datum → String
  | null => "None"
  | truth b => if b then "True" else "False"
  | integer n => String.ofList (Numeral.signed n)
  | real x => x.toText
  | text s => Text.quoted s
  | octets .frozen b => b.quoted
  | octets .growable b => "bytearray(" ++ b.quoted ++ ")"
  | octets .view _ => "<memory>"
  | list items => "[" ++ commaSeparated (quotedItems items) ++ "]"
  | table entries => "\x7b" ++ commaSeparated (quotedEntries entries) ++ "\x7d"
  | version v => "<ProtocolVersion." ++ v.name ++ ": " ++ Text.quoted v.label ++ ">"

/-- The texts of the members of a list. -/
def quotedItems : List Datum → List String
  | [] => []
  | x :: xs => quoted x :: quotedItems xs

/-- The texts of the entries of a table. -/
def quotedEntries : List (String × Datum) → List String
  | [] => []
  | (k, x) :: xs => (Text.quoted k ++ ": " ++ quoted x) :: quotedEntries xs

end

mutual

/-- No integer in the value has more digits than are written. -/
def isWritable : Datum → Bool
  | integer n => (Numeral.decimal n.natAbs).length ≤ Numeral.digitLimit
  | list items => areWritable items
  | table entries => areEntriesWritable entries
  | _ => true

/-- All members of a list are writable. -/
def areWritable : List Datum → Bool
  | [] => true
  | x :: xs => isWritable x && areWritable xs

/-- All entries of a table are writable. -/
def areEntriesWritable : List (String × Datum) → Bool
  | [] => true
  | (_, x) :: xs => isWritable x && areEntriesWritable xs

end

/-- The text of a value, with text as it stands. -/
def display : Datum → String
  | text s => s
  | version v => "ProtocolVersion." ++ v.name
  | d => d.quoted

end NetconfWire.Datum
