/-
Quoted text and quoted octets, as they appear in messages.

Text stands between single quotes, or between double quotes when it holds a
single quote and no double one.  The backslash, the quote in use, tab, line
feed and carriage return are written with a backslash; every other character
that does not print is written as its code in hexadecimal.  Octets are quoted
in the same way after a letter `b`, with codes from 127 on all in hexadecimal.
-/
import NetconfWire.Octets.Basic
import NetconfWire.Text.Hex
import NetconfWire.Text.Printable

namespace NetconfWire.Text

/-- The quote that needs fewer escapes, the single one by default. -/
def quoteFor (s : List Char) : Char :=
  if s.contains '\'' && !s.contains '"' then '"' else '\''

/-- A code in hexadecimal, in the shortest of the three widths that holds it. -/
def codeEscape (n : Nat) : List Char :=
  if n < 0x100 then '\\' :: 'x' :: hexDigits 2 n
  else if n < 0x10000 then '\\' :: 'u' :: hexDigits 4 n
  else '\\' :: 'U' :: hexDigits 8 n

/-- One character inside quotes, given which characters show as themselves. -/
def quoteChar (shows : Char → Bool) (quote c : Char) : List Char :=
  if c == quote || c == '\\' then ['\\', c]
  else if c == '\t' then ['\\', 't']
  else if c == '\n' then ['\\', 'n']
  else if c == '\r' then ['\\', 'r']
  else if shows c then [c]
  else codeEscape c.toNat

/-- Text between quotes. -/
def quoteChars (shows : Char → Bool) (s : List Char) : List Char :=
  let quote := quoteFor s
  quote :: s.flatMap (quoteChar shows quote) ++ [quote]

/-- Quoted text. -/
def quoted (s : String) : String :=
  String.ofList (quoteChars isPrintable s.toList)

/-- The printable characters of ASCII. -/
def isAsciiPrintable (c : Char) : Bool :=
  32 ≤ c.toNat && c.toNat < 127

end NetconfWire.Text

/-- Quoted octets. -/
def NetconfWire.Octets.quoted (b : NetconfWire.Octets) : String :=
  String.ofList ('b' :: NetconfWire.Text.quoteChars NetconfWire.Text.isAsciiPrintable
    (b.map fun x => Char.ofNat x.toNat))
