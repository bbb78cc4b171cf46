/-
Decimal numerals: how integers are written, and how they are read.

A numeral may stand between blanks, begin with one sign and have single low
lines between its digits; digits of every script count.  At most `digitLimit`
digits are read, leading zeros included.  A run of digits that is too long is
reported before anything that follows the run.
-/
import NetconfWire.Octets.Basic
import NetconfWire.Text.Blank
import NetconfWire.Text.DecimalDigit
import NetconfWire.Text.Quoted

namespace NetconfWire

/-- Why a numeral was refused. -/
inductive NumeralFault
  /-- The text, shown in quotes, is no numeral. -/
  | notANumeral (shown : String)
  /-- The numeral to be read has more digits than the limit allows. -/
  | tooManyDigits (count : Nat)
  /-- The number to be written needs more digits than the limit allows. -/
  | tooLarge
  deriving DecidableEq, Repr

namespace Numeral

/-- The greatest number of digits that is read or written. -/
def digitLimit : Nat := 4300

/-- The digits of a natural number, in ASCII. -/
def decimal (n : Nat) : List Char :=
  Nat.toDigits 10 n

/-- An integer: its digits after a minus sign if it is negative. -/
def signed (n : Int) : List Char :=
  if n < 0 then '-' :: decimal n.natAbs else decimal n.natAbs

/-- The number that a row of digit values stands for. -/
def value (digits : List Nat) : Nat :=
  digits.foldl (fun n d => 10 * n + d) 0

/-- No low line stands first, last or beside another. -/
def wellSpaced (run : List Char) : Bool :=
  run.head? != some '_' && run.getLast? != some '_' &&
    !(run.zip run.tail).contains ('_', '_')

/-- Reads an integer, given what pads it, which characters are digits and how to show the text. -/
def read (pads : Char → Bool) (digit? : Char → Option Nat) (shown : String) (s : List Char) :
    Except NumeralFault Int :=
  let body := s.dropWhile pads
  let negative := body.head? == some '-'
  let unsigned := if negative || body.head? == some '+' then body.tail else body
  let inRun := fun c => (digit? c).isSome || c == '_'
  let run := unsigned.takeWhile inRun
  let digits := run.filterMap digit?
  if run.isEmpty || !wellSpaced run then .error (.notANumeral shown)
  else if digitLimit < digits.length then .error (.tooManyDigits digits.length)
  else if !(unsigned.dropWhile inRun).all pads then .error (.notANumeral shown)
  else if negative then .ok (-(value digits : Int))
  else .ok (value digits)

/-- The blanks that may stand around a numeral: the separator controls are not among them. -/
def isPadding (c : Char) : Bool :=
  Text.isBlank c && !Text.isSeparatorControl c

/-- Reads an integer from text. -/
def ofText (s : String) : Except NumeralFault Int :=
  read isPadding Text.digitValue? (Text.quoted s) s.toList

/-- Reads an integer from octets, which hold ASCII blanks and digits only. -/
def ofOctets (b : Octets) : Except NumeralFault Int :=
  read (fun c => c.toNat < 128 && isPadding c) Text.asciiDigit? b.quoted b.toText.toList

/-- Writes an integer, unless it has too many digits. -/
def write (n : Int) : Except NumeralFault (List Char) :=
  if digitLimit < (decimal n.natAbs).length then .error .tooLarge else .ok (signed n)

end Numeral

/-- The most characters of a refused text that a message shows. -/
def NumeralFault.shownLimit : Nat := 200

/-- The text of a refusal. -/
def NumeralFault.message : NumeralFault → String
  | .notANumeral shown =>
    "invalid literal for int() with base 10: " ++ String.ofList (shown.toList.take shownLimit)
  | .tooManyDigits count =>
    "Exceeds the limit (4300 digits) for integer string conversion: value has "
      ++ String.ofList (Numeral.decimal count)
      ++ " digits; use sys.set_int_max_str_digits() to increase the limit"
  | .tooLarge =>
    "Exceeds the limit (4300 digits) for integer string conversion; "
      ++ "use sys.set_int_max_str_digits() to increase the limit"

end NetconfWire
