/-
The text of a floating-point number: the fewest digits that read back.

A decimal reads back as a number when it lies among the reals that round to it,
ends included for an even mantissa.  For each count of digits the number's two
neighbours on that decimal grid are tested; the first grid with a hit wins, and
of two hits the nearer.
-/
import NetconfWire.Number.Binary64
import NetconfWire.Text.Blank
import NetconfWire.Text.DecimalDigit

namespace NetconfWire.Binary64

/-- The ratio `num / den` times `10 ^ power`, as a ratio. -/
def scaleTen (num den : Nat) (power : Int) : Nat × Nat :=
  if 0 ≤ power then (num * Nat.pow 10 power.toNat, den) else (num, den * Nat.pow 10 (-power).toNat)

/-- The greatest power of ten that is at most the positive ratio `num / den`. -/
def magnitude (num den : Nat) : Int :=
  if den ≤ num then ((Nat.toDigits 10 (num / den)).length : Int) - 1
  else
    let j := (Nat.toDigits 10 (den / num)).length
    if den ≤ num * Nat.pow 10 (j - 1) then -((j : Int) - 1) else -(j : Int)

/-- The lower end of the reals that round to `m * 2 ^ e`, the number itself and the upper end, in
multiples of `2 ^ (e - 2)`. -/
def roundingRange (m : Nat) (e : Int) : Nat × Nat × Nat :=
  let low := if m = Nat.pow 2 52 ∧ minExponent < e then 4 * m - 1 else 4 * m - 2
  (low, 4 * m, 4 * m + 2)

/-- A multiple of `10 ^ power` that reads back as `m * 2 ^ e`: the nearer one of two, the even one
of two equally near. -/
def hitOnGrid (m : Nat) (e power : Int) : Option Nat :=
  let (low, mid, high) := roundingRange m e
  -- one unit of the range is `step`, and one of the grid is `grid`, of a common unit
  let (gridNum, gridDen) := scaleTen 1 1 power
  let (unitNum, unitDen) := scaleDown 1 1 (2 - e)
  let grid := gridNum * unitDen
  let step := unitNum * gridDen
  let readsBack := fun k =>
    if m % 2 = 0 then low * step ≤ k * grid ∧ k * grid ≤ high * step
    else low * step < k * grid ∧ k * grid < high * step
  let below := mid * step / grid
  let gapBelow := mid * step - below * grid
  let gapAbove := (below + 1) * grid - mid * step
  if readsBack below then
    if readsBack (below + 1) then
      if gapBelow < gapAbove ∨ (gapBelow = gapAbove ∧ below % 2 = 0) then some below
      else some (below + 1)
    else some below
  else if readsBack (below + 1) then some (below + 1)
  else none

/-- The fewest digits that read back as `m * 2 ^ e`, with the power of ten of the last one; at most
`fuel` more counts of digits are tried. -/
def fewestDigits (m : Nat) (e top : Int) (count : Nat) : Nat → Nat × Int
  | 0 => (0, 0)
  | fuel + 1 =>
    let power := top - count + 1
    match hitOnGrid m e power with
    | some k => (k, power)
    | none => fewestDigits m e top (count + 1) fuel

/-- The digits of a positive finite number without trailing zeros, and the power of ten of the
first digit. -/
def shortest (m : Nat) (e : Int) : List Char × Int :=
  let (num, den) := if 0 ≤ e then (m * Nat.pow 2 e.toNat, 1) else (m, Nat.pow 2 (-e).toNat)
  let (k, power) := fewestDigits m e (magnitude num den) 1 17
  let digits := Nat.toDigits 10 k
  let bare := (digits.reverse.dropWhile (· == '0')).reverse
  (bare, power + digits.length - 1)

/-- Positional notation between `10 ^ -4` and `10 ^ 16`, with at least one digit on either side of
the point; scientific notation beyond, with at least two digits in the exponent. -/
def layout (digits : List Char) (power : Int) : List Char :=
  if power < -4 ∨ 16 ≤ power then
    let size := Nat.toDigits 10 power.natAbs
    let padded := if size.length < 2 then '0' :: size else size
    let mantissa := match digits with
      | [] => []
      | [d] => [d]
      | d :: rest => d :: '.' :: rest
    mantissa ++ ['e', if power < 0 then '-' else '+'] ++ padded
  else if power < 0 then
    '0' :: '.' :: List.replicate ((-power).toNat - 1) '0' ++ digits
  else
    let whole := power.toNat + 1
    let front := (digits ++ List.replicate (whole - digits.length) '0').take whole
    let back := digits.drop whole
    front ++ '.' :: (if back.isEmpty then ['0'] else back)

/-- The text of a floating-point number. -/
def toText : Binary64 → String
  | .nan => "nan"
  | .infinite negative => if negative then "-inf" else "inf"
  | .finite negative m e =>
    let body := if m = 0 then ['0', '.', '0'] else
      let (digits, power) := shortest m e
      layout digits power
    String.ofList (if negative then '-' :: body else body)

/-! ### Reading -/

/-- Splits off the leading digits; single low lines between digits are skipped. -/
def digitRun (s : List Char) : List Char × List Char :=
  let run := s.takeWhile fun c => c.isDigit || c == '_'
  (run.filter Char.isDigit, s.drop run.length)

/-- Reads a floating-point number: a decimal with an optional point and exponent, or a name of an
infinity or of what is no number. -/
def ofText? (text : String) : Option Binary64 :=
  let s := Text.strip text.toList
  let negative := s.head? == some '-'
  let body := if negative || s.head? == some '+' then s.tail else s
  let name := String.ofList (body.map Char.toLower)
  if name = "nan" then some .nan
  else if name = "inf" ∨ name = "infinity" then some (.infinite negative)
  else
    let (whole, rest) := digitRun body
    let (part, rest) := match rest with
      | '.' :: rest => digitRun rest
      | _ => ([], rest)
    if whole.isEmpty && part.isEmpty then none
    else
      let mantissa := (whole ++ part).foldl (fun n c => 10 * n + (c.toNat - 48)) 0
      match rest with
      | [] => some (ofDecimal negative mantissa (-(part.length : Int)))
      | c :: rest =>
        if c != 'e' && c != 'E' then none
        else
          let down := rest.head? == some '-'
          let rest := if down || rest.head? == some '+' then rest.tail else rest
          let (digits, rest) := digitRun rest
          if digits.isEmpty || !rest.isEmpty then none
          else
            let size : Nat := digits.foldl (fun n c => 10 * n + (c.toNat - 48)) 0
            let power : Int := if down then -(size : Int) else size
            some (ofDecimal negative mantissa (power - part.length))

end NetconfWire.Binary64
