import NodeGraph.Text.Numeral

/-!
Shortest decimal notation. A finite binary float is a mantissa times a power of two; the reals
that round to it form a cell. The shortest decimal is the first point of the grids of
`10^k`, from coarse to fine, that lies in the cell. A `Style` then says how the digits are
laid out.
-/

namespace NodeGraph.Decimal

/-- What to do with a value exactly between two neighbouring decimals. -/
inductive Tie where
  | up
  | even
  deriving DecidableEq, Repr

/-- The reals that round to one float, as numerators over the common denominator `scale`. -/
structure Cell where
  low : Nat
  value : Nat
  high : Nat
  scale : Nat
  closed : Bool

/-- The cell of `mantissa * 2^exponent`. Below a power of two the neighbouring float is only
half as far away; an even mantissa owns both ends of its cell. -/
def Cell.ofBinary (mantissa : Nat) (exponent : Int) : Cell :=
  let below := if mantissa = Nat.pow 2 52 ∧ exponent > -1074 then 1 else 2
  let stretch := Nat.pow 2 (exponent - 2).toNat
  { low := (4 * mantissa - below) * stretch
    value := 4 * mantissa * stretch
    high := (4 * mantissa + 2) * stretch
    scale := Nat.pow 2 (2 - exponent).toNat
    closed := mantissa % 2 = 0 }

/-- Whether `digits * 10^power` lies in the cell. -/
def Cell.admits (cell : Cell) (power : Int) (digits : Nat) : Bool :=
  let point := digits * Nat.pow 10 power.toNat * cell.scale
  let unit := Nat.pow 10 (-power).toNat
  if cell.closed then
    decide (cell.low * unit ≤ point) && decide (point ≤ cell.high * unit)
  else
    decide (cell.low * unit < point) && decide (point < cell.high * unit)

/-- The admitted neighbour of the value among the multiples of `10^power`, the nearer one when
both are admitted. -/
def Cell.onGrid (cell : Cell) (tie : Tie) (power : Int) : Option Nat :=
  let value := cell.value * Nat.pow 10 (-power).toNat
  let step := Nat.pow 10 power.toNat * cell.scale
  let lower := value / step
  match cell.admits power lower, cell.admits power (lower + 1) with
  | false, false => none
  | true, false => some lower
  | false, true => some (lower + 1)
  | true, true =>
      let middle := (2 * lower + 1) * step
      if 2 * value < middle then some lower
      else if middle < 2 * value then some (lower + 1)
      else match tie with
        | .up => some (lower + 1)
        | .even => some (if lower % 2 = 0 then lower else lower + 1)

/-- Digits and power of ten of the first grid with an admitted point, from `power` downwards. -/
def Cell.search (cell : Cell) (tie : Tie) : Nat → Int → Nat × Int
  | 0, power =>
      (cell.value * Nat.pow 10 (-power).toNat / (Nat.pow 10 power.toNat * cell.scale), power)
  | fuel + 1, power =>
      match cell.onGrid tie power with
      | some digits => (digits, power)
      | none => cell.search tie fuel (power - 1)

/-- The shortest decimal `digits * 10^power` that reads back as `mantissa * 2^exponent`. Seventeen
digits always suffice, and the first grid is at most two powers too coarse. -/
def shortest (tie : Tie) (mantissa : Nat) (exponent : Int) : Nat × Int :=
  let bits : Int := mantissa.log2 + 1 + exponent
  (Cell.ofBinary mantissa exponent).search tie 21 (bits * 30103 / 100000 + 1)

/-- How a float is laid out: the rule for ties, the decimal exponents written without a power of
ten, and whether a whole number still shows a fraction. -/
structure Style where
  tie : Tie
  positional : Int → Bool
  keepFraction : Bool

/-- The numeral without a power of ten. -/
def positional (style : Style) (negative : Bool) (digits : List Char) (power : Int) : Numeral :=
  let bare : List Char := if style.keepFraction then ['0'] else []
  if 0 ≤ power then
    ⟨negative, digits ++ List.replicate power.toNat '0', bare, none⟩
  else
    let places := (-power).toNat
    if places < digits.length then
      ⟨negative, digits.take (digits.length - places), digits.drop (digits.length - places), none⟩
    else
      ⟨negative, ['0'], List.replicate (places - digits.length) '0' ++ digits, none⟩

/-- The numeral of `digits * 10^power`. -/
def layOut (style : Style) (negative : Bool) (number : Nat) (power : Int) : Numeral :=
  let digits := Numeral.digitsOf number
  let leading := digits.length - 1 + power
  if style.positional leading then positional style negative digits power
  else ⟨negative, digits.take 1, digits.drop 1, some leading⟩

/-- Sign, mantissa and binary exponent of a finite float. -/
def binaryOf (number : Float) : Bool × Nat × Int :=
  let bits := number.toBits.toNat
  let fraction : Nat := bits % Nat.pow 2 52
  let biased : Nat := bits / Nat.pow 2 52 % Nat.pow 2 11
  (decide (Nat.pow 2 63 ≤ bits),
    if biased = 0 then (fraction, -1074) else (fraction + Nat.pow 2 52, (biased : Int) - 1075))

def numeral? (style : Style) (number : Float) : Option Numeral :=
  if number.isFinite then
    let (negative, mantissa, exponent) := binaryOf number
    if mantissa = 0 then some (layOut style negative 0 0)
    else
      let (digits, power) := shortest style.tie mantissa exponent
      some (layOut style negative digits power)
  else none

/-- Shown to people: never a power of ten, no fraction on a whole number. -/
def shown : Style := ⟨.up, fun _ => true, false⟩

/-- The text shown to people, with words for what has no numeral. -/
def text (number : Float) : String :=
  match numeral? shown number with
  | some numeral => numeral.text
  | none => if number.isNaN then "NaN" else if number < 0 then "-inf" else "inf"

/-- Powers of ten beyond this one leave no finite float but zero. -/
def maxPower : Int := 5000

end NodeGraph.Decimal

namespace NodeGraph

/-- The float nearest to a numeral of moderate length. -/
def Numeral.toFloat (numeral : Numeral) : Float :=
  let digits := Numeral.valueOf (numeral.whole ++ numeral.fraction)
  let power := numeral.exponent.getD 0 - numeral.fraction.length
  let bounded := max (-Decimal.maxPower) (min power Decimal.maxPower)
  let magnitude := Float.ofScientific digits (bounded < 0) bounded.natAbs
  if numeral.negative then -magnitude else magnitude

end NodeGraph
