import NodeGraph.Text.Decimal

/-!
JSON texts as trees. Objects keep their fields in order, repeated ones included, and numbers keep
their digits; what a number means is decided where it is used.
-/

namespace NodeGraph

inductive Json where
  | null
  | bool (truth : Bool)
  | number (numeral : Numeral)
  | string (text : String)
  | array (items : List Json)
  | object (fields : List (String × Json))
  /-- A string, or an object with a key, that has half of a surrogate pair in it: no text, so that
  a reader can only skip it. -/
  | broken
  deriving Inhabited

/-- What a numeral is read as: an integer of 64 bits where it is one, else a float. -/
inductive Scalar where
  | natural (number : Nat)
  | negative (number : Int)
  | float (number : Float)

namespace Scalar

def toFloat : Scalar → Float
  | .natural number => Float.ofNat number
  | .negative number => Float.ofInt number
  | .float number => number

end Scalar

namespace Numeral

/-- Takes digits into a significand as long as it stays below `2^64`, and returns those left. -/
def significand (total : Nat) : List Char → Nat × List Char
  | [] => (total, [])
  | digit :: rest =>
      let next := total * 10 + valueOf [digit]
      if next < UInt64.size then significand next rest else (total, digit :: rest)

/-- Multiplies or divides once by a power of ten. Powers beyond the range of floats are divided
off in steps; a result that is not finite is refused. -/
def scaled (number : Float) (power : Int) : Nat → Option Float
  | 0 => none
  | fuel + 1 =>
      if power.natAbs ≤ 308 then
        let factor := Float.ofScientific 1 false power.natAbs
        if 0 ≤ power then
          let product := number * factor
          if product.isFinite then some product else none
        else some (number / factor)
      else if number == 0 then some number
      else if 0 ≤ power then none
      else scaled (number / 1e308) (power + 308) fuel

/-- The largest exponent that is written out; a larger one counts as infinite. -/
def maxExponent : Nat := Nat.pow 2 31 - 1

/-- The float of a numeral without its sign, from the digits that fit 64 bits. -/
def magnitude? (numeral : Numeral) : Option Float :=
  let (whole, dropped) := significand 0 numeral.whole
  let (total, unread) := significand whole numeral.fraction
  let shift : Int := dropped.length - (numeral.fraction.length - unread.length : Nat)
  let exponent := numeral.exponent.getD 0
  if exponent.natAbs > maxExponent then
    if total ≠ 0 ∧ 0 < exponent then none else some 0
  else
    let power := shift + exponent
    scaled (Float.ofNat total) power (power.natAbs / 308 + 1)

/-- Whole numerals of 64 bits are integers, except for minus zero. -/
def scalar? (numeral : Numeral) : Option Scalar :=
  let whole := valueOf numeral.whole
  let isWhole := numeral.fraction.isEmpty && numeral.exponent.isNone
  if isWhole && !numeral.negative && whole < UInt64.size then some (.natural whole)
  else if isWhole && numeral.negative && 0 < whole && whole ≤ Nat.pow 2 63 then
    some (.negative (-whole))
  else
    numeral.magnitude?.map fun number => .float (if numeral.negative then -number else number)

end Numeral

namespace Json

mutual

/-- Whether a tree nests at most `room` containers, all its numbers are in range and its strings
are texts. -/
def fits (room : Nat) : Json → Bool
  | .null | .bool _ | .string _ => true
  | .broken => false
  | .number numeral => numeral.scalar?.isSome
  | .array items => 0 < room && fitsItems (room - 1) items
  | .object fields => 0 < room && fitsFields (room - 1) fields

def fitsItems (room : Nat) : List Json → Bool
  | [] => true
  | item :: rest => item.fits room && fitsItems room rest

def fitsFields (room : Nat) : List (String × Json) → Bool
  | [] => true
  | (_, value) :: rest => value.fits room && fitsFields room rest

end

def ofNat (number : Nat) : Json := .number (.ofInt number)

def ofInt (number : Int) : Json := .number (.ofInt number)

/-- Written floats show a fraction or a power of ten; between `10^-5` and `10^16` they are
positional. -/
def numberStyle : Decimal.Style := ⟨.even, fun exponent => -5 ≤ exponent && exponent ≤ 15, true⟩

/-- A float that is not finite is written as `null`. -/
def ofFloat (number : Float) : Json :=
  match Decimal.numeral? numberStyle number with
  | some numeral => .number numeral
  | none => .null

end Json

end NodeGraph
