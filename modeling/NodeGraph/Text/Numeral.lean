/-!
Written decimal numbers: a sign, whole digits, optional digits after a point, an optional power
of ten. A numeral is what the printers of numbers produce and what the stored form reads.
-/

namespace NodeGraph

def hexDigit? (digit : Char) : Option Nat :=
  if '0' ≤ digit ∧ digit ≤ '9' then some (digit.toNat - '0'.toNat)
  else if 'a' ≤ digit ∧ digit ≤ 'f' then some (digit.toNat - 'a'.toNat + 10)
  else if 'A' ≤ digit ∧ digit ≤ 'F' then some (digit.toNat - 'A'.toNat + 10)
  else none

/-- A decimal number as it is written; `fraction` is empty when there is no point. -/
structure Numeral where
  negative : Bool
  whole : List Char
  fraction : List Char
  exponent : Option Int
  deriving DecidableEq, Repr

namespace Numeral

def digitsOf (number : Nat) : List Char := Nat.toDigits 10 number

/-- The number that a list of decimal digits writes; `0` when there are none. -/
def valueOf (digits : List Char) : Nat :=
  digits.foldl (fun total digit => total * 10 + (digit.toNat - '0'.toNat)) 0

def ofInt (number : Int) : Numeral :=
  ⟨number < 0, digitsOf number.natAbs, [], none⟩

/-- An exponent always carries its sign. -/
def exponentText (power : Int) : List Char :=
  'e' :: (if power < 0 then '-' else '+') :: digitsOf power.natAbs

def toList (numeral : Numeral) : List Char :=
  (if numeral.negative then ['-'] else []) ++ numeral.whole ++
    (if numeral.fraction.isEmpty then [] else '.' :: numeral.fraction) ++
    (numeral.exponent.elim [] exponentText)

def text (numeral : Numeral) : String := String.ofList numeral.toList

end Numeral

def natText (number : Nat) : String := (Numeral.ofInt number).text

def intText (number : Int) : String := (Numeral.ofInt number).text

end NodeGraph
