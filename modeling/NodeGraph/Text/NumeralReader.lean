import NodeGraph.Text.Decimal

/-!
Reading numerals: a whole part without leading zeros, then a fraction and a power of ten, of which
both may be missing.
-/

namespace NodeGraph.Numeral

/-- One digit at least. -/
def readDigits (text : List Char) : Option (List Char × List Char) :=
  let digits := text.takeWhile Char.isDigit
  if digits.isEmpty then none else some (digits, text.dropWhile Char.isDigit)

/-- A whole part has no leading zero. -/
def readWhole (text : List Char) : Option (List Char × List Char) := do
  let (digits, rest) ← readDigits text
  if digits.head? = some '0' ∧ 1 < digits.length then none else some (digits, rest)

def readFraction : List Char → Option (List Char × List Char)
  | '.' :: rest => readDigits rest
  | text => some ([], text)

def readPower (negative : Bool) (text : List Char) : Option (Option Int × List Char) := do
  let (digits, rest) ← readDigits text
  let power : Int := Numeral.valueOf digits
  return (some (if negative then -power else power), rest)

def readExponent : List Char → Option (Option Int × List Char)
  | 'e' :: '-' :: rest | 'E' :: '-' :: rest => readPower true rest
  | 'e' :: '+' :: rest | 'E' :: '+' :: rest => readPower false rest
  | 'e' :: rest | 'E' :: rest => readPower false rest
  | text => some (none, text)

/-- The numeral at the front of a text, and the rest. -/
def read (text : List Char) : Option (Numeral × List Char) := do
  let negative := text.head? == some '-'
  let (whole, rest) ← readWhole (if negative then text.drop 1 else text)
  let (fraction, rest) ← readFraction rest
  let (exponent, rest) ← readExponent rest
  return (⟨negative, whole, fraction, exponent⟩, rest)

end NodeGraph.Numeral

namespace NodeGraph.Decimal

/-- Reads what is shown to people: a numeral, or a word for what has none. -/
def ofText? (text : String) : Option Float :=
  match text with
  | "NaN" => some (0 / 0)
  | "inf" => some (1 / 0)
  | "-inf" => some (-1 / 0)
  | _ =>
      match Numeral.read text.toList with
      | some (numeral, []) => some numeral.toFloat
      | _ => none

end NodeGraph.Decimal
