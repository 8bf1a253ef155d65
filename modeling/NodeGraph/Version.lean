import NodeGraph.Text.Numeral

/-!
Semantic versions: three numbers, then identifiers of a pre-release and of a build.
-/

namespace NodeGraph

structure Version where
  major : Nat
  minor : Nat
  patch : Nat
  pre : List String
  build : List String
  deriving DecidableEq, Repr

namespace Version

def splitAt (separator : Char) (text : List Char) : List (List Char) :=
  text.foldr
    (fun character parts =>
      match parts with
      | first :: rest =>
          if character = separator then [] :: first :: rest else (character :: first) :: rest
      | [] => [[character]])
    [[]]

/-- A number of 64 bits without leading zeros. -/
def number? (digits : List Char) : Option Nat :=
  if digits.isEmpty || digits.any (fun digit => !digit.isDigit) then none
  else if digits.head? = some '0' ∧ 1 < digits.length then none
  else
    let number := Numeral.valueOf digits
    if number < UInt64.size then some number else none

def isIdentifierChar (character : Char) : Bool := character.isAlphanum || character == '-'

/-- An identifier is not empty; a number among identifiers of a pre-release has no leading zero. -/
def identifier? (leadingZeros : Bool) (part : List Char) : Option String :=
  if part.isEmpty || part.any (fun character => !isIdentifierChar character) then none
  else if !leadingZeros && part.all Char.isDigit && part.head? == some '0' && 1 < part.length then
    none
  else some (String.ofList part)

def cut (separator : Char) (text : List Char) : List Char × Option (List Char) :=
  match text.dropWhile (· != separator) with
  | [] => (text, none)
  | _ :: rest => (text.takeWhile (· != separator), some rest)

def identifiers? (leadingZeros : Bool) : Option (List Char) → Option (List String)
  | none => some []
  | some text => (splitAt '.' text).mapM (identifier? leadingZeros)

def parse? (text : String) : Option Version := do
  let (unbuilt, build) := cut '+' text.toList
  let (numbers, pre) := cut '-' unbuilt
  match splitAt '.' numbers with
  | [major, minor, patch] =>
      return ⟨← number? major, ← number? minor, ← number? patch, ← identifiers? false pre,
        ← identifiers? true build⟩
  | _ => none

end Version

end NodeGraph
