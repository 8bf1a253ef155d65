import NodeGraph.Text.Invisible

/-!
Quoted text: a string between double quotes, with quote, backslash and everything invisible
written as escapes.
-/

namespace NodeGraph.Quoted

/-- Lower-case hexadecimal digits without padding. -/
def hexDigits (number : Nat) : List Char := Nat.toDigits 16 number

def escape (character : Char) : List Char :=
  match character with
  | '\x00' => ['\\', '0']
  | '\t' => ['\\', 't']
  | '\r' => ['\\', 'r']
  | '\n' => ['\\', 'n']
  | '\\' => ['\\', '\\']
  | '"' => ['\\', '"']
  | other =>
      if isInvisible other then
        ['\\', 'u', '\x7b'] ++ hexDigits other.toNat ++ ['\x7d']
      else [other]

def encode (characters : List Char) : List Char :=
  '"' :: characters.flatMap escape ++ ['"']

end NodeGraph.Quoted

namespace NodeGraph

def quoted (text : String) : String := String.ofList (Quoted.encode text.toList)

end NodeGraph
