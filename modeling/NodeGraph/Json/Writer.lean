import NodeGraph.Json.Basic

/-!
Writing JSON, on one line without blanks or on many lines with an indentation of two. A part that
has no text is written as `null`.
-/

namespace NodeGraph.Json

def escape (character : Char) : List Char :=
  match character with
  | '"' => ['\\', '"']
  | '\\' => ['\\', '\\']
  | '\x08' => ['\\', 'b']
  | '\x0c' => ['\\', 'f']
  | '\n' => ['\\', 'n']
  | '\r' => ['\\', 'r']
  | '\t' => ['\\', 't']
  | other =>
      if other.toNat < 0x20 then
        ['\\', 'u', '0', '0', Nat.digitChar (other.toNat / 16), Nat.digitChar (other.toNat % 16)]
      else [other]

def stringText (text : String) : String :=
  String.ofList ('"' :: text.toList.flatMap escape ++ ['"'])

mutual

def compactOnto (written : String) : Json → String
  | .null | .broken => written ++ "null"
  | .bool truth => written ++ (if truth then "true" else "false")
  | .number numeral => written ++ numeral.text
  | .string text => written ++ stringText text
  | .array [] => written ++ "[]"
  | .array (item :: items) => compactItems (compactOnto (written ++ "[") item) items ++ "]"
  | .object [] => written ++ "\x7b\x7d"
  | .object ((key, value) :: fields) =>
      compactFields (compactOnto (written ++ "\x7b" ++ stringText key ++ ":") value) fields ++
        "\x7d"

def compactItems (written : String) : List Json → String
  | [] => written
  | item :: items => compactItems (compactOnto (written ++ ",") item) items

def compactFields (written : String) : List (String × Json) → String
  | [] => written
  | (key, value) :: fields =>
      compactFields (compactOnto (written ++ "," ++ stringText key ++ ":") value) fields

end

def compact (json : Json) : String := compactOnto "" json

def newLine (level : Nat) : String := String.ofList ('\n' :: List.replicate (2 * level) ' ')

mutual

def prettyOnto (level : Nat) (written : String) : Json → String
  | .array [] => written ++ "[]"
  | .array (item :: items) =>
      prettyItems level
        (prettyOnto (level + 1) (written ++ "[" ++ newLine (level + 1)) item) items ++
        newLine level ++ "]"
  | .object [] => written ++ "\x7b\x7d"
  | .object ((key, value) :: fields) =>
      prettyFields level
        (prettyOnto (level + 1)
          (written ++ "\x7b" ++ newLine (level + 1) ++ stringText key ++ ": ") value) fields ++
        newLine level ++ "\x7d"
  | json => compactOnto written json

def prettyItems (level : Nat) (written : String) : List Json → String
  | [] => written
  | item :: items =>
      prettyItems level
        (prettyOnto (level + 1) (written ++ "," ++ newLine (level + 1)) item) items

def prettyFields (level : Nat) (written : String) : List (String × Json) → String
  | [] => written
  | (key, value) :: fields =>
      prettyFields level
        (prettyOnto (level + 1)
          (written ++ "," ++ newLine (level + 1) ++ stringText key ++ ": ") value) fields

end

def pretty (json : Json) : String := prettyOnto 0 "" json

end NodeGraph.Json
