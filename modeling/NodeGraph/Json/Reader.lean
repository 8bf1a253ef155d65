import NodeGraph.Json.Basic
import NodeGraph.Text.NumeralReader

/-!
Reading JSON, strictly: no comments, no trailing commas, no unescaped control characters. A string
with a lone surrogate keeps its place in the tree, as it may stand where it is skipped. The fuel of
the reader is twice the length of the text, since every second step takes a character.
-/

namespace NodeGraph.Json

def isBlank (character : Char) : Bool :=
  character == ' ' || character == '\n' || character == '\t' || character == '\r'

def skipBlank (text : List Char) : List Char := text.dropWhile isBlank

def unit16? (a b c d : Char) : Option Nat := do
  return 4096 * (← hexDigit? a) + 256 * (← hexDigit? b) + 16 * (← hexDigit? c) + (← hexDigit? d)

def escaped? : Char → Option Char
  | '"' => some '"'
  | '\\' => some '\\'
  | '/' => some '/'
  | 'b' => some '\x08'
  | 'f' => some '\x0c'
  | 'n' => some '\n'
  | 'r' => some '\r'
  | 't' => some '\t'
  | _ => none

def isLeading (unit : Nat) : Bool := 0xD800 ≤ unit && unit < 0xDC00

def isTrailing (unit : Nat) : Bool := 0xDC00 ≤ unit && unit < 0xE000

def paired (leading trailing : Nat) : Char :=
  Char.ofNat (0x10000 + (leading - 0xD800) * 0x400 + (trailing - 0xDC00))

/-- Reads a string whose opening quote is gone; `read` holds its characters in reverse, or nothing
after a lone surrogate. -/
def readString (read : Option (List Char)) : List Char → Option (Option String × List Char)
  | [] => none
  | '"' :: rest => some (read.map fun characters => String.ofList characters.reverse, rest)
  | '\\' :: 'u' :: a :: b :: c :: d :: rest =>
      match unit16? a b c d with
      | none => none
      | some unit =>
          if isTrailing unit then readString none rest
          else if isLeading unit then
            match rest with
            | '\\' :: 'u' :: e :: f :: g :: h :: rest =>
                match unit16? e f g h with
                | none => none
                | some second =>
                    if isTrailing second then
                      readString (read.map (paired unit second :: ·)) rest
                    else readString none rest
            | rest => readString none rest
          else readString (read.map (Char.ofNat unit :: ·)) rest
  | '\\' :: short :: rest =>
      match escaped? short with
      | some character => readString (read.map (character :: ·)) rest
      | none => none
  | character :: rest =>
      if character = '\\' ∨ character.toNat < 0x20 then none
      else readString (read.map (character :: ·)) rest

def readNumber (text : List Char) : Option (Json × List Char) :=
  (Numeral.read text).map fun (numeral, rest) => (.number numeral, rest)

mutual

def readValue : Nat → List Char → Option (Json × List Char)
  | 0, _ => none
  | fuel + 1, text =>
      match skipBlank text with
      | 'n' :: 'u' :: 'l' :: 'l' :: rest => some (.null, rest)
      | 't' :: 'r' :: 'u' :: 'e' :: rest => some (.bool true, rest)
      | 'f' :: 'a' :: 'l' :: 's' :: 'e' :: rest => some (.bool false, rest)
      | '"' :: rest =>
          (readString (some []) rest).map fun (read, rest) => (read.elim .broken .string, rest)
      | '[' :: rest =>
          match skipBlank rest with
          | ']' :: rest => some (.array [], rest)
          | _ => readItems fuel [] rest
      | '\x7b' :: rest =>
          match skipBlank rest with
          | '\x7d' :: rest => some (.object [], rest)
          | _ => readFields fuel (some []) rest
      | text => readNumber text

/-- Reads the items of an array; `read` holds those before, in reverse. -/
def readItems : Nat → List Json → List Char → Option (Json × List Char)
  | 0, _, _ => none
  | fuel + 1, read, text =>
      match readValue fuel text with
      | none => none
      | some (item, rest) =>
          match skipBlank rest with
          | ',' :: rest => readItems fuel (item :: read) rest
          | ']' :: rest => some (.array (item :: read).reverse, rest)
          | _ => none

/-- Reads the fields of an object; `read` holds those before, in reverse, or nothing after a key
with a lone surrogate. -/
def readFields : Nat → Option (List (String × Json)) → List Char → Option (Json × List Char)
  | 0, _, _ => none
  | fuel + 1, read, text =>
      match skipBlank text with
      | '"' :: rest =>
          match readString (some []) rest with
          | none => none
          | some (key, rest) =>
              match skipBlank rest with
              | ':' :: rest =>
                  match readValue fuel rest with
                  | none => none
                  | some (value, rest) =>
                      let read : Option (List (String × Json)) := do
                        return (← key, value) :: (← read)
                      match skipBlank rest with
                      | ',' :: rest => readFields fuel read rest
                      | '\x7d' :: rest =>
                          some (read.elim .broken fun fields => .object fields.reverse, rest)
                      | _ => none
              | _ => none
      | _ => none

end

def parse? (text : String) : Option Json :=
  let characters := text.toList
  match readValue (2 * characters.length + 2) characters with
  | some (json, rest) => if (skipBlank rest).isEmpty then some json else none
  | none => none

end NodeGraph.Json
