import NodeGraph.Toml.Basic

/-!
Reading TOML. Every reader takes the text that is left and returns what it read with the rest; the
fuel of a loop is the length of its text, since every step takes a character.
-/

namespace NodeGraph.Toml

/-- How many containers a value may nest, and how many parts a key may have. -/
def maxDepth : Nat := 79

def isBlank (character : Char) : Bool := character == ' ' || character == '\t'

def skipBlank (text : List Char) : List Char := text.dropWhile isBlank

/-- Control characters are not, except for the tabulator. -/
def isPlain (character : Char) : Bool :=
  character == '\t' || (0x20 ≤ character.toNat && character.toNat != 0x7f)

/-- Takes a line feed, with or without a carriage return before it. -/
def lineBreak? : List Char → Option (List Char)
  | '\n' :: rest | '\r' :: '\n' :: rest => some rest
  | _ => none

def lineEnd? (text : List Char) : Option (List Char) :=
  let rest := match skipBlank text with
    | '#' :: comment => comment.dropWhile isPlain
    | rest => rest
  if rest.isEmpty then some [] else lineBreak? rest

def skipLines : List Char → List Char
  | '\r' :: '\n' :: rest => skipLines rest
  | character :: rest =>
      if character == '\n' || isBlank character then skipLines rest else character :: rest
  | [] => []

def skipFiller (inComment : Bool) : List Char → List Char
  | '\n' :: rest | '\r' :: '\n' :: rest => skipFiller false rest
  | character :: rest =>
      if inComment then
        if isPlain character then skipFiller true rest else character :: rest
      else if isBlank character then skipFiller false rest
      else if character == '#' then skipFiller true rest
      else character :: rest
  | [] => []

/-! ### Strings -/

def escaped? : Char → Option Char
  | '"' => some '"'
  | '\\' => some '\\'
  | 'b' => some '\x08'
  | 'f' => some '\x0c'
  | 'n' => some '\n'
  | 'r' => some '\r'
  | 't' => some '\t'
  | _ => none

/-- The character that hexadecimal digits number. -/
def numbered? (digits : List Char) : Option Char := do
  let values ← digits.mapM hexDigit?
  let number := values.foldl (fun total digit => total * 16 + digit) 0
  if h : number.isValidChar then some (Char.ofNatAux number h) else none

/-- What stands behind a backslash; in a long string it may also hide line breaks. -/
def readEscape (long : Bool) (text : List Char) : Option (List Char × List Char) :=
  match text with
  | 'u' :: rest => (numbered? (rest.take 4)).bind fun character =>
      if rest.length < 4 then none else some ([character], rest.drop 4)
  | 'U' :: rest => (numbered? (rest.take 8)).bind fun character =>
      if rest.length < 8 then none else some ([character], rest.drop 8)
  | short :: rest =>
      match escaped? short with
      | some character => some ([character], rest)
      | none =>
          if long then (lineBreak? (skipBlank text)).map fun rest => ([], skipLines rest)
          else none
  | [] => none

/-- The end of a long string: three quotes, with up to two more before them that belong to it. -/
def longEnd? (quote : Char) (text : List Char) : Option (List Char × List Char) :=
  let run := min 5 (text.takeWhile (· == quote)).length
  if run < 3 then none else some (List.replicate (run - 3) quote, text.drop run)

/-- Reads a string behind its opening quote. A literal string has no escapes, only a long string
has line breaks; `read` holds the characters before, in reverse. -/
def readString (quote : Char) (literal long : Bool) :
    Nat → List Char → List Char → Option (String × List Char)
  | 0, _, _ => none
  | _, _, [] => none
  | fuel + 1, read, character :: rest =>
      if character == quote then
        if long then
          match longEnd? quote (character :: rest) with
          | some (quotes, rest) => some (String.ofList (read.reverse ++ quotes), rest)
          | none => readString quote literal long fuel (character :: read) rest
        else some (String.ofList read.reverse, rest)
      else if character == '\\' && !literal then
        match readEscape long rest with
        | some (characters, rest) =>
            readString quote literal long fuel (characters.reverse ++ read) rest
        | none => none
      else if isPlain character then readString quote literal long fuel (character :: read) rest
      else if long then
        match lineBreak? (character :: rest) with
        | some rest => readString quote literal long fuel ('\n' :: read) rest
        | none => none
      else none

/-- A line break right behind the opening of a long string does not count. -/
def readLong (quote : Char) (literal : Bool) (text : List Char) : Option (String × List Char) :=
  readString quote literal true (text.length + 1) [] ((lineBreak? text).getD text)

def readShort (quote : Char) (literal : Bool) (text : List Char) : Option (String × List Char) :=
  readString quote literal false (text.length + 1) [] text

/-! ### Keys -/

def isBareKey (character : Char) : Bool :=
  character.isAlphanum || character == '_' || character == '-'

def readKeyPart : List Char → Option (String × List Char)
  | '"' :: rest => readShort '"' false rest
  | '\x27' :: rest => readShort '\x27' true rest
  | text =>
      let name := text.takeWhile isBareKey
      if name.isEmpty then none else some (String.ofList name, text.dropWhile isBareKey)

/-- The parts of a key, at most so many, with the blanks around them. -/
def readKey : Nat → List Char → Option (List String × List Char)
  | 0, _ => none
  | most + 1, text => do
      let (part, rest) ← readKeyPart (skipBlank text)
      match skipBlank rest with
      | '.' :: rest =>
          let (parts, rest) ← readKey most rest
          return (part :: parts, rest)
      | rest => return ([part], rest)

/-! ### Numbers -/

/-- Digits with single underscores between them, which are dropped. -/
def readDigits (isDigit : Char → Bool) : List Char → Option (List Char × List Char)
  | [] => none
  | first :: rest =>
      if !isDigit first then none
      else
        match rest with
        | [] => some ([first], [])
        | '_' :: rest =>
            (readDigits isDigit rest).map fun (digits, rest) => (first :: digits, rest)
        | next :: rest =>
            if isDigit next then
              (readDigits isDigit (next :: rest)).map fun (digits, rest) => (first :: digits, rest)
            else some ([first], next :: rest)

def readSign : List Char → Bool × List Char
  | '-' :: rest => (true, rest)
  | '+' :: rest => (false, rest)
  | text => (false, text)

/-- An integer of 64 bits. -/
def integer? (number : Int) : Option Toml :=
  if -Int.pow 2 63 ≤ number ∧ number < Int.pow 2 63 then some (.integer number) else none

def readRadix (radix : Nat) (text : List Char) : Option (Toml × List Char) := do
  let isDigit := fun character => (hexDigit? character).any (· < radix)
  let (digits, rest) ← readDigits isDigit text
  let number := digits.foldl (fun total digit => total * radix + (hexDigit? digit).getD 0) 0
  return (← integer? number, rest)

/-- The least magnitude that no double is near enough to. -/
def overflowBound : Nat := Nat.pow 2 1024 - Nat.pow 2 970

/-- Whether the magnitude of a numeral is beyond all doubles. -/
def overflows (numeral : Numeral) : Bool :=
  let digits := (numeral.whole ++ numeral.fraction).dropWhile (· == '0')
  let power := numeral.exponent.getD 0 - numeral.fraction.length
  let position := digits.length + power
  if digits.isEmpty || position < 300 then false
  else if 400 < position then true
  else overflowBound * Nat.pow 10 (-power).toNat ≤ Numeral.valueOf digits * Nat.pow 10 power.toNat

/-- A float is not too large, unless it is negative. -/
def float? (numeral : Numeral) : Option Toml :=
  if overflows numeral && !numeral.negative then none else some (.float numeral)

def readExponent (text : List Char) : Option (Int × List Char) := do
  let (negative, rest) := readSign text
  let (digits, rest) ← readDigits Char.isDigit rest
  let power : Int := Numeral.valueOf digits
  return (if negative then -power else power, rest)

/-- What stands behind the whole part of a number. -/
def readTail (negative : Bool) (whole : List Char) (text : List Char) :
    Option (Toml × List Char) :=
  match text with
  | 'e' :: rest | 'E' :: rest => do
      let (power, rest) ← readExponent rest
      return (← float? ⟨negative, whole, [], some power⟩, rest)
  | '.' :: rest => do
      let (fraction, rest) ← readDigits Char.isDigit rest
      match rest with
      | 'e' :: rest | 'E' :: rest =>
          let (power, rest) ← readExponent rest
          return (← float? ⟨negative, whole, fraction, some power⟩, rest)
      | _ => return (← float? ⟨negative, whole, fraction, none⟩, rest)
  | _ => do
      let number : Int := Numeral.valueOf whole
      return (← integer? (if negative then -number else number), text)

def readNumber (text : List Char) : Option (Toml × List Char) :=
  match text with
  | '0' :: 'x' :: rest => readRadix 16 rest
  | '0' :: 'o' :: rest => readRadix 8 rest
  | '0' :: 'b' :: rest => readRadix 2 rest
  | _ =>
      let (negative, rest) := readSign text
      match rest with
      | 'i' :: 'n' :: 'f' :: rest =>
          some (.float ⟨negative, ['i', 'n', 'f'], [], none⟩, rest)
      | 'n' :: 'a' :: 'n' :: rest =>
          some (.float ⟨negative, ['n', 'a', 'n'], [], none⟩, rest)
      | _ => do
          let (whole, rest) ← readDigits Char.isDigit rest
          if whole.head? = some '0' ∧ 1 < whole.length then none
          else readTail negative whole rest

/-! ### Dates and times -/

def readFixed (count low high : Nat) (text : List Char) : Option (List Char) :=
  let digits := text.take count
  let number := Numeral.valueOf digits
  if digits.length = count ∧ digits.all Char.isDigit ∧ low ≤ number ∧ number ≤ high then
    some (text.drop count)
  else none

def expect (character : Char) : List Char → Option (List Char)
  | first :: rest => if first = character then some rest else none
  | [] => none

def daysIn (year month : Nat) : Nat :=
  if month = 2 then
    if year % 4 = 0 ∧ (year % 100 ≠ 0 ∨ year % 400 = 0) then 29 else 28
  else if month = 4 ∨ month = 6 ∨ month = 9 ∨ month = 11 then 30
  else 31

def readDate (text : List Char) : Option (List Char) := do
  let year := Numeral.valueOf (text.take 4)
  let text ← expect '-' (← readFixed 4 0 9999 text)
  let month := Numeral.valueOf (text.take 2)
  readFixed 2 1 (daysIn year month) (← expect '-' (← readFixed 2 1 12 text))

def readHourMinute (text : List Char) : Option (List Char) := do
  readFixed 2 0 59 (← expect ':' (← readFixed 2 0 23 text))

def readTime (text : List Char) : Option (List Char) := do
  let text ← readFixed 2 0 60 (← expect ':' (← readHourMinute text))
  match text with
  | '.' :: digit :: rest =>
      if digit.isDigit then return rest.dropWhile Char.isDigit else return text
  | _ => return text

/-- The distance from universal time, if it is given. -/
def readOffset : List Char → Option (List Char)
  | 'Z' :: rest | 'z' :: rest => some rest
  | '+' :: rest | '-' :: rest => readHourMinute rest
  | text => some text

def readDateTime (text : List Char) : Option (List Char) := do
  let text ← readDate text
  let time := match text with
    | 'T' :: rest | 't' :: rest | ' ' :: rest => readTime rest
    | _ => none
  match time with
  | some rest => readOffset rest
  | none => return text

def readMoment (text : List Char) : Option (Toml × List Char) := do
  let rest ← readDateTime text <|> readTime text
  return (.moment (text.take (text.length - rest.length)), rest)

/-! ### Values -/

mutual

/-- Reads a value that nests at most `room` containers. -/
def readValue : Nat → Nat → List Char → Option (Toml × List Char)
  | 0, _, _ => none
  | fuel + 1, room, text =>
      match text with
      | '"' :: '"' :: '"' :: rest =>
          (readLong '"' false rest).map fun (read, rest) => (.string read, rest)
      | '"' :: rest => (readShort '"' false rest).map fun (read, rest) => (.string read, rest)
      | '\x27' :: '\x27' :: '\x27' :: rest =>
          (readLong '\x27' true rest).map fun (read, rest) => (.string read, rest)
      | '\x27' :: rest => (readShort '\x27' true rest).map fun (read, rest) => (.string read, rest)
      | 't' :: 'r' :: 'u' :: 'e' :: rest => some (.boolean true, rest)
      | 'f' :: 'a' :: 'l' :: 's' :: 'e' :: rest => some (.boolean false, rest)
      | '[' :: rest =>
          if room = 0 then none else readItems fuel (room - 1) [] (skipFiller false rest)
      | '\x7b' :: rest =>
          if room = 0 then none
          else
            match skipBlank rest with
            | '\x7d' :: rest => some (.table .closed [], rest)
            | rest => readFields fuel (room - 1) .empty rest
      | _ => readMoment text <|> readNumber text

/-- Reads the items of an array; `read` holds those before, in reverse. -/
def readItems : Nat → Nat → List Toml → List Char → Option (Toml × List Char)
  | 0, _, _, _ => none
  | fuel + 1, room, read, text =>
      match text with
      | ']' :: rest => some (.array read.reverse, rest)
      | _ =>
          match readValue fuel room text with
          | none => none
          | some (item, rest) =>
              match skipFiller false rest with
              | ',' :: rest => readItems fuel room (item :: read) (skipFiller false rest)
              | ']' :: rest => some (.array (item :: read).reverse, rest)
              | _ => none

/-- Reads the fields of a table between braces; `before` holds what they define. -/
def readFields : Nat → Nat → Table → List Char → Option (Toml × List Char)
  | 0, _, _, _ => none
  | fuel + 1, room, before, text =>
      match readKey maxDepth text with
      | some (path, '=' :: rest) =>
          match readValue fuel room (skipBlank rest) with
          | none => none
          | some (value, rest) =>
              match before.define path value, skipBlank rest with
              | some extended, ',' :: rest => readFields fuel room extended rest
              | some extended, '\x7d' :: rest => some (.table .closed extended.fields, rest)
              | _, _ => none
      | _ => none

end

/-! ### Documents -/

/-- A statement: a header, which starts the section that later keys belong to, or a key with its
value. -/
def readStatement (fuel : Nat) (header : List String) (root : Table) (text : List Char) :
    Option (List String × Table × List Char) :=
  match text with
  | '[' :: '[' :: rest => do
      let (path, rest) ← readKey maxDepth rest
      return (path, ← root.openNext path, ← lineEnd? (← expect ']' (← expect ']' rest)))
  | '[' :: rest => do
      let (path, rest) ← readKey maxDepth rest
      return (path, ← root.openTable path, ← lineEnd? (← expect ']' rest))
  | _ => do
      let (path, rest) ← readKey maxDepth text
      let (value, rest) ← readValue fuel maxDepth (skipBlank (← expect '=' rest))
      return (header, ← root.updateAt false (·.define path value) header, ← lineEnd? rest)

def readLinesFrom : Nat → List String → Table → List Char → Option Table
  | 0, _, _, _ => none
  | fuel + 1, header, root, text =>
      match skipBlank text with
      | [] => some root
      | text =>
          match lineEnd? text with
          | some rest => readLinesFrom fuel header root rest
          | none =>
              match readStatement (2 * text.length + 2) header root text with
              | some (header, root, rest) => readLinesFrom fuel header root rest
              | none => none

/-- The table that a document describes. A byte order mark at the front is skipped. -/
def parse? (document : String) : Option Table :=
  let text := match document.toList with
    | '\ufeff' :: rest => rest
    | text => text
  readLinesFrom (text.length + 1) [] .empty text

end NodeGraph.Toml
