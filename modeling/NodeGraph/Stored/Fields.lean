import NodeGraph.Json.Basic

/-!
Parts of the stored form that all its readers share: scalars, records and tagged alternatives.

A record is an object, in which unknown fields are ignored and known ones stand once, or an array
of its fields in order. A reader has room for so many nested containers. A part that stands
before the tag that tells its form is held back until the tag is known. A held part must fit the
room as a whole, ignored fields included, and has more ways to give an alternative.
-/

namespace NodeGraph.Stored

/-- How many containers a stored text may nest. -/
def maxDepth : Nat := 127

def readFloat : Json → Option Float
  | .number numeral => numeral.scalar?.map Scalar.toFloat
  | _ => none

/-- An integer literal below a bound. -/
def readNatural (bound : Nat) : Json → Option Nat
  | .number numeral =>
      match numeral.scalar? with
      | some (.natural number) => if number < bound then some number else none
      | _ => none
  | _ => none

def readInteger : Json → Option Int64
  | .number numeral =>
      match numeral.scalar? with
      | some (.natural number) => if number < Nat.pow 2 63 then some (Int64.ofNat number) else none
      | some (.negative number) => some (Int64.ofInt number)
      | _ => none
  | _ => none

def readBoolean : Json → Option Bool
  | .bool truth => some truth
  | _ => none

def readText : Json → Option String
  | .string text => some text
  | _ => none

/-- A missing field or `null` is nothing. -/
def readOptional {α : Type} (read : Json → Option α) : Option Json → Option (Option α)
  | none | some .null => some none
  | some json => (read json).map some

/-- The items of an array, each read with the room inside it. -/
def readItems {α : Type} (read : Nat → Json → Option α) : Nat → Json → Option (List α)
  | room + 1, .array items => items.mapM (read room)
  | _, _ => none

/-- The value of a field that stands at most once; the outer `none` is for a repeated one. -/
def uniqueField (fields : List (String × Json)) (name : String) : Option (Option Json) :=
  match fields.filter fun field => field.1 == name with
  | [] => some none
  | [(_, value)] => some (some value)
  | _ => none

/-- The fields of a record in the order of `names`. In an array the first `least` must be there. -/
def recordFields (names : List String) (least : Nat) : Json → Option (List (Option Json))
  | .object fields => names.mapM (uniqueField fields)
  | .array items =>
      if least ≤ items.length ∧ items.length ≤ names.length then
        some (items.map some ++ List.replicate (names.length - items.length) none)
      else none
  | _ => none

/-- The fields of a record that has no optional ones. -/
def requiredFields (names : List String) (json : Json) : Option (List Json) := do
  (← recordFields names names.length json).mapM id

/-- The alternative that a tag in an array tells: by its name, or where it was held back, also by
its number. -/
def readMark (names : List String) (held : Bool) : Json → Option String
  | .string name => if names.contains name then some name else none
  | .number numeral =>
      match held, numeral.scalar? with
      | true, some (.natural number) => names[number]?
      | _, _ => none
  | _ => none

/-- The name of an alternative with nothing in it: the name alone, or an object whose only key is
the name and whose value is `null`; a held value may also be the empty object. -/
def readName (room : Nat) (held : Bool) : Json → Option String
  | .string name => some name
  | .object [(name, content)] =>
      if room = 0 then none
      else
        match content with
        | .null => some name
        | .object [] => if held then some name else none
        | _ => none
  | _ => none

/-- An alternative, the content that belongs to it, and whether the content was held back. -/
structure Tagged where
  alternative : String
  content : Json
  held : Bool

/-- Reads a tagged alternative whose tag and content stand in fields of their own. The tag is held
back only with the whole, the content also where it stands before the tag. -/
def readTagged (tagName contentName : String) (names : List String) (held : Bool) (room : Nat) :
    Json → Option Tagged
  | .array [tag, content] => do return ⟨← readMark names held tag, content, held⟩
  | .object fields =>
      match fields.filter fun field => field.1 == tagName || field.1 == contentName with
      | [(first, left), (second, right)] =>
          if first = second then none
          else if first = tagName then do return ⟨← readName room held left, right, held⟩
          else if left.fits room then do return ⟨← readName room held right, left, true⟩
          else none
      | _ => none
  | _ => none

end NodeGraph.Stored
