import NodeGraph.Primitive.Basic
import NodeGraph.Value.Text

/-!
Arrays and strings.
-/

namespace NodeGraph.Collection

/-- The longest array that `range` makes. -/
def maxRange : Nat := Nat.pow 2 20

def length (array : Value) : Except ValueError Value := do
  return .integer (Int64.ofNat (← array.asArray).length)

def item (array index : Value) : Except ValueError Value := do
  let items ← array.asArray
  let position ← index.asInteger
  let found := if position < 0 then none else items[position.toNatClampNeg]?
  match found with
  | some value => return value
  | none =>
      .error (.domain ("index " ++ intText position.toInt ++
        " out of bounds for array of length " ++ natText items.length))

def concat (left right : Value) : Except ValueError Value := do
  return .array ((← left.asArray) ++ (← right.asArray))

def flatten (array : Value) : Except ValueError Value := do
  let _ ← array.asArray
  return array.flatten

def range (count : Value) : Except ValueError Value := do
  let length ← count.asInteger
  if length < 0 || length.toInt > maxRange then
    .error (.domain ("range length " ++ intText length.toInt ++
      " is outside [0, " ++ natText maxRange ++ "]"))
  else
    return .array ((List.range length.toNatClampNeg).map fun index => .integer (Int64.ofNat index))

def join (left right : Value) : Except ValueError Value := do
  return .text ((← left.asText) ++ (← right.asText))

/-- A string is its own textual form. -/
def toText : Value → Except ValueError Value
  | .text string => .ok (.text string)
  | value => .ok (.text value.display)

def signature (name : String) (params : List Ty) (result : Ty) (description : String) :
    Signature :=
  ⟨name, .collection, description, ⟨params, result⟩⟩

def primitives : List Primitive :=
  let element : Ty := .generic 0
  let array : Ty := .array element
  [ .unary (signature "array_length" [array] .number "Number of elements") length,
    .binary (signature "array_get" [array, .number] element "Element at a zero-based index") item,
    .binary (signature "array_concat" [array, array] array "Concatenate two arrays") concat,
    .unary (signature "array_flatten" [.array array] array "Concatenate nested arrays") flatten,
    .unary (signature "range" [.number] (.array .number)
      "Integers from 0 up to (excluding) n") range,
    .binary (signature "concat" [.text, .text] .text "Concatenate two strings") join,
    .unary (signature "to_string" [element] .text "Textual form of a value") toText ]

end NodeGraph.Collection
