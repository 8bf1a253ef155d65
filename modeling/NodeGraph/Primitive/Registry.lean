import NodeGraph.Primitive.Basic
import NodeGraph.Text.LowerCase

/-!
The registry: primitives found by name, and an index of names by category. A replaced primitive
keeps its place among the names but goes to the end of its category.
-/

namespace NodeGraph

structure Registry where
  primitives : List Primitive
  /-- Category and name of every primitive, in the order of their last registration. -/
  palette : List (Category × String)

/-- Why an operation by name gives an error value before its body runs. -/
inductive InvokeError where
  | unknownPrimitive (name : String)
  | arityMismatch (name : String) (expected found : Nat)
  deriving DecidableEq, Repr

def InvokeError.message : InvokeError → String
  | .unknownPrimitive name => "unknown primitive '" ++ name ++ "'"
  | .arityMismatch name expected found =>
      "arity mismatch: '" ++ name ++ "' expects " ++ natText expected ++
        " operand(s), found " ++ natText found

namespace Registry

def empty : Registry := ⟨[], []⟩

def find? (registry : Registry) (name : String) : Option Primitive :=
  registry.primitives.find? fun primitive => primitive.signature.name == name

def signature? (registry : Registry) (name : String) : Option Signature :=
  (registry.find? name).map (·.signature)

def arity? (registry : Registry) (name : String) : Option Nat :=
  (registry.signature? name).map (·.arity)

def contains (registry : Registry) (name : String) : Bool := (registry.find? name).isSome

def names (registry : Registry) : List String :=
  registry.primitives.map (·.signature.name)

def size (registry : Registry) : Nat := registry.primitives.length

def isEmpty (registry : Registry) : Bool := registry.primitives.isEmpty

def put (primitive : Primitive) : List Primitive → List Primitive
  | [] => [primitive]
  | first :: rest =>
      if first.signature.name == primitive.signature.name then primitive :: rest
      else first :: put primitive rest

/-- The index without a name in the category that its signature gives. -/
def unlist (registry : Registry) (name : String) : List (Category × String) :=
  match registry.signature? name with
  | some previous => registry.palette.filter (· != (previous.category, name))
  | none => registry.palette

def register (registry : Registry) (primitive : Primitive) : Registry :=
  let signature := primitive.signature
  { primitives := put primitive registry.primitives
    palette := registry.unlist signature.name ++ [(signature.category, signature.name)] }

def registerAll (registry : Registry) (primitives : List Primitive) : Registry :=
  primitives.foldl register registry

def unregister (registry : Registry) (name : String) : Registry :=
  { primitives := registry.primitives.filter fun primitive => primitive.signature.name != name
    palette := registry.unlist name }

/-- The value of an operation; whatever is wrong with the call is an error value. -/
def invoke (registry : Registry) (name : String) (operands : List Value) : Except Fault Value :=
  match registry.find? name with
  | none => .ok (.error (InvokeError.unknownPrimitive name).message)
  | some primitive =>
      let arity := primitive.signature.arity
      if operands.length ≠ arity then
        .ok (.error (InvokeError.arityMismatch name arity operands.length).message)
      else
        match Value.firstError? operands with
        | some error => .ok error
        | none =>
            match primitive.apply operands with
            | .ok value => .ok value
            | .error (.refused error) => .ok (.error error.message)
            | .error (.fault fault) => .error fault

def byCategory (registry : Registry) (category : Category) : List String :=
  (registry.palette.filter fun entry => entry.1 == category).map (·.2)

/-- Signatures by category in the order of display, sorted by name, without empty groups. -/
def grouped (registry : Registry) : List (Category × List Signature) :=
  Category.all.filterMap fun category =>
    let signatures := (registry.byCategory category).filterMap registry.signature?
    if signatures.isEmpty then none
    else some (category, signatures.mergeSort fun left right => left.name ≤ right.name)

def occursIn (pattern : List Char) : List Char → Bool
  | [] => pattern.isEmpty
  | first :: rest => pattern.isPrefixOf (first :: rest) || occursIn pattern rest

/-- The names of primitives whose name or description contains the query in any case. -/
def search (registry : Registry) (query : String) : List String :=
  let pattern := (lowerCase query).toList
  let matching := registry.primitives.filter fun primitive =>
    occursIn pattern (lowerCase primitive.signature.name).toList ||
      occursIn pattern (lowerCase primitive.signature.description).toList
  matching.map (·.signature.name)

end Registry

end NodeGraph
