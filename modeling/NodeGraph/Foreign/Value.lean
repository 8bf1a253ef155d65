import NodeGraph.Value.Basic

/-!
Values as a foreign numeric runtime holds them: scalars, strings, flat arrays of floats, opaque
handles, and tagged blocks of fields. A block's tag says which structure its fields are.
-/

namespace NodeGraph

inductive Foreign where
  | float (real : Float)
  | int (whole : Int64)
  | bool (truth : Bool)
  | string (text : String)
  | floats (reals : List Float)
  | block (tag : UInt8) (fields : List Foreign)
  | handle (image : Image)
  deriving Inhabited

inductive BlockFault where
  | fieldCount (expected found : Nat)
  | notNumeric
  | negativeSize
  | componentRange
  deriving DecidableEq, Repr

def BlockFault.message : BlockFault → String
  | .fieldCount expected found =>
      "expected " ++ natText expected ++ " fields, found " ++
        natText found
  | .notNumeric => "non-numeric field"
  | .negativeSize => "negative size"
  | .componentRange => "color component outside [0, 1]"

inductive BridgeError where
  | unrepresentable (kind : ValueKind)
  | unknownTag (tag : UInt8)
  | malformed (tag : UInt8) (fault : BlockFault)
  /-- The foreign runtime gave up with a message of its own. -/
  | failed (name message : String)
  deriving DecidableEq, Repr

def BridgeError.kind : BridgeError → String
  | .unrepresentable _ => "Unrepresentable"
  | .unknownTag _ => "UnknownTag"
  | .malformed _ _ => "Malformed"
  | .failed _ _ => "Foreign"

def BridgeError.message : BridgeError → String
  | .unrepresentable kind => kind.name ++ " values cannot be represented in the foreign runtime"
  | .unknownTag tag => "unknown foreign block tag " ++ natText tag.toNat
  | .malformed tag fault =>
      "malformed foreign block (tag " ++ natText tag.toNat ++ "): " ++ fault.message
  | .failed name message => "foreign primitive '" ++ name ++ "' failed: " ++ message

namespace Foreign

def pointTag : UInt8 := 1
def rectTag : UInt8 := 2
def colorTag : UInt8 := 3
def arrayTag : UInt8 := 4

def floatBlock (tag : UInt8) (fields : List Float) : Foreign := .block tag (fields.map .float)

/-- Integers are widened. -/
def asFloat? : Foreign → Option Float
  | .float real => some real
  | .int whole => some (nearestFloat whole)
  | _ => none

/-- The numbers of an array that holds nothing else. -/
def numbers? : List Value → Option (List Float)
  | [] => some []
  | .number real :: rest => (numbers? rest).map (real :: ·)
  | _ => none

mutual

/-- Non-empty arrays of numbers go unboxed; errors and functions cannot go at all. -/
def ofValue : Value → Except BridgeError Foreign
  | .number real => .ok (.float real)
  | .integer whole => .ok (.int whole)
  | .boolean truth => .ok (.bool truth)
  | .text characters => .ok (.string characters)
  | .point place => .ok (floatBlock pointTag [place.x, place.y])
  | .rect area =>
      .ok (floatBlock rectTag [area.origin.x, area.origin.y, area.size.width, area.size.height])
  | .color shade => .ok (floatBlock colorTag shade.components)
  | .array [] => .ok (.block arrayTag [])
  | .array (item :: items) =>
      match numbers? (item :: items) with
      | some reals => .ok (.floats reals)
      | none => do
          let first ← ofValue item
          let rest ← ofValues items
          return .block arrayTag (first :: rest)
  | .image image => .ok (.handle image)
  | .error _ => .error (.unrepresentable .error)
  | .function _ => .error (.unrepresentable .function)

def ofValues : List Value → Except BridgeError (List Foreign)
  | [] => .ok []
  | value :: rest => do
      let first ← ofValue value
      let rest ← ofValues rest
      return first :: rest

end

/-- Exactly `count` numeric fields. -/
def floatFields (tag : UInt8) (count : Nat) (fields : List Foreign) :
    Except BridgeError (List Float) :=
  if fields.length ≠ count then .error (.malformed tag (.fieldCount count fields.length))
  else
    match fields.mapM asFloat? with
    | some reals => .ok reals
    | none => .error (.malformed tag .notNumeric)

def toPoint (fields : List Foreign) : Except BridgeError Value := do
  match ← floatFields pointTag 2 fields with
  | [x, y] => return .point ⟨x, y⟩
  | reals => .error (.malformed pointTag (.fieldCount 2 reals.length))

def toRect (fields : List Foreign) : Except BridgeError Value := do
  match ← floatFields rectTag 4 fields with
  | [x, y, width, height] =>
      if width < 0 || height < 0 then .error (.malformed rectTag .negativeSize)
      else return .rect (.of x y width height)
  | reals => .error (.malformed rectTag (.fieldCount 4 reals.length))

def toColor (fields : List Foreign) : Except BridgeError Value := do
  let reals ← floatFields colorTag 4 fields
  if reals.any fun real => !(0 ≤ real && real ≤ 1) then
    .error (.malformed colorTag .componentRange)
  else
    match reals with
    | [red, green, blue, alpha] => return .color ⟨red, green, blue, alpha⟩
    | _ => .error (.malformed colorTag (.fieldCount 4 reals.length))

mutual

def toValue : Foreign → Except BridgeError Value
  | .float real => .ok (.number real)
  | .int whole => .ok (.integer whole)
  | .bool truth => .ok (.boolean truth)
  | .string text => .ok (.text text)
  | .floats reals => .ok (.array (reals.map .number))
  | .handle image => .ok (.image image)
  | .block tag fields =>
      if tag = pointTag then toPoint fields
      else if tag = rectTag then toRect fields
      else if tag = colorTag then toColor fields
      else if tag = arrayTag then do return .array (← toValues fields)
      else .error (.unknownTag tag)

def toValues : List Foreign → Except BridgeError (List Value)
  | [] => .ok []
  | foreign :: rest => do
      let first ← toValue foreign
      let rest ← toValues rest
      return first :: rest

end

end Foreign

end NodeGraph
