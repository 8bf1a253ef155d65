import NodeGraph.Expr.Basic

/-!
Kinds of values, typed views, equality and flattening.
-/

namespace NodeGraph

inductive ValueKind where
  | number
  | integer
  | boolean
  | point
  | rect
  | color
  | text
  | array
  | image
  | error
  | function
  deriving DecidableEq, Repr

def ValueKind.name : ValueKind → String
  | .number => "Number"
  | .integer => "Integer"
  | .boolean => "Boolean"
  | .point => "Point"
  | .rect => "Rect"
  | .color => "Color"
  | .text => "String"
  | .array => "Array"
  | .image => "Image"
  | .error => "Error"
  | .function => "Function"

inductive ValueError where
  | mismatch (expected found : ValueKind)
  | domain (message : String)
  deriving DecidableEq, Repr

def ValueError.message : ValueError → String
  | .mismatch expected found =>
      "type mismatch: expected " ++ expected.name ++ ", found " ++ found.name
  | .domain message => message

/-- The float nearest to an integer; of two that are equally near, the one whose mantissa is even. -/
def nearestFloat (whole : Int64) : Float := .ofModel (.ofInt64 whole)

def Callable.same : Callable → Callable → Bool
  | .primitive left, .primitive right => left == right
  | .closure left _ _ _, .closure right _ _ _ => left == right
  | _, _ => false

def Callable.isPrimitive : Callable → Bool
  | .primitive _ => true
  | .closure _ _ _ _ => false

namespace Value

def kind : Value → ValueKind
  | .number _ => .number
  | .integer _ => .integer
  | .boolean _ => .boolean
  | .point _ => .point
  | .rect _ => .rect
  | .color _ => .color
  | .text _ => .text
  | .array _ => .array
  | .image _ => .image
  | .error _ => .error
  | .function _ => .function

def isError : Value → Bool
  | .error _ => true
  | _ => false

def isArray : Value → Bool
  | .array _ => true
  | _ => false

def isImage : Value → Bool
  | .image _ => true
  | _ => false

def isFunction : Value → Bool
  | .function _ => true
  | _ => false

def firstError? (values : List Value) : Option Value := values.find? isError

def asNumber : Value → Except ValueError Float
  | .number real => .ok real
  | .integer whole => .ok (nearestFloat whole)
  | value => .error (.mismatch .number value.kind)

/-- Finite numbers without a fraction read as integers, clamped to 64 bits. -/
def asInteger : Value → Except ValueError Int64
  | .integer whole => .ok whole
  | .number real =>
      if real.isFinite && real.floor == real then .ok real.toInt64
      else .error (.mismatch .integer .number)
  | value => .error (.mismatch .integer value.kind)

def asBoolean : Value → Except ValueError Bool
  | .boolean truth => .ok truth
  | value => .error (.mismatch .boolean value.kind)

def asPoint : Value → Except ValueError Point
  | .point place => .ok place
  | value => .error (.mismatch .point value.kind)

def asRect : Value → Except ValueError Rect
  | .rect area => .ok area
  | value => .error (.mismatch .rect value.kind)

def asColor : Value → Except ValueError Color
  | .color shade => .ok shade
  | value => .error (.mismatch .color value.kind)

def asText : Value → Except ValueError String
  | .text string => .ok string
  | value => .error (.mismatch .text value.kind)

def asArray : Value → Except ValueError (List Value)
  | .array items => .ok items
  | value => .error (.mismatch .array value.kind)

def asImage : Value → Except ValueError Image
  | .image handle => .ok handle
  | value => .error (.mismatch .image value.kind)

def asCallable : Value → Except ValueError Callable
  | .function callable => .ok callable
  | value => .error (.mismatch .function value.kind)

def errorMessage? : Value → Option String
  | .error message => some message
  | _ => none

mutual

/-- Puts the elements that are not arrays in front of `tail`, in reverse order. -/
def flattenOnto (tail : List Value) : Value → List Value
  | .array items => flattenListOnto tail items
  | value => value :: tail

def flattenListOnto (tail : List Value) : List Value → List Value
  | [] => tail
  | item :: rest => flattenListOnto (flattenOnto tail item) rest

end

/-- The elements that are not arrays, in order; a value that is no array is its only element. -/
def flatItems (value : Value) : List Value := (flattenOnto [] value).reverse

def flatten (value : Value) : Value := .array value.flatItems

mutual

/-- Whether all floats inside are finite. -/
def isFinite : Value → Bool
  | .number real => real.isFinite
  | .point place => place.isFinite
  | .rect area => area.isFinite
  | .color shade => shade.isFinite
  | .array items => isFiniteList items
  | _ => true

def isFiniteList : List Value → Bool
  | [] => true
  | item :: rest => item.isFinite && isFiniteList rest

end

mutual

/-- Equality of values of one kind; floats compare as numbers. -/
def equal : Value → Value → Bool
  | .number left, .number right => left == right
  | .integer left, .integer right => left == right
  | .boolean left, .boolean right => left == right
  | .point left, .point right => left.equal right
  | .rect left, .rect right => left.equal right
  | .color left, .color right => left.equal right
  | .text left, .text right => left == right
  | .array left, .array right => equalList left right
  | .image left, .image right => left.equal right
  | .error left, .error right => left == right
  | .function left, .function right => left.same right
  | _, _ => false

def equalList : List Value → List Value → Bool
  | [], [] => true
  | left :: lefts, right :: rights => left.equal right && equalList lefts rights
  | _, _ => false

end

mutual

/-- Equality that also compares integers with numbers, at every depth. -/
def numericEqual : Value → Value → Bool
  | .integer left, .number right => nearestFloat left == right
  | .number left, .integer right => nearestFloat right == left
  | .array left, .array right => numericEqualList left right
  | left, right => left.equal right

def numericEqualList : List Value → List Value → Bool
  | [], [] => true
  | left :: lefts, right :: rights => left.numericEqual right && numericEqualList lefts rights
  | _, _ => false

end

end Value

namespace Expr

mutual

def equal : Expr → Expr → Bool
  | .constant left, .constant right => left.equal right
  | .variable left, .variable right => left == right
  | .argument left, .argument right => left == right
  | .primitive left leftOperands, .primitive right rightOperands =>
      left == right && equalList leftOperands rightOperands
  | .apply left leftOperands, .apply right rightOperands =>
      left.equal right && equalList leftOperands rightOperands
  | .map leftArray left, .map rightArray right => leftArray.equal rightArray && left.equal right
  | .lambda leftParams left, .lambda rightParams right =>
      leftParams == rightParams && left.equal right
  | _, _ => false

def equalList : List Expr → List Expr → Bool
  | [], [] => true
  | left :: lefts, right :: rights => left.equal right && equalList lefts rights
  | _, _ => false

end

mutual

def constantsFinite : Expr → Bool
  | .constant value => value.isFinite
  | .variable _ | .argument _ => true
  | .primitive _ operands => constantsFiniteList operands
  | .apply operator operands => operator.constantsFinite && constantsFiniteList operands
  | .map array callable => array.constantsFinite && callable.constantsFinite
  | .lambda _ body => body.constantsFinite

def constantsFiniteList : List Expr → Bool
  | [] => true
  | expr :: rest => expr.constantsFinite && constantsFiniteList rest

end

end Expr

end NodeGraph
