import NodeGraph.Text.Numeral

/-!
Types of expressions and their texts.
-/

namespace NodeGraph

inductive BaseType where
  | number
  | boolean
  | text
  | point
  | rect
  | color
  | image
  deriving DecidableEq, Repr

def BaseType.name : BaseType → String
  | .number => "Number"
  | .boolean => "Boolean"
  | .text => "String"
  | .point => "Point"
  | .rect => "Rect"
  | .color => "Color"
  | .image => "Image"

inductive Ty where
  | base (kind : BaseType)
  | array (element : Ty)
  | function (params : List Ty) (result : Ty)
  /-- A variable of an inference table. -/
  | var (id : Nat)
  /-- An unconstrained type, numbered within one type or scheme. -/
  | generic (number : Nat)
  deriving Inhabited

/-- The type of a primitive; its generics are replaced by fresh variables at every use. -/
structure Scheme where
  params : List Ty
  result : Ty

namespace Ty

abbrev number : Ty := .base .number
abbrev boolean : Ty := .base .boolean
abbrev text : Ty := .base .text
abbrev point : Ty := .base .point
abbrev rect : Ty := .base .rect
abbrev color : Ty := .base .color
abbrev image : Ty := .base .image

def isFunction : Ty → Bool
  | .function _ _ => true
  | _ => false

mutual

def isGround : Ty → Bool
  | .base _ => true
  | .array element => element.isGround
  | .function params result => isGroundList params && result.isGround
  | .var _ | .generic _ => false

def isGroundList : List Ty → Bool
  | [] => true
  | ty :: rest => ty.isGround && isGroundList rest

end

/-- A quote and a letter, followed by a number once the alphabet is used up. -/
def genericName (number : Nat) : String :=
  let letter := String.ofList ['\'', Char.ofNat ('a'.toNat + number % 26)]
  if number < 26 then letter else letter ++ natText (number / 26)

mutual

def display : Ty → String
  | .base kind => kind.name
  | .array element => "Array<" ++ element.display ++ ">"
  | .function params result =>
      "(" ++ String.intercalate ", " (displayList params) ++ ") -> " ++ result.display
  | .var id => "?" ++ natText id
  | .generic number => genericName number

def displayList : List Ty → List String
  | [] => []
  | ty :: rest => ty.display :: displayList rest

end

end Ty

namespace Scheme

def arity (scheme : Scheme) : Nat := scheme.params.length

def toTy (scheme : Scheme) : Ty := .function scheme.params scheme.result

end Scheme

end NodeGraph
