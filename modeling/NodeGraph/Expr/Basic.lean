import NodeGraph.Color
import NodeGraph.Image

/-!
Expressions and values. An expression computes a parameter of a node; a value is what it computes.
The two are defined together, because a constant holds a value and a function value holds the
expression of its body.
-/

namespace NodeGraph

/-- Where a lambda was evaluated: the route of evaluation steps that led there, last step first.
Two function values are the same function only when they arose at the same place. -/
abbrev Origin := List Nat

mutual

inductive Expr where
  | constant (value : Value)
  /-- A name bound by a lambda, a node parameter or a node input. -/
  | variable (name : String)
  /-- A value passed by position to the innermost call. -/
  | argument (index : UInt64)
  /-- Without operands the primitive stands for itself. -/
  | primitive (name : String) (operands : List Expr)
  | apply (operator : Expr) (operands : List Expr)
  /-- Elementwise application to an array. -/
  | map (array callable : Expr)
  /-- Without names the body reads its arguments by position. -/
  | lambda (params : List String) (body : Expr)

inductive Value where
  | number (real : Float)
  | integer (whole : Int64)
  | boolean (truth : Bool)
  | point (place : Point)
  | rect (area : Rect)
  | color (shade : Color)
  | text (string : String)
  | array (items : List Value)
  | image (handle : Image)
  /-- A failed evaluation, carried as a value. -/
  | error (message : String)
  | function (callable : Callable)

/-- What can be called. -/
inductive Callable where
  | primitive (name : String)
  /-- A lambda with the bindings that were visible where it was evaluated. -/
  | closure (origin : Origin) (params : List String) (body : Expr)
      (bindings : List (String × Value))

end

/-- Names and their values, innermost first. -/
abbrev Bindings := List (String × Value)

instance : Inhabited Value := ⟨.error ""⟩
instance : Inhabited Expr := ⟨.constant default⟩

namespace Expr

/-- The parameter whose value is a node's output. -/
def outputName : String := "output"

/-- The largest frame of a lambda, and the bound on input slots that are read unconnected. -/
def maxArguments : Nat := 1024

/-- The variable of an input slot. -/
def inputName (slot : Nat) : String := "in" ++ natText slot

/-- The input slot that a name designates: `in` and decimal digits of a 64-bit number. -/
def inputSlot? (name : String) : Option Nat :=
  match name.toList with
  | 'i' :: 'n' :: digits =>
      if digits.isEmpty || digits.any (fun digit => !digit.isDigit) then none
      else
        let slot := Numeral.valueOf digits
        if slot < UInt64.size then some slot else none
  | _ => none

def input (slot : Nat) : Expr := .variable (inputName slot)

def isLambda : Expr → Bool
  | .lambda _ _ => true
  | _ => false

mutual

/-- One more than the largest argument index outside nested lambdas, at most `2^64 - 1`. -/
def argumentArity : Expr → Nat
  | .argument index => min (index.toNat + 1) (UInt64.size - 1)
  | .constant _ | .variable _ | .lambda _ _ => 0
  | .primitive _ operands => argumentArityList operands
  | .apply operator operands => max operator.argumentArity (argumentArityList operands)
  | .map array callable => max array.argumentArity callable.argumentArity

def argumentArityList : List Expr → Nat
  | [] => 0
  | expr :: rest => max expr.argumentArity (argumentArityList rest)

end

/-- The number of arguments a lambda takes: its names, or what its body reads by position. -/
def lambdaArity (params : List String) (body : Expr) : Nat :=
  if params.isEmpty then body.argumentArity else params.length

mutual

def primitiveNames : Expr → List String
  | .constant _ | .variable _ | .argument _ => []
  | .primitive name operands => name :: primitiveNamesList operands
  | .apply operator operands => operator.primitiveNames ++ primitiveNamesList operands
  | .map array callable => array.primitiveNames ++ callable.primitiveNames
  | .lambda _ body => body.primitiveNames

def primitiveNamesList : List Expr → List String
  | [] => []
  | expr :: rest => expr.primitiveNames ++ primitiveNamesList rest

end

end Expr

end NodeGraph
