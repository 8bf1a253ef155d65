import NodeGraph.Typing.Ty
import NodeGraph.Value.Basic

/-!
Primitives: named operations over values, each with a signature.
-/

namespace NodeGraph

inductive Category where
  | math
  | logic
  | geometry
  | color
  | collection
  | foreign
  deriving DecidableEq, Repr

namespace Category

def displayName : Category → String
  | .math => "Math"
  | .logic => "Logic"
  | .geometry => "Geometry"
  | .color => "Color"
  | .collection => "Collection"
  | .foreign => "Foreign"

def all : List Category := [.math, .logic, .geometry, .color, .collection, .foreign]

end Category

structure Signature where
  name : String
  category : Category
  description : String
  scheme : Scheme

def Signature.arity (signature : Signature) : Nat := signature.scheme.arity

/-- A breach that no error value stands for; it ends the whole evaluation. -/
inductive Fault where
  /-- Clamping between bounds of which one is not a number. -/
  | unorderedBounds (low high : Float)
  /-- A primitive reads an operand that it is not given. -/
  | missingOperand (position : Nat)

def Fault.message : Fault → String
  | .unorderedBounds _ _ => "bounds that are not ordered"
  | .missingOperand position => "no operand at position " ++ natText position

inductive Failure where
  | refused (error : ValueError)
  | fault (fault : Fault)

/-- `apply` is made for exactly as many operands as the signature has parameters, none an error. Of
more it reads the first ones, and fewer are a fault. -/
structure Primitive where
  signature : Signature
  apply : List Value → Except Failure Value

namespace Primitive

/-- An operation that can refuse its operands but never faults. -/
def ofRefusing (signature : Signature) (body : List Value → Except ValueError Value) :
    Primitive :=
  ⟨signature, fun operands => (body operands).mapError .refused⟩

def nullary (signature : Signature) (value : Value) : Primitive :=
  ofRefusing signature fun _ => .ok value

def unary (signature : Signature) (body : Value → Except ValueError Value) : Primitive :=
  ⟨signature, fun
    | operand :: _ => (body operand).mapError .refused
    | [] => .error (.fault (.missingOperand 0))⟩

def binary (signature : Signature) (body : Value → Value → Except ValueError Value) :
    Primitive :=
  ⟨signature, fun
    | first :: second :: _ => (body first second).mapError .refused
    | operands => .error (.fault (.missingOperand operands.length))⟩

def ternary (signature : Signature) (body : Value → Value → Value → Except ValueError Value) :
    Primitive :=
  ⟨signature, fun
    | first :: second :: third :: _ => (body first second third).mapError .refused
    | operands => .error (.fault (.missingOperand operands.length))⟩

def quaternary (signature : Signature)
    (body : Value → Value → Value → Value → Except ValueError Value) : Primitive :=
  ⟨signature, fun
    | first :: second :: third :: fourth :: _ => (body first second third fourth).mapError .refused
    | operands => .error (.fault (.missingOperand operands.length))⟩

end Primitive

end NodeGraph
