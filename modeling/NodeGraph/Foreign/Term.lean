import NodeGraph.Foreign.Value
import NodeGraph.Primitive.Basic

/-!
Expressions as foreign terms, and primitives whose body runs in the foreign runtime. A term is a
block whose tag names the form of the expression; lists of operands and of names are array blocks.
-/

namespace NodeGraph.Foreign

def constantTag : UInt8 := 16
def variableTag : UInt8 := 17
def argumentTag : UInt8 := 18
def primitiveTag : UInt8 := 19
def applyTag : UInt8 := 20
def mapTag : UInt8 := 21
def lambdaTag : UInt8 := 22

mutual

/-- An argument index of 64 bits is carried as the signed integer of the same bits. -/
def ofExpr : Expr → Except BridgeError Foreign
  | .constant value => do return .block constantTag [← ofValue value]
  | .variable name => .ok (.block variableTag [.string name])
  | .argument index => .ok (.block argumentTag [.int index.toInt64])
  | .primitive name operands => do
      let operands ← ofExprs operands
      return .block primitiveTag [.string name, .block arrayTag operands]
  | .apply operator operands => do
      let operator ← ofExpr operator
      let operands ← ofExprs operands
      return .block applyTag [operator, .block arrayTag operands]
  | .map array callable => do
      let array ← ofExpr array
      let callable ← ofExpr callable
      return .block mapTag [array, callable]
  | .lambda params body => do
      let body ← ofExpr body
      return .block lambdaTag [.block arrayTag (params.map .string), body]

def ofExprs : List Expr → Except BridgeError (List Foreign)
  | [] => .ok []
  | expr :: rest => do
      let first ← ofExpr expr
      let rest ← ofExprs rest
      return first :: rest

end

end NodeGraph.Foreign

namespace NodeGraph

/-- Runs a foreign function between the two conversions. -/
def Foreign.call (name : String) (function : List Foreign → Except String Foreign)
    (operands : List Value) : Except BridgeError Value := do
  let arguments ← Foreign.ofValues operands
  match function arguments with
  | .ok result => result.toValue
  | .error message => .error (.failed name message)

/-- A primitive of the foreign category; what goes wrong on the way is refused. -/
def Primitive.ofForeign (signature : Signature)
    (function : List Foreign → Except String Foreign) : Primitive :=
  .ofRefusing { signature with category := .foreign } fun operands =>
    (Foreign.call signature.name function operands).mapError fun error => .domain error.message

end NodeGraph
