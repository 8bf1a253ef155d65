import NodeGraph.Stored.Value

/-!
The stored form of expressions: an object whose `kind` stands among the fields of that kind. As the
kind may stand anywhere, an expression is held back as a whole before it is read.
-/

namespace NodeGraph.Stored

def kinded (kind : String) (fields : List (String × Json)) : Json :=
  .object (("kind", .string kind) :: fields)

mutual

def writeExpr : Expr → Option Json
  | .constant value => do return kinded "constant" [("value", ← writeValue value)]
  | .variable name => some (kinded "variable" [("name", .string name)])
  | .argument index => some (kinded "argument" [("index", .ofNat index.toNat)])
  | .primitive name operands => do
      return kinded "primitive"
        [("name", .string name), ("operands", .array (← writeExprs operands))]
  | .apply operator operands => do
      return kinded "apply"
        [("operator", ← writeExpr operator), ("operands", .array (← writeExprs operands))]
  | .map array callable => do
      return kinded "map" [("array", ← writeExpr array), ("lambda", ← writeExpr callable)]
  | .lambda params body => do
      return kinded "lambda"
        [("params", .array (params.map .string)), ("body", ← writeExpr body)]

def writeExprs : List Expr → Option (List Json)
  | [] => some []
  | expr :: rest => do
      let first ← writeExpr expr
      let rest ← writeExprs rest
      return first :: rest

end

/-- Splits off the tag of an alternative that stands among its fields. -/
def readKinded : Json → Option (Json × Json)
  | .array (tag :: items) => some (tag, .array items)
  | .object fields => do
      match ← uniqueField fields "kind" with
      | some tag => return (tag, .object (fields.filter fun field => field.1 != "kind"))
      | none => none
  | _ => none

def exprKinds : List String :=
  ["constant", "variable", "argument", "primitive", "apply", "map", "lambda"]

def readTexts : Json → Option (List String)
  | .array items => items.mapM readText
  | _ => none

/-- Reads an expression that fits the room; `held` says whether a larger part was held back. -/
def readFitting : Nat → Bool → Json → Option Expr
  | 0, _, _ => none
  | room + 1, held, json => do
      let (tag, body) ← readKinded json
      let readMany : Json → Option (List Expr) := fun
        | .array items => items.mapM (readFitting room true)
        | _ => none
      match ← readMark exprKinds held tag with
      | "constant" =>
          match ← requiredFields ["value"] body with
          | [value] => return .constant (← readValue room true value)
          | _ => none
      | "variable" =>
          match ← requiredFields ["name"] body with
          | [name] => return .variable (← readText name)
          | _ => none
      | "argument" =>
          match ← requiredFields ["index"] body with
          | [index] => return .argument (UInt64.ofNat (← readNatural UInt64.size index))
          | _ => none
      | "primitive" =>
          match ← requiredFields ["name", "operands"] body with
          | [name, operands] => return .primitive (← readText name) (← readMany operands)
          | _ => none
      | "apply" =>
          match ← requiredFields ["operator", "operands"] body with
          | [operator, operands] =>
              return .apply (← readFitting room true operator) (← readMany operands)
          | _ => none
      | "map" =>
          match ← requiredFields ["array", "lambda"] body with
          | [array, callable] =>
              return .map (← readFitting room true array) (← readFitting room true callable)
          | _ => none
      | "lambda" =>
          match ← requiredFields ["params", "body"] body with
          | [params, body] => return .lambda (← readTexts params) (← readFitting room true body)
          | _ => none
      | _ => none

def readExpr (room : Nat) (json : Json) : Option Expr :=
  if json.fits room then readFitting room false json else none

end NodeGraph.Stored
