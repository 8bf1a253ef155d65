import NodeGraph.Text.Quoted
import NodeGraph.Value.Basic

/-!
The texts of values and expressions that people read. An expression prints on one line:
primitives as calls, arguments as `#0`, lambdas as `|x, y| body`.
-/

namespace NodeGraph

def commaSeparated (texts : List String) : String := String.intercalate ", " texts

namespace Value

mutual

def display : Value → String
  | .number real => Decimal.text real
  | .integer whole => intText whole.toInt
  | .boolean truth => if truth then "true" else "false"
  | .point place => place.text
  | .rect area => area.text
  | .color shade => shade.toHex
  | .text string => quoted string
  | .array [] => "[]"
  | .array (item :: items) => displayRest ("[" ++ item.display) items ++ "]"
  | .image handle => "Image(" ++ handle.id.shortText ++ ")"
  | .error message => "Error(" ++ message ++ ")"
  | .function (.closure _ params body _) =>
      "<lambda/" ++ natText (Expr.lambdaArity params body) ++ ">"
  | .function (.primitive name) => "<primitive " ++ name ++ ">"

/-- Adds the remaining items of an array to the text of those before them. -/
def displayRest (shown : String) : List Value → String
  | [] => shown
  | item :: items => displayRest (shown ++ ", " ++ item.display) items

end

end Value

namespace Expr

/-- An operator that needs no parentheses in front of its operands. -/
def isSimpleOperator : Expr → Bool
  | .variable _ | .argument _ | .primitive _ [] => true
  | _ => false

mutual

def print : Expr → String
  | .constant value => value.display
  | .variable name => name
  | .argument index => "#" ++ natText index.toNat
  | .primitive name [] => name
  | .primitive name (operand :: operands) => name ++ printOperands (operand :: operands)
  | .apply operator operands =>
      (if operator.isSimpleOperator then operator.print else "(" ++ operator.print ++ ")") ++
        printOperands operands
  | .map array callable => "map(" ++ array.print ++ ", " ++ callable.print ++ ")"
  | .lambda params body => "|" ++ commaSeparated params ++ "| " ++ body.print

def printOperands (operands : List Expr) : String :=
  "(" ++ commaSeparated (printList operands) ++ ")"

def printList : List Expr → List String
  | [] => []
  | expr :: rest => expr.print :: printList rest

end

end Expr

end NodeGraph
