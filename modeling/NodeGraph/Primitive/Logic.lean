import NodeGraph.Primitive.Basic

/-!
Comparison, truth values and selection.
-/

namespace NodeGraph.Logic

def compare (holds : Float → Float → Bool) (left right : Value) : Except ValueError Value := do
  return .boolean (holds (← left.asNumber) (← right.asNumber))

/-- The right operand is looked at only when the left one does not decide. -/
def conjunction (left right : Value) : Except ValueError Value := do
  if ← left.asBoolean then return .boolean (← right.asBoolean) else return .boolean false

def disjunction (left right : Value) : Except ValueError Value := do
  if ← left.asBoolean then return .boolean true else return .boolean (← right.asBoolean)

def negation (operand : Value) : Except ValueError Value := do
  return .boolean (!(← operand.asBoolean))

/-- Both branches are values already. -/
def select (condition chosen other : Value) : Except ValueError Value := do
  return if ← condition.asBoolean then chosen else other

def comparison (name description : String) : Signature :=
  ⟨name, .logic, description, ⟨[.number, .number], .boolean⟩⟩

def connective (name : String) (arity : Nat) (description : String) : Signature :=
  ⟨name, .logic, description, ⟨List.replicate arity .boolean, .boolean⟩⟩

def primitives : List Primitive :=
  [ .binary (comparison "lt" "a < b") (compare (· < ·)),
    .binary (comparison "le" "a <= b") (compare (· ≤ ·)),
    .binary (comparison "gt" "a > b") (compare (· > ·)),
    .binary (comparison "ge" "a >= b") (compare (· ≥ ·)),
    .binary ⟨"eq", .logic, "Equality of two values of the same type",
        ⟨[.generic 0, .generic 0], .boolean⟩⟩
      (fun left right => .ok (.boolean (left.numericEqual right))),
    .binary (connective "and" 2 "Logical conjunction") conjunction,
    .binary (connective "or" 2 "Logical disjunction") disjunction,
    .unary (connective "not" 1 "Logical negation") negation,
    .ternary ⟨"if", .logic, "Select the second operand when the first is true, else the third",
        ⟨[.boolean, .generic 0, .generic 0], .generic 0⟩⟩
      select ]

end NodeGraph.Logic
