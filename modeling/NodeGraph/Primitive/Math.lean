import NodeGraph.Primitive.Basic

/-!
Arithmetic. Two integers give an integer when the result fits 64 bits; every other pair of
numbers is computed in floats.
-/

namespace NodeGraph.Math

/-- The integer as 64 bits, when it fits. -/
def fit? (integer : Int) : Option Int64 :=
  if -Int.pow 2 63 ≤ integer ∧ integer < Int.pow 2 63 then some (Int64.ofInt integer) else none

/-- Exact on two integers when the result fits, otherwise on floats. -/
def arithmetic (onIntegers : Int → Int → Int) (onFloats : Float → Float → Float)
    (left right : Value) : Except ValueError Value :=
  let exact : Option Int64 :=
    match left, right with
    | .integer a, .integer b => fit? (onIntegers a.toInt b.toInt)
    | _, _ => none
  match exact with
  | some result => .ok (.integer result)
  | none => do return .number (onFloats (← left.asNumber) (← right.asNumber))

def divide (left right : Value) : Except ValueError Value := do
  let dividend ← left.asNumber
  let divisor ← right.asNumber
  if divisor == 0 then .error (.domain "division by zero")
  else return .number (dividend / divisor)

def power (left right : Value) : Except ValueError Value := do
  return .number ((← left.asNumber).pow (← right.asNumber))

/-- An integer operation where its result fits, the float operation elsewhere. -/
def signed (onInteger : Int → Int) (onFloat : Float → Float) (operand : Value) :
    Except ValueError Value :=
  let exact : Option Int64 :=
    match operand with
    | .integer a => fit? (onInteger a.toInt)
    | _ => none
  match exact with
  | some result => .ok (.integer result)
  | none => do return .number (onFloat (← operand.asNumber))

def squareRoot (operand : Value) : Except ValueError Value := do
  let number ← operand.asNumber
  if number < 0 then
    .error (.domain ("square root of negative number " ++ Decimal.text number))
  else return .number number.sqrt

/-- Faults on a bound that is not a number; refuses bounds in the wrong order. -/
def clamp (operand low high : Value) : Except Failure Value := do
  let number ← operand.asNumber.mapError .refused
  let lowest ← low.asNumber.mapError .refused
  let highest ← high.asNumber.mapError .refused
  if lowest > highest then
    .error (.refused (.domain
      ("empty clamp range [" ++ Decimal.text lowest ++ ", " ++ Decimal.text highest ++ "]")))
  else if lowest ≤ highest then
    let raised := if number < lowest then lowest else number
    return .number (if raised > highest then highest else raised)
  else .error (.fault (.unorderedBounds lowest highest))

def clampAll : List Value → Except Failure Value
  | operand :: low :: high :: _ => clamp operand low high
  | operands => .error (.fault (.missingOperand operands.length))

/-- The float nearest to the ratio of a circle's circumference to its diameter. -/
def pi : Float := 3.141592653589793

def signature (name : String) (arity : Nat) (description : String) : Signature :=
  ⟨name, .math, description, ⟨List.replicate arity .number, .number⟩⟩

def primitives : List Primitive :=
  [ .binary (signature "add" 2 "Add two numbers (a + b)") (arithmetic (· + ·) (· + ·)),
    .binary (signature "sub" 2 "Subtract two numbers (a - b)") (arithmetic (· - ·) (· - ·)),
    .binary (signature "mul" 2 "Multiply two numbers (a * b)") (arithmetic (· * ·) (· * ·)),
    .binary (signature "div" 2 "Divide two numbers (a / b)") divide,
    .binary (signature "min" 2 "Smaller of two numbers") (arithmetic min smaller),
    .binary (signature "max" 2 "Larger of two numbers") (arithmetic max larger),
    .binary (signature "pow" 2 "Raise a to the power b") power,
    .unary (signature "neg" 1 "Negate a number") (signed (- ·) (- ·)),
    .unary (signature "abs" 1 "Absolute value") (signed (fun a => a.natAbs) Float.abs),
    .unary (signature "sqrt" 1 "Square root") squareRoot,
    ⟨signature "clamp" 3 "Clamp x to [lo, hi]", clampAll⟩,
    .nullary (signature "pi" 0 "The constant pi") (.number pi) ]

end NodeGraph.Math
