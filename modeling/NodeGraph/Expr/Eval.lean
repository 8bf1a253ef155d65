import NodeGraph.Primitive.Registry

/-!
Evaluation. Every failure of an expression is an error value, and an error operand is the result
of the operation that uses it; only a fault ends an evaluation without a value.

An evaluation step is named by its origin. The steps below it extend that origin, each in its own
way, so no two steps of one evaluation share an origin and every lambda that is evaluated makes a
function of its own.
-/

namespace NodeGraph

inductive EvalError where
  | unboundVariable (name : String)
  | argumentOutOfRange (index available : Nat)
  | unknownPrimitive (name : String)
  | arityMismatch (expected found : Nat)
  | callDepthExceeded (limit : Nat)
  | mismatch (expected found : ValueKind)
  | notCallable
  deriving DecidableEq, Repr

def EvalError.message : EvalError → String
  | .unboundVariable name => "unbound variable '" ++ name ++ "'"
  | .argumentOutOfRange index available =>
      "argument index out of range: #" ++ natText index ++ " with " ++
        natText available ++ " argument(s)"
  | .unknownPrimitive name => "unknown primitive '" ++ name ++ "'"
  | .arityMismatch expected found =>
      "arity mismatch: expected " ++ natText expected ++ " argument(s), found " ++
        natText found
  | .callDepthExceeded limit =>
      "call depth limit of " ++ natText limit ++ " exceeded"
  | .mismatch expected found => (ValueError.mismatch expected found).message
  | .notCallable => "map operand is not callable"

def EvalError.value (error : EvalError) : Value := .error error.message

/-- What an expression sees: named values and the arguments of the current call. -/
structure Frame where
  bindings : Bindings
  arguments : List Value

namespace Frame

def empty : Frame := ⟨[], []⟩

def bind (frame : Frame) (name : String) (value : Value) : Frame :=
  { frame with bindings := (name, value) :: frame.bindings }

def valueOf (frame : Frame) (name : String) : Value :=
  match frame.bindings.lookup name with
  | some value => value
  | none => (EvalError.unboundVariable name).value

def argumentAt (frame : Frame) (index : Nat) : Value :=
  match frame.arguments[index]? with
  | some value => value
  | none => (EvalError.argumentOutOfRange index frame.arguments.length).value

/-- Input `slot` is the variable `in{slot}` and the argument of that position. An input that is
missing stays unbound, and its argument is an error. -/
def addInput (frame : Frame) (slot : Nat) (input : Option Value) : Frame :=
  let name := Expr.inputName slot
  match input with
  | some value => ⟨(name, value) :: frame.bindings, frame.arguments ++ [value]⟩
  | none => { frame with arguments := frame.arguments ++ [(EvalError.unboundVariable name).value] }

def ofInputs (inputs : List (Option Value)) : Frame :=
  inputs.zipIdx.foldl (fun frame (input, slot) => frame.addInput slot input) empty

/-- The frame of a call: the bindings of the closure below its parameters, of which a repeated
name means the last. -/
def ofCall (bindings : Bindings) (params : List String) (arguments : List Value) : Frame :=
  ⟨(params.zip arguments).reverse ++ bindings, arguments⟩

end Frame

namespace Registry

def callable? (registry : Registry) (name : String) : Except Value Callable :=
  if registry.contains name then .ok (.primitive name)
  else .error (EvalError.unknownPrimitive name).value

def callArity? (registry : Registry) : Callable → Option Nat
  | .primitive name => registry.arity? name
  | .closure _ params body _ => some (Expr.lambdaArity params body)

end Registry

namespace Value

/-- The function in operator position, or the error that the application gives. -/
def operator : Value → Except Value Callable
  | .function callable => .ok callable
  | .error message => .error (.error message)
  | value => .error (EvalError.mismatch .function value.kind).value

/-- The items to map over, or the error that the map gives. -/
def mapped : Value → Except Value (List Value)
  | .array items => .ok items
  | .error message => .error (.error message)
  | value => .error (EvalError.mismatch .array value.kind).value

end Value

/-- How a callable is called with arguments at an origin. -/
abbrev Call := Origin → Callable → List Value → Except Fault Value

/-- Calls a function of one argument on every item, in order. -/
def callEach (call : Call) (origin : Origin) (callable : Callable) (items : List Value) :
    Except Fault Value := do
  let values ← items.zipIdx.mapM fun (item, index) =>
    call ((index + 2) :: origin) callable [item]
  return .array values

namespace Expr

/-- The name of a primitive that stands for itself. -/
def bareName? : Expr → Option String
  | .primitive name [] => some name
  | _ => none

mutual

/-- The value of an expression, given how calls are made. A bare primitive in operator position
is called by name even when it takes no operands. -/
def evalWith (registry : Registry) (call : Call) (frame : Frame) (origin : Origin) :
    Expr → Except Fault Value
  | .constant value => .ok value
  | .variable name => .ok (frame.valueOf name)
  | .argument index => .ok (frame.argumentAt index.toNat)
  | .primitive name operands =>
      match registry.arity? name with
      | none => .ok (EvalError.unknownPrimitive name).value
      | some arity =>
          if operands.isEmpty && arity > 0 then .ok (.function (.primitive name))
          else if operands.length ≠ arity then
            .ok (EvalError.arityMismatch arity operands.length).value
          else do
            match ← evalOperands registry call frame origin 0 operands with
            | .error error => return error
            | .ok values => registry.invoke name values
  | .apply operator operands => do
      let callable ← match operator.bareName? with
        | some name => pure (registry.callable? name)
        | none => Value.operator <$> evalWith registry call frame (0 :: origin) operator
      match callable with
      | .error error => return error
      | .ok callable =>
          match ← evalOperands registry call frame origin 2 operands with
          | .error error => return error
          | .ok values => call (1 :: origin) callable values
  | .map array callable => do
      match (← evalWith registry call frame (0 :: origin) array).mapped with
      | .error error => return error
      | .ok items =>
          let callable ← match callable.bareName? with
            | some name => pure (registry.callable? name)
            | none => Value.operator <$> evalWith registry call frame (1 :: origin) callable
          match callable with
          | .error error => return error
          | .ok callable =>
              match registry.callArity? callable with
              | none => return EvalError.notCallable.value
              | some 1 => callEach call origin callable items
              | some arity => return (EvalError.arityMismatch arity 1).value
  | .lambda params body => .ok (.function (.closure origin params body frame.bindings))

def evalOperands (registry : Registry) (call : Call) (frame : Frame) (origin : Origin)
    (position : Nat) : List Expr → Except Fault (Except Value (List Value))
  | [] => .ok (.ok [])
  | operand :: rest => do
      let value ← evalWith registry call frame (position :: origin) operand
      if value.isError then return .error value
      else
        let values ← evalOperands registry call frame origin (position + 1) rest
        return values.map (value :: ·)

end

/-- How deep closure calls may nest. -/
def maxCallDepth : Nat := 256

end Expr

/-- Calls a callable with `remaining` closure calls left to nest. Arguments are checked for errors
first, then their number, then the depth. -/
def callWithin (registry : Registry) : Nat → Call
  | remaining, origin, callable, arguments =>
      match Value.firstError? arguments with
      | some error => .ok error
      | none =>
          match callable with
          | .primitive name => registry.invoke name arguments
          | .closure _ params body bindings =>
              let arity := Expr.lambdaArity params body
              if arguments.length ≠ arity then
                .ok (EvalError.arityMismatch arity arguments.length).value
              else
                match remaining with
                | 0 => .ok (EvalError.callDepthExceeded Expr.maxCallDepth).value
                | remaining + 1 =>
                    body.evalWith registry (callWithin registry remaining)
                      (.ofCall bindings params arguments) origin

def Expr.eval (registry : Registry) (frame : Frame) (origin : Origin) (expr : Expr) :
    Except Fault Value :=
  expr.evalWith registry (callWithin registry maxCallDepth) frame origin

end NodeGraph
