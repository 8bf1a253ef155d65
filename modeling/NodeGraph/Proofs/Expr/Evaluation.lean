import NodeGraph.Expr.Eval

/-!
Equations of evaluation. What stands in operator position is found in one way for applications and
maps.
-/

namespace NodeGraph

namespace Expr

variable (registry : Registry) (call : Call) (frame : Frame) (origin : Origin)

/-- The callable in operator position, or the error in its place. -/
def callableWith (expr : Expr) : Except Fault (Except Value Callable) :=
  match expr.bareName? with
  | some name => .ok (registry.callable? name)
  | none => Value.operator <$> expr.evalWith registry call frame origin

theorem evalWith_apply (operator : Expr) (operands : List Expr) :
    (Expr.apply operator operands).evalWith registry call frame origin = (do
      match ← operator.callableWith registry call frame (0 :: origin) with
      | .error error => return error
      | .ok callable =>
          match ← evalOperands registry call frame origin 2 operands with
          | .error error => return error
          | .ok values => call (1 :: origin) callable values) := by
  rw [evalWith, callableWith]
  cases operator.bareName? <;> rfl

def mapWith (items : List Value) : Except Value Callable → Except Fault Value
  | .error error => .ok error
  | .ok callable =>
      match registry.callArity? callable with
      | none => .ok EvalError.notCallable.value
      | some 1 => callEach call origin callable items
      | some arity => .ok (EvalError.arityMismatch arity 1).value

theorem evalWith_map (array callable : Expr) :
    (Expr.map array callable).evalWith registry call frame origin = (do
      match (← array.evalWith registry call frame (0 :: origin)).mapped with
      | .error error => return error
      | .ok items =>
          mapWith registry call origin items
            (← callable.callableWith registry call frame (1 :: origin))) := by
  rw [evalWith]
  congr 1
  funext value
  cases value.mapped with
  | error error => rfl
  | ok items =>
      simp only [callableWith]
      cases callable.bareName? <;> rfl

end Expr

def enter (registry : Registry) (remaining : Nat) (origin : Origin) (params : List String)
    (body : Expr) (bindings : Bindings) (arguments : List Value) : Except Fault Value :=
  match remaining with
  | 0 => .ok (EvalError.callDepthExceeded Expr.maxCallDepth).value
  | remaining + 1 =>
      body.evalWith registry (callWithin registry remaining) (.ofCall bindings params arguments)
        origin

theorem callWithin_eq (registry : Registry) (remaining : Nat) (origin : Origin)
    (callable : Callable) (arguments : List Value) :
    callWithin registry remaining origin callable arguments =
      match Value.firstError? arguments with
      | some error => .ok error
      | none =>
          match callable with
          | .primitive name => registry.invoke name arguments
          | .closure _ params body bindings =>
              let arity := Expr.lambdaArity params body
              if arguments.length ≠ arity then
                .ok (EvalError.arityMismatch arity arguments.length).value
              else enter registry remaining origin params body bindings arguments := by
  rw [callWithin.eq_def]
  rfl

end NodeGraph
