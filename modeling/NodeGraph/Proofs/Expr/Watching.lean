import NodeGraph.Proofs.Expr.Evaluation

/-!
Evaluation under watch. It goes step by step like evaluation, and notes every lookup that finds
nothing and every application of a primitive; what it makes of an expression is what evaluation
makes of it.
-/

namespace NodeGraph

/-- A lookup that finds nothing. -/
inductive Miss where
  | unbound (name : String)
  | outOfRange (index available : Nat)
  /-- The argument of an input that is not connected. -/
  | unconnected (slot : Nat)
  deriving DecidableEq

structure Application where
  name : String
  operands : List Value

/-- An outcome with the lookups on the way that found nothing and the applications of primitives, a
fault's included. -/
structure Watched (result : Type) where
  missed : List Miss
  applied : List Application
  outcome : Except Fault result

namespace Watched

def lift {result : Type} (outcome : Except Fault result) : Watched result := ⟨[], [], outcome⟩

def andThen {first result : Type} (watched : Watched first) (next : first → Watched result) :
    Watched result :=
  match watched.outcome with
  | .error fault => ⟨watched.missed, watched.applied, .error fault⟩
  | .ok value => ⟨watched.missed ++ (next value).missed, watched.applied ++ (next value).applied,
      (next value).outcome⟩

instance : Monad Watched where
  pure value := lift (.ok value)
  bind := andThen

instance : LawfulMonad Watched := LawfulMonad.mk' Watched
  (fun watched => by
    obtain ⟨missed, applied, outcome⟩ := watched
    change andThen _ _ = _
    cases outcome <;> simp [andThen, lift])
  (fun value next => by
    change andThen (lift (.ok value)) next = _
    simp [andThen, lift])
  (fun watched next last => by
    obtain ⟨missed, applied, outcome⟩ := watched
    change andThen (andThen _ _) _ = andThen _ fun value => andThen _ _
    cases outcome with
    | error fault => rfl
    | ok value =>
        simp only [andThen]
        cases (next value).outcome <;> simp)

variable {first result : Type}

@[simp] theorem outcome_pure (value : result) : (pure value : Watched result).outcome = .ok value :=
  rfl

@[simp] theorem outcome_lift (outcome : Except Fault result) : (lift outcome).outcome = outcome :=
  rfl

@[simp] theorem outcome_bind (watched : Watched first) (next : first → Watched result) :
    (watched >>= next).outcome = watched.outcome >>= fun value => (next value).outcome := by
  obtain ⟨missed, applied, outcome⟩ := watched
  cases outcome <;> rfl

@[simp] theorem outcome_map (change : first → result) (watched : Watched first) :
    (change <$> watched).outcome = change <$> watched.outcome := by
  obtain ⟨missed, applied, outcome⟩ := watched
  cases outcome <;> rfl

@[simp] theorem outcome_mapM (each : first → Watched result) (items : List first) :
    (items.mapM each).outcome = items.mapM fun item => (each item).outcome := by
  induction items with
  | nil => rfl
  | cons item rest ih =>
      rw [List.mapM_cons, List.mapM_cons, outcome_bind]
      congr 1
      funext value
      rw [outcome_bind, ih]
      rfl

end Watched

namespace Frame

def watchName (frame : Frame) (name : String) : Watched Value :=
  ⟨if (frame.bindings.lookup name).isSome then [] else [.unbound name], [],
    .ok (frame.valueOf name)⟩

/-- Looks an argument up, where some are inputs that are not connected. -/
def watchArgument (frame : Frame) (vacant : List Nat) (index : Nat) : Watched Value :=
  ⟨if index ∈ vacant then [.unconnected index]
    else if index < frame.arguments.length then []
    else [.outOfRange index frame.arguments.length],
    [], .ok (frame.argumentAt index)⟩

end Frame

def watchInvoke (registry : Registry) (name : String) (operands : List Value) : Watched Value :=
  ⟨[], [⟨name, operands⟩], registry.invoke name operands⟩

abbrev WatchedCall := Origin → Callable → List Value → Watched Value

def WatchedCall.unwatched (call : WatchedCall) : Call :=
  fun origin callable arguments => (call origin callable arguments).outcome

def watchEach (call : WatchedCall) (origin : Origin) (callable : Callable) (items : List Value) :
    Watched Value := do
  let values ← items.zipIdx.mapM fun (item, index) =>
    call ((index + 2) :: origin) callable [item]
  return .array values

namespace Expr

def watchMap (registry : Registry) (call : WatchedCall) (origin : Origin) (items : List Value) :
    Except Value Callable → Watched Value
  | .error error => return error
  | .ok callable =>
      match registry.callArity? callable with
      | none => return EvalError.notCallable.value
      | some 1 => watchEach call origin callable items
      | some arity => return (EvalError.arityMismatch arity 1).value

def watchCallable (registry : Registry) (expr : Expr) (value : Watched Value) :
    Watched (Except Value Callable) :=
  match expr.bareName? with
  | some name => return registry.callable? name
  | none => Value.operator <$> value

mutual

def watchWith (registry : Registry) (call : WatchedCall) (vacant : List Nat) (frame : Frame)
    (origin : Origin) : Expr → Watched Value
  | .constant value => return value
  | .variable name => frame.watchName name
  | .argument index => frame.watchArgument vacant index.toNat
  | .primitive name operands =>
      match registry.arity? name with
      | none => return (EvalError.unknownPrimitive name).value
      | some arity =>
          if operands.isEmpty && arity > 0 then return .function (.primitive name)
          else if operands.length ≠ arity then
            return (EvalError.arityMismatch arity operands.length).value
          else do
            match ← watchOperands registry call vacant frame origin 0 operands with
            | .error error => return error
            | .ok values => watchInvoke registry name values
  | .apply operator operands => do
      match ← watchCallable registry operator
        (watchWith registry call vacant frame (0 :: origin) operator) with
      | .error error => return error
      | .ok callable =>
          match ← watchOperands registry call vacant frame origin 2 operands with
          | .error error => return error
          | .ok values => call (1 :: origin) callable values
  | .map array callable => do
      match (← watchWith registry call vacant frame (0 :: origin) array).mapped with
      | .error error => return error
      | .ok items =>
          watchMap registry call origin items (← watchCallable registry callable
            (watchWith registry call vacant frame (1 :: origin) callable))
  | .lambda params body => return .function (.closure origin params body frame.bindings)

def watchOperands (registry : Registry) (call : WatchedCall) (vacant : List Nat) (frame : Frame)
    (origin : Origin) (position : Nat) : List Expr → Watched (Except Value (List Value))
  | [] => return .ok []
  | operand :: rest => do
      let value ← watchWith registry call vacant frame (position :: origin) operand
      if value.isError then return .error value
      else
        let values ← watchOperands registry call vacant frame origin (position + 1) rest
        return values.map (value :: ·)

end

end Expr

def watchEntering (registry : Registry) (enter : List String → Expr → Bindings → Watched Value)
    (callable : Callable) (arguments : List Value) : Watched Value :=
  match Value.firstError? arguments with
  | some error => return error
  | none =>
      match callable with
      | .primitive name => watchInvoke registry name arguments
      | .closure _ params body bindings =>
          let arity := Expr.lambdaArity params body
          if arguments.length ≠ arity then
            return (EvalError.arityMismatch arity arguments.length).value
          else enter params body bindings

def watchCall (registry : Registry) : Nat → WatchedCall
  | 0 => fun _ => watchEntering registry fun _ _ _ =>
      return (EvalError.callDepthExceeded Expr.maxCallDepth).value
  | remaining + 1 => fun origin callable arguments =>
      watchEntering registry (fun params body bindings =>
        body.watchWith registry (watchCall registry remaining) []
          (.ofCall bindings params arguments) origin) callable arguments

def Expr.watch (registry : Registry) (vacant : List Nat) (frame : Frame) (origin : Origin)
    (expr : Expr) : Watched Value :=
  expr.watchWith registry (watchCall registry maxCallDepth) vacant frame origin

section Unwatched

variable {registry : Registry} {call : WatchedCall}

theorem watchMap_outcome (origin : Origin) (items : List Value)
    (callable : Except Value Callable) :
    (Expr.watchMap registry call origin items callable).outcome =
      Expr.mapWith registry call.unwatched origin items callable := by
  have each : ∀ callable, (watchEach call origin callable items).outcome =
      callEach call.unwatched origin callable items := by
    intro callable
    rw [watchEach, callEach, Watched.outcome_bind, Watched.outcome_mapM]
    rfl
  cases callable with
  | error error => rfl
  | ok callable =>
      simp only [Expr.watchMap, Expr.mapWith]
      cases registry.callArity? callable with
      | none => rfl
      | some arity =>
          rcases arity with _ | _ | _
          · rfl
          · exact each callable
          · rfl

theorem watchCallable_outcome {vacant : List Nat} {frame : Frame} {origin : Origin} {expr : Expr}
    (same : (expr.watchWith registry call vacant frame origin).outcome =
      expr.evalWith registry call.unwatched frame origin) :
    (Expr.watchCallable registry expr (expr.watchWith registry call vacant frame origin)).outcome =
      expr.callableWith registry call.unwatched frame origin := by
  rw [Expr.watchCallable, Expr.callableWith]
  cases expr.bareName? with
  | some name => rfl
  | none => rw [Watched.outcome_map, same]

mutual

theorem watchWith_outcome (vacant : List Nat) (frame : Frame) (origin : Origin) (expr : Expr) :
    (expr.watchWith registry call vacant frame origin).outcome =
      expr.evalWith registry call.unwatched frame origin := by
  match expr with
  | .constant value => rfl
  | .variable name => rfl
  | .argument index => rfl
  | .primitive name operands =>
      have operandsSame := watchOperands_outcome vacant frame origin 0 operands
      rw [Expr.watchWith, Expr.evalWith]
      cases registry.arity? name with
      | none => rfl
      | some arity =>
          simp only
          split
          · rfl
          · split
            · rfl
            · rw [Watched.outcome_bind, operandsSame]
              congr 1
              funext values
              cases values <;> rfl
  | .apply operator operands =>
      have operatorSame := watchWith_outcome vacant frame (0 :: origin) operator
      have operandsSame := watchOperands_outcome vacant frame origin 2 operands
      rw [Expr.watchWith, Expr.evalWith_apply, Watched.outcome_bind,
        watchCallable_outcome operatorSame]
      congr 1
      funext callable
      cases callable with
      | error error => rfl
      | ok callable =>
          rw [Watched.outcome_bind, operandsSame]
          congr 1
          funext values
          cases values <;> rfl
  | .map array callable =>
      have arraySame := watchWith_outcome vacant frame (0 :: origin) array
      have callableSame := watchWith_outcome vacant frame (1 :: origin) callable
      rw [Expr.watchWith, Expr.evalWith_map, Watched.outcome_bind, arraySame]
      congr 1
      funext value
      cases value.mapped with
      | error error => rfl
      | ok items =>
          simp only
          rw [Watched.outcome_bind, watchCallable_outcome callableSame]
          congr 1
          funext callable
          exact watchMap_outcome origin items callable
  | .lambda params body => rfl

theorem watchOperands_outcome (vacant : List Nat) (frame : Frame) (origin : Origin) (position : Nat)
    (exprs : List Expr) :
    (Expr.watchOperands registry call vacant frame origin position exprs).outcome =
      Expr.evalOperands registry call.unwatched frame origin position exprs := by
  match exprs with
  | [] => rfl
  | operand :: rest =>
      rw [Expr.watchOperands, Expr.evalOperands, Watched.outcome_bind,
        watchWith_outcome vacant frame _ operand]
      congr 1
      funext value
      split
      · rfl
      · rw [Watched.outcome_bind, watchOperands_outcome vacant frame origin (position + 1) rest]
        rfl

end

theorem watchEntering_outcome {remaining : Nat} {origin : Origin} {arguments : List Value}
    {entering : List String → Expr → Bindings → Watched Value}
    (same : ∀ params body bindings, (entering params body bindings).outcome =
      enter registry remaining origin params body bindings arguments) (callable : Callable) :
    (watchEntering registry entering callable arguments).outcome =
      callWithin registry remaining origin callable arguments := by
  rw [watchEntering.eq_def, callWithin_eq]
  cases Value.firstError? arguments with
  | some error => rfl
  | none =>
      cases callable with
      | primitive name => rfl
      | closure created params body bindings =>
          simp only
          split
          · rfl
          · exact same params body bindings

theorem watchCall_unwatched (remaining : Nat) :
    (watchCall registry remaining).unwatched = callWithin registry remaining := by
  induction remaining with
  | zero =>
      funext origin callable arguments
      exact watchEntering_outcome (fun params body bindings => rfl) callable
  | succ remaining ih =>
      funext origin callable arguments
      refine watchEntering_outcome (fun params body bindings => ?_) callable
      rw [watchWith_outcome, ih]
      rfl

theorem Expr.watch_outcome (vacant : List Nat) (frame : Frame) (origin : Origin) (expr : Expr) :
    (expr.watch registry vacant frame origin).outcome = expr.eval registry frame origin := by
  rw [watch, eval, watchWith_outcome, watchCall_unwatched]

end Unwatched

end NodeGraph
