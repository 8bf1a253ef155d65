import NodeGraph.Proofs.Expr.Evaluation

/-!
Evaluation in place. An evaluator holds what the current expression sees and how many calls of
closures are open. A call puts the closure's bindings and its own arguments in the place of what is
there, runs the body, and puts back what it found. Every evaluation, however it ends in a value,
leaves the evaluator as it was, and gives the value that evaluation by frames gives.
-/

namespace NodeGraph

structure Evaluator where
  bindings : Bindings
  arguments : List Value
  /-- How many calls of closures are open. -/
  depth : Nat

namespace Evaluator

def frame (evaluator : Evaluator) : Frame := ⟨evaluator.bindings, evaluator.arguments⟩

def remaining (evaluator : Evaluator) : Nat := Expr.maxCallDepth - evaluator.depth

abbrev Run := StateT Evaluator (Except Fault)

abbrev RunCall := Origin → Callable → List Value → Run Value

def enclosed (bindings : Bindings) (params : List String) (arguments : List Value)
    (body : Run Value) : Run Value := do
  let outer ← get
  let called := Frame.ofCall bindings params arguments
  modify fun evaluator => { evaluator with bindings := called.bindings }
  modify fun evaluator => { evaluator with arguments := called.arguments }
  modify fun evaluator => { evaluator with depth := evaluator.depth + 1 }
  let value ← body
  modify fun evaluator => { evaluator with depth := evaluator.depth - 1 }
  modify fun evaluator => { evaluator with arguments := outer.arguments }
  modify fun evaluator => { evaluator with bindings := outer.bindings }
  return value

def runCallable (registry : Registry) (expr : Expr) (value : Run Value) :
    Run (Except Value Callable) :=
  match expr.bareName? with
  | some name => return registry.callable? name
  | none => Value.operator <$> value

def runEach (call : RunCall) (origin : Origin) (callable : Callable) (items : List Value) :
    Run Value := do
  let values ← items.zipIdx.mapM fun (item, index) =>
    call ((index + 2) :: origin) callable [item]
  return .array values

def runMap (registry : Registry) (call : RunCall) (origin : Origin) (items : List Value) :
    Except Value Callable → Run Value
  | .error error => return error
  | .ok callable =>
      match registry.callArity? callable with
      | none => return EvalError.notCallable.value
      | some 1 => runEach call origin callable items
      | some arity => return (EvalError.arityMismatch arity 1).value

mutual

def runWith (registry : Registry) (call : RunCall) (origin : Origin) : Expr → Run Value
  | .constant value => return value
  | .variable name => return (← get).frame.valueOf name
  | .argument index => return (← get).frame.argumentAt index.toNat
  | .primitive name operands =>
      match registry.arity? name with
      | none => return (EvalError.unknownPrimitive name).value
      | some arity =>
          if operands.isEmpty && arity > 0 then return .function (.primitive name)
          else if operands.length ≠ arity then
            return (EvalError.arityMismatch arity operands.length).value
          else do
            match ← runOperands registry call origin 0 operands with
            | .error error => return error
            | .ok values => registry.invoke name values
  | .apply operator operands => do
      match ← runCallable registry operator (runWith registry call (0 :: origin) operator) with
      | .error error => return error
      | .ok callable =>
          match ← runOperands registry call origin 2 operands with
          | .error error => return error
          | .ok values => call (1 :: origin) callable values
  | .map array callable => do
      match (← runWith registry call (0 :: origin) array).mapped with
      | .error error => return error
      | .ok items =>
          runMap registry call origin items
            (← runCallable registry callable (runWith registry call (1 :: origin) callable))
  | .lambda params body => return .function (.closure origin params body (← get).bindings)

def runOperands (registry : Registry) (call : RunCall) (origin : Origin) (position : Nat) :
    List Expr → Run (Except Value (List Value))
  | [] => return .ok []
  | operand :: rest => do
      let value ← runWith registry call (position :: origin) operand
      if value.isError then return .error value
      else
        let values ← runOperands registry call origin (position + 1) rest
        return values.map (value :: ·)

end

def runEntering (registry : Registry) (entering : List String → Expr → Bindings → Run Value)
    (callable : Callable) (arguments : List Value) : Run Value :=
  match Value.firstError? arguments with
  | some error => return error
  | none =>
      match callable with
      | .primitive name => registry.invoke name arguments
      | .closure _ params body bindings =>
          let arity := Expr.lambdaArity params body
          if arguments.length ≠ arity then
            return (EvalError.arityMismatch arity arguments.length).value
          else entering params body bindings

/-- Calls in an evaluator. The depth is what ends the nesting of calls: it reaches its limit before
the bound here is used up. -/
def runCall (registry : Registry) : Nat → RunCall
  | 0 => fun _ => runEntering registry fun _ _ _ =>
      return (EvalError.callDepthExceeded Expr.maxCallDepth).value
  | bound + 1 => fun origin callable arguments =>
      runEntering registry (fun params body bindings => do
        if Expr.maxCallDepth ≤ (← get).depth then
          return (EvalError.callDepthExceeded Expr.maxCallDepth).value
        else
          enclosed bindings params arguments
            (runWith registry (runCall registry bound) origin body)) callable arguments

def evaluate (registry : Registry) (origin : Origin) (expr : Expr) : Run Value :=
  runWith registry (runCall registry Expr.maxCallDepth) origin expr

/-- In this evaluator the run has this outcome, and leaves the evaluator as it was. -/
def Settles {result : Type} (evaluator : Evaluator) (run : Run result)
    (outcome : Except Fault result) : Prop :=
  run.run evaluator = outcome.map fun value => (value, evaluator)

section Settling

variable {evaluator : Evaluator} {first result : Type}

theorem settles_pure (value : result) : evaluator.Settles (pure value) (.ok value) := rfl

theorem settles_lift (outcome : Except Fault result) :
    evaluator.Settles (liftM outcome) outcome := by
  cases outcome <;> rfl

theorem Settles.of_run {run : Run result} {outcome : Except Fault result}
    (settles : evaluator.Settles run outcome) {value : result} {after : Evaluator}
    (ended : run.run evaluator = .ok (value, after)) : outcome = .ok value ∧ after = evaluator := by
  rw [settles] at ended
  cases outcome with
  | error fault => cases ended
  | ok value =>
      cases ended
      exact ⟨rfl, rfl⟩

theorem Settles.bind {run : Run first} {outcome : Except Fault first}
    {next : first → Run result} {rest : first → Except Fault result}
    (settles : evaluator.Settles run outcome)
    (settlesNext : ∀ value, evaluator.Settles (next value) (rest value)) :
    evaluator.Settles (run >>= next) (outcome >>= rest) := by
  rw [Settles, StateT.run_bind, settles]
  cases outcome with
  | error fault => rfl
  | ok value => exact settlesNext value

theorem Settles.map {run : Run first} {outcome : Except Fault first}
    (settles : evaluator.Settles run outcome) (change : first → result) :
    evaluator.Settles (change <$> run) (change <$> outcome) := by
  rw [Settles, StateT.run_map, settles]
  cases outcome <;> rfl

theorem settles_get {next : Evaluator → Run result} {outcome : Except Fault result}
    (settles : evaluator.Settles (next evaluator) outcome) :
    evaluator.Settles (get >>= next) outcome := settles

theorem settles_mapM {item : Type} {each : item → Run result}
    {outcomes : item → Except Fault result}
    (settles : ∀ item, evaluator.Settles (each item) (outcomes item)) (items : List item) :
    evaluator.Settles (items.mapM each) (items.mapM outcomes) := by
  induction items with
  | nil => exact settles_pure []
  | cons item rest ih =>
      rw [List.mapM_cons, List.mapM_cons]
      exact (settles item).bind fun _ => ih.bind fun _ => settles_pure _

theorem settles_enclosed {bindings : Bindings} {params : List String} {arguments : List Value}
    {body : Run Value} {outcome : Except Fault Value}
    (settles : Settles ⟨(Frame.ofCall bindings params arguments).bindings, arguments,
      evaluator.depth + 1⟩ body outcome) :
    evaluator.Settles (enclosed bindings params arguments body) outcome := by
  obtain ⟨outerBindings, outerArguments, depth⟩ := evaluator
  rw [Settles] at settles ⊢
  change (body.run ⟨(Frame.ofCall bindings params arguments).bindings, arguments, depth + 1⟩ >>=
    fun ended => _) = _
  rw [settles]
  cases outcome <;> rfl

end Settling

section Evaluation

variable {registry : Registry} {evaluator : Evaluator} {call : RunCall} {outcomes : Call}

def SettlesCalls (evaluator : Evaluator) (call : RunCall) (outcomes : Call) : Prop :=
  ∀ origin callable arguments,
    evaluator.Settles (call origin callable arguments) (outcomes origin callable arguments)

theorem settles_runCallable {expr : Expr} {origin : Origin} {value : Run Value}
    (settles : evaluator.Settles value (expr.evalWith registry outcomes evaluator.frame origin)) :
    evaluator.Settles (runCallable registry expr value)
      (expr.callableWith registry outcomes evaluator.frame origin) := by
  rw [runCallable, Expr.callableWith]
  cases expr.bareName? with
  | some name => exact settles_pure _
  | none => exact settles.map _

theorem SettlesCalls.runMap (calls : evaluator.SettlesCalls call outcomes) (registry : Registry)
    (origin : Origin) (items : List Value) (callable : Except Value Callable) :
    evaluator.Settles (Evaluator.runMap registry call origin items callable)
      (Expr.mapWith registry outcomes origin items callable) := by
  cases callable with
  | error error => exact settles_pure _
  | ok callable =>
      simp only [Evaluator.runMap, Expr.mapWith]
      cases registry.callArity? callable with
      | none => exact settles_pure _
      | some arity =>
          rcases arity with _ | _ | _
          · exact settles_pure _
          · exact (settles_mapM (fun _ => calls _ _ _) _).bind fun _ => settles_pure _
          · exact settles_pure _

mutual

theorem SettlesCalls.runWith (calls : evaluator.SettlesCalls call outcomes) (registry : Registry)
    (origin : Origin) (expr : Expr) :
    evaluator.Settles (Evaluator.runWith registry call origin expr)
      (expr.evalWith registry outcomes evaluator.frame origin) := by
  match expr with
  | .constant value => exact settles_pure _
  | .variable name => exact settles_get (settles_pure _)
  | .argument index => exact settles_get (settles_pure _)
  | .primitive name operands =>
      have operandsSettle := calls.runOperands registry origin 0 operands
      rw [Evaluator.runWith, Expr.evalWith]
      cases registry.arity? name with
      | none => exact settles_pure _
      | some arity =>
          simp only
          split
          · exact settles_pure _
          · split
            · exact settles_pure _
            · refine operandsSettle.bind fun values => ?_
              cases values with
              | error error => exact settles_pure _
              | ok values => exact settles_lift _
  | .apply operator operands =>
      have operatorSettles := calls.runWith registry (0 :: origin) operator
      have operandsSettle := calls.runOperands registry origin 2 operands
      rw [Evaluator.runWith, Expr.evalWith_apply]
      refine (settles_runCallable operatorSettles).bind fun callable => ?_
      cases callable with
      | error error => exact settles_pure _
      | ok callable =>
          refine operandsSettle.bind fun values => ?_
          cases values with
          | error error => exact settles_pure _
          | ok values => exact calls _ _ _
  | .map array callable =>
      have arraySettles := calls.runWith registry (0 :: origin) array
      have callableSettles := calls.runWith registry (1 :: origin) callable
      rw [Evaluator.runWith, Expr.evalWith_map]
      refine arraySettles.bind fun value => ?_
      cases value.mapped with
      | error error => exact settles_pure _
      | ok items =>
          exact (settles_runCallable callableSettles).bind fun callable =>
            calls.runMap registry origin items callable
  | .lambda params body => exact settles_get (settles_pure _)

theorem SettlesCalls.runOperands (calls : evaluator.SettlesCalls call outcomes)
    (registry : Registry) (origin : Origin) (position : Nat) (exprs : List Expr) :
    evaluator.Settles (Evaluator.runOperands registry call origin position exprs)
      (Expr.evalOperands registry outcomes evaluator.frame origin position exprs) := by
  match exprs with
  | [] => exact settles_pure _
  | operand :: rest =>
      rw [Evaluator.runOperands, Expr.evalOperands]
      refine (calls.runWith registry (position :: origin) operand).bind fun value => ?_
      split
      · exact settles_pure _
      · exact (calls.runOperands registry origin (position + 1) rest).bind fun _ =>
          settles_pure _

end

theorem settles_runEntering {origin : Origin} {arguments : List Value}
    {entering : List String → Expr → Bindings → Run Value}
    (settles : ∀ params body bindings, evaluator.Settles (entering params body bindings)
      (enter registry evaluator.remaining origin params body bindings arguments))
    (callable : Callable) :
    evaluator.Settles (runEntering registry entering callable arguments)
      (callWithin registry evaluator.remaining origin callable arguments) := by
  rw [runEntering.eq_def, callWithin_eq]
  cases Value.firstError? arguments with
  | some error => exact settles_pure _
  | none =>
      cases callable with
      | primitive name => exact settles_lift _
      | closure created params body bindings =>
          simp only
          split
          · exact settles_pure _
          · exact settles params body bindings

theorem settles_runCall {bound : Nat} (enough : evaluator.remaining ≤ bound) :
    evaluator.SettlesCalls (runCall registry bound) (callWithin registry evaluator.remaining) := by
  induction bound generalizing evaluator with
  | zero =>
      intro origin callable arguments
      refine settles_runEntering (fun params body bindings => ?_) callable
      rw [Nat.le_zero.mp enough]
      exact settles_pure _
  | succ bound ih =>
      intro origin callable arguments
      refine settles_runEntering (fun params body bindings => settles_get ?_) callable
      split
      · rename_i full
        rw [remaining, Nat.sub_eq_zero_of_le full]
        exact settles_pure _
      · rename_i below
        -- The body runs one call deeper, where one call less may be opened.
        have deeper : evaluator.remaining =
            remaining ⟨(Frame.ofCall bindings params arguments).bindings, arguments,
              evaluator.depth + 1⟩ + 1 := by
          simp only [remaining]
          omega
        rw [deeper] at enough ⊢
        exact settles_enclosed ((ih (Nat.le_of_succ_le_succ enough)).runWith registry origin body)

theorem evaluate_settles (registry : Registry) (origin : Origin) (expr : Expr) :
    evaluator.Settles (evaluate registry origin expr)
      (expr.evalWith registry (callWithin registry evaluator.remaining) evaluator.frame origin) :=
  (settles_runCall (Nat.sub_le _ _)).runWith registry origin expr

end Evaluation

end Evaluator

end NodeGraph
