import NodeGraph.Proofs.Expr.Identity

/-!
Other places. A function takes its identity from the place in the evaluation that makes it, and
evaluation never compares places: where all that is below an origin moves with it, the same values
are made there, with their functions moved. This holds as long as primitives may tell functions
apart but make nothing of the places themselves.
-/

namespace NodeGraph

mutual

/-- The value with its functions moved to other places. -/
def Value.relocate (place : Origin → Origin) : Value → Value
  | .array items => .array (Value.relocateList place items)
  | .function callable => .function (callable.relocate place)
  | .number real => .number real
  | .integer whole => .integer whole
  | .boolean truth => .boolean truth
  | .point spot => .point spot
  | .rect area => .rect area
  | .color shade => .color shade
  | .text string => .text string
  | .image handle => .image handle
  | .error message => .error message

def Value.relocateList (place : Origin → Origin) : List Value → List Value
  | [] => []
  | value :: rest => value.relocate place :: Value.relocateList place rest

def Value.relocateBindings (place : Origin → Origin) :
    List (String × Value) → List (String × Value)
  | [] => []
  | (name, value) :: rest => (name, value.relocate place) :: Value.relocateBindings place rest

def Callable.relocate (place : Origin → Origin) : Callable → Callable
  | .primitive name => .primitive name
  | .closure origin params body bindings =>
      .closure (place origin) params (body.relocate place) (Value.relocateBindings place bindings)

def Expr.relocate (place : Origin → Origin) : Expr → Expr
  | .constant value => .constant (value.relocate place)
  | .variable name => .variable name
  | .argument index => .argument index
  | .primitive name operands => .primitive name (Expr.relocateList place operands)
  | .apply operator operands =>
      .apply (operator.relocate place) (Expr.relocateList place operands)
  | .map array callable => .map (array.relocate place) (callable.relocate place)
  | .lambda params body => .lambda params (body.relocate place)

def Expr.relocateList (place : Origin → Origin) : List Expr → List Expr
  | [] => []
  | expr :: rest => expr.relocate place :: Expr.relocateList place rest

end

def Bindings.relocate (place : Origin → Origin) (bindings : Bindings) : Bindings :=
  bindings.map fun binding => (binding.1, binding.2.relocate place)

def Frame.relocate (place : Origin → Origin) (frame : Frame) : Frame :=
  ⟨frame.bindings.relocate place, frame.arguments.map (Value.relocate place)⟩

/-- Operands that are moved lead to the same result, moved. -/
def Primitive.Relocates (place : Origin → Origin) (primitive : Primitive) : Prop :=
  ∀ operands : List Value, primitive.apply (operands.map (Value.relocate place)) =
    (primitive.apply operands).map (Value.relocate place)

def Registry.Relocates (place : Origin → Origin) (registry : Registry) : Prop :=
  ∀ primitive ∈ registry.primitives, primitive.Relocates place

/-- What is below an origin moves with it. -/
def Origin.Steady (place : Origin → Origin) (origin : Origin) : Prop :=
  ∀ (steps : List Nat) (step : Nat),
    place (step :: (steps ++ origin)) = step :: place (steps ++ origin)

namespace Origin.Steady

variable {place : Origin → Origin} {origin : Origin}

theorem step (steady : Steady place origin) (step : Nat) :
    place (step :: origin) = step :: place origin :=
  steady [] step

theorem below (steady : Steady place origin) (step : Nat) : Steady place (step :: origin) := by
  intro steps next
  have moved := steady (steps ++ [step]) next
  rwa [List.append_assoc, List.singleton_append] at moved

end Origin.Steady

section Relocate

variable (place : Origin → Origin)

theorem relocateList_eq (values : List Value) :
    Value.relocateList place values = values.map (Value.relocate place) := by
  induction values with
  | nil => rfl
  | cons value rest ih => rw [Value.relocateList, ih, List.map_cons]

theorem relocateBindings_eq (bindings : Bindings) :
    Value.relocateBindings place bindings = bindings.relocate place := by
  induction bindings with
  | nil => rfl
  | cons binding rest ih =>
      obtain ⟨name, value⟩ := binding
      rw [Value.relocateBindings, ih, Bindings.relocate, Bindings.relocate, List.map_cons]

theorem Expr.relocateList_eq (exprs : List Expr) :
    Expr.relocateList place exprs = exprs.map (Expr.relocate place) := by
  induction exprs with
  | nil => rfl
  | cons expr rest ih => rw [Expr.relocateList, ih, List.map_cons]

mutual

theorem Value.anonymous_relocate : (value : Value) →
    (value.relocate place).anonymous = value.anonymous
  | .array items => by
      rw [Value.relocate, Value.anonymous, Value.anonymous, Value.anonymousList_relocate items]
  | .function callable => by
      rw [Value.relocate, Value.anonymous, Value.anonymous, Callable.anonymous_relocate callable]
  | .number _ | .integer _ | .boolean _ | .point _ | .rect _ | .color _ | .text _ | .image _
  | .error _ => by rw [Value.relocate]

theorem Value.anonymousList_relocate : (values : List Value) →
    Value.anonymousList (Value.relocateList place values) = Value.anonymousList values
  | [] => by rw [Value.relocateList]
  | value :: rest => by
      rw [Value.relocateList, Value.anonymousList, Value.anonymousList,
        Value.anonymous_relocate value, Value.anonymousList_relocate rest]

theorem Value.anonymousBindings_relocate : (bindings : List (String × Value)) →
    Value.anonymousBindings (Value.relocateBindings place bindings) =
      Value.anonymousBindings bindings
  | [] => by rw [Value.relocateBindings]
  | (name, value) :: rest => by
      rw [Value.relocateBindings, Value.anonymousBindings, Value.anonymousBindings,
        Value.anonymous_relocate value, Value.anonymousBindings_relocate rest]

theorem Callable.anonymous_relocate : (callable : Callable) →
    (callable.relocate place).anonymous = callable.anonymous
  | .primitive _ => by rw [Callable.relocate]
  | .closure origin params body bindings => by
      rw [Callable.relocate, Callable.anonymous, Callable.anonymous,
        Expr.anonymous_relocate body, Value.anonymousBindings_relocate bindings]

theorem Expr.anonymous_relocate : (expr : Expr) →
    (expr.relocate place).anonymous = expr.anonymous
  | .constant value => by
      rw [Expr.relocate, Expr.anonymous, Expr.anonymous, Value.anonymous_relocate value]
  | .variable _ | .argument _ => by rw [Expr.relocate]
  | .primitive _ operands => by
      rw [Expr.relocate, Expr.anonymous, Expr.anonymous, Expr.anonymousList_relocate operands]
  | .apply operator operands => by
      rw [Expr.relocate, Expr.anonymous, Expr.anonymous, Expr.anonymous_relocate operator,
        Expr.anonymousList_relocate operands]
  | .map array callable => by
      rw [Expr.relocate, Expr.anonymous, Expr.anonymous, Expr.anonymous_relocate array,
        Expr.anonymous_relocate callable]
  | .lambda _ body => by
      rw [Expr.relocate, Expr.anonymous, Expr.anonymous, Expr.anonymous_relocate body]

theorem Expr.anonymousList_relocate : (exprs : List Expr) →
    Expr.anonymousList (Expr.relocateList place exprs) = Expr.anonymousList exprs
  | [] => by rw [Expr.relocateList]
  | expr :: rest => by
      rw [Expr.relocateList, Expr.anonymousList, Expr.anonymousList,
        Expr.anonymous_relocate expr, Expr.anonymousList_relocate rest]

end

theorem Expr.lambdaArity_relocate (params : List String) (body : Expr) :
    Expr.lambdaArity params (body.relocate place) = Expr.lambdaArity params body := by
  rw [← Expr.lambdaArity_anonymous, Expr.anonymous_relocate, Expr.lambdaArity_anonymous]

def View.relocating : View where
  value := Value.relocate place
  callable := Callable.relocate place
  array := fun items => by rw [Value.relocate, relocateList_eq]
  function := fun called => by rw [Value.relocate]
  simple := by
    intro shown notArray notFunction
    cases shown with
    | array _ => cases notArray
    | function _ => cases notFunction
    | _ => rw [Value.relocate]

@[simp] theorem Value.relocate_error (message : String) :
    (Value.error message).relocate place = .error message := by rw [Value.relocate]

theorem EvalError.relocate_value (error : EvalError) :
    error.value.relocate place = error.value := Value.relocate_error place error.message

theorem Expr.bareName?_relocate (expr : Expr) :
    (expr.relocate place).bareName? = expr.bareName? := by
  cases expr with
  | primitive name operands => cases operands <;> rfl
  | _ => rfl

namespace Frame

theorem lookup_relocate (bindings : Bindings) (name : String) :
    (bindings.relocate place).lookup name =
      (bindings.lookup name).map (Value.relocate place) := by
  induction bindings with
  | nil => rfl
  | cons binding rest ih =>
      obtain ⟨other, value⟩ := binding
      simp only [Bindings.relocate, List.map_cons, List.lookup_cons] at ih ⊢
      split
      · rfl
      · exact ih

theorem valueOf_relocate (frame : Frame) (name : String) :
    (frame.relocate place).valueOf name = (frame.valueOf name).relocate place := by
  rw [valueOf, valueOf, Frame.relocate, lookup_relocate]
  cases frame.bindings.lookup name with
  | none => exact (EvalError.relocate_value place _).symm
  | some value => rfl

theorem argumentAt_relocate (frame : Frame) (index : Nat) :
    (frame.relocate place).argumentAt index = (frame.argumentAt index).relocate place := by
  rw [argumentAt, argumentAt, Frame.relocate, List.getElem?_map, List.length_map]
  cases frame.arguments[index]? with
  | none => exact (EvalError.relocate_value place _).symm
  | some value => rfl

theorem addInput_relocate (frame : Frame) (slot : Nat) (input : Option Value) :
    (frame.addInput slot input).relocate place =
      (frame.relocate place).addInput slot (input.map (Value.relocate place)) := by
  cases input with
  | none => simp only [addInput, Frame.relocate, List.map_append, List.map_cons, List.map_nil,
      EvalError.relocate_value, Option.map_none]
  | some value => simp only [addInput, Frame.relocate, List.map_append, List.map_cons,
      List.map_nil, Bindings.relocate, Option.map_some]

theorem ofInputs_relocate (inputs : List (Option Value)) :
    Frame.ofInputs (inputs.map (Option.map (Value.relocate place))) =
      (Frame.ofInputs inputs).relocate place := by
  have general : ∀ (inputs : List (Option Value)) (start : Nat) (frame : Frame),
      ((inputs.map (Option.map (Value.relocate place))).zipIdx start).foldl
          (fun frame input => frame.addInput input.2 input.1) (frame.relocate place) =
        ((inputs.zipIdx start).foldl (fun frame input => frame.addInput input.2 input.1)
          frame).relocate place := by
    intro inputs
    induction inputs with
    | nil => exact fun _ _ => rfl
    | cons input rest ih =>
        intro start frame
        simp only [List.map_cons, List.zipIdx_cons, List.foldl_cons]
        rw [← addInput_relocate, ih]
  exact general inputs 0 .empty

theorem ofCall_relocate (bindings : Bindings) (params : List String) (arguments : List Value) :
    Frame.ofCall (bindings.relocate place) params (arguments.map (Value.relocate place)) =
      (Frame.ofCall bindings params arguments).relocate place := by
  rw [ofCall, ofCall, Frame.relocate]
  congr 1
  rw [Bindings.relocate, Bindings.relocate, List.map_append, List.map_reverse, List.zip_map_right]
  rfl

end Frame

end Relocate

section Evaluation

variable {place : Origin → Origin} {registry : Registry}

theorem Registry.Relocates.invoke (relocates : registry.Relocates place) (name : String)
    (operands : List Value) :
    registry.invoke name (operands.map (Value.relocate place)) =
      (registry.invoke name operands).map (Value.relocate place) := by
  have errors := (View.relocating place).firstError? operands
  simp only [View.relocating] at errors
  rw [Registry.invoke, Registry.invoke, List.length_map, errors]
  cases found : registry.find? name with
  | none => exact congrArg Except.ok (Value.relocate_error place _).symm
  | some primitive =>
      simp only
      split
      · exact congrArg Except.ok (Value.relocate_error place _).symm
      · split
        · rename_i error broken
          exact congrArg Except.ok
            ((View.relocating place).of_isError (List.find?_some broken)).symm
        · rw [relocates primitive (List.mem_of_find?_eq_some found)]
          cases primitive.apply operands with
          | ok value => rfl
          | error failure =>
              cases failure with
              | refused error => exact congrArg Except.ok (Value.relocate_error place _).symm
              | fault fault => rfl

def Call.Relocates (place : Origin → Origin) (call : Call) : Prop :=
  ∀ origin callable arguments, Origin.Steady place origin →
    call (place origin) (callable.relocate place)
        (arguments.map (Value.relocate place)) =
      (call origin callable arguments).map (Value.relocate place)

variable {call : Call}

theorem Call.Relocates.callEach (relocates : call.Relocates place) {origin : Origin}
    (steady : Origin.Steady place origin) (callable : Callable) (items : List Value) :
    NodeGraph.callEach call (place origin) (callable.relocate place)
        (items.map (Value.relocate place)) =
      (NodeGraph.callEach call origin callable items).map (Value.relocate place) := by
  have each : ∀ (items : List Value) (start : Nat),
      (((items.map (Value.relocate place)).zipIdx start).mapM fun item =>
          call ((item.2 + 2) :: place origin) (callable.relocate place) [item.1]) =
        ((items.zipIdx start).mapM fun item => call ((item.2 + 2) :: origin) callable [item.1]).map
          (List.map (Value.relocate place)) := by
    intro items
    induction items with
    | nil => exact fun _ => rfl
    | cons item rest ih =>
        intro start
        simp only [List.map_cons, List.zipIdx_cons, List.mapM_cons]
        have first := relocates ((start + 2) :: origin) callable [item] (steady.below _)
        rw [steady.step] at first
        refine bind_eq_map_bind first fun value => ?_
        exact bind_eq_map_bind (ih (start + 1)) fun _ => rfl
  refine bind_eq_map_bind (each items 0) fun values => ?_
  exact congrArg Except.ok ((View.relocating place).array values).symm

def relocateOutcome {result : Type} (place : Origin → Origin) (seen : result → result) :
    Except Value result → Except Value result
  | .ok found => .ok (seen found)
  | .error error => .error (error.relocate place)

theorem Value.operator_relocate (value : Value) :
    (value.relocate place).operator =
      relocateOutcome place (Callable.relocate place) value.operator := by
  cases value with
  | function callable => rw [Value.relocate]; rfl
  | _ =>
      rw [Value.relocate]
      exact congrArg Except.error (Value.relocate_error place _).symm

theorem Value.mapped_relocate (value : Value) :
    (value.relocate place).mapped =
      relocateOutcome place (List.map (Value.relocate place)) value.mapped := by
  cases value with
  | array items => rw [Value.relocate, relocateList_eq]; rfl
  | _ =>
      rw [Value.relocate]
      exact congrArg Except.error (Value.relocate_error place _).symm

theorem Registry.callable?_relocate (name : String) :
    registry.callable? name =
      relocateOutcome place (Callable.relocate place) (registry.callable? name) := by
  rw [Registry.callable?]
  split
  · exact congrArg Except.ok (by rw [Callable.relocate])
  · exact congrArg Except.error (EvalError.relocate_value place _).symm

theorem Registry.callArity?_relocate (callable : Callable) :
    registry.callArity? (callable.relocate place) = registry.callArity? callable := by
  cases callable with
  | primitive name => rw [Callable.relocate]
  | closure origin params body bindings =>
      rw [Callable.relocate, Registry.callArity?, Registry.callArity?, Expr.lambdaArity_relocate]

theorem Call.Relocates.mapWith (relocates : call.Relocates place) {origin : Origin}
    (steady : Origin.Steady place origin) (items : List Value) (callable : Except Value Callable) :
    Expr.mapWith registry call (place origin) (items.map (Value.relocate place))
        (relocateOutcome place (Callable.relocate place) callable) =
      (Expr.mapWith registry call origin items callable).map (Value.relocate place) := by
  cases callable with
  | error error => rfl
  | ok callable =>
      simp only [relocateOutcome, Expr.mapWith, Registry.callArity?_relocate]
      split
      · exact congrArg Except.ok (EvalError.relocate_value place _).symm
      · exact relocates.callEach steady callable items
      · exact congrArg Except.ok (EvalError.relocate_value place _).symm

theorem Expr.callableWith_relocate {frame other : Frame} {origin elsewhere : Origin} {expr : Expr}
    (value : (expr.relocate place).evalWith registry call other elsewhere =
      (expr.evalWith registry call frame origin).map (Value.relocate place)) :
    (expr.relocate place).callableWith registry call other elsewhere =
      (expr.callableWith registry call frame origin).map
        (relocateOutcome place (Callable.relocate place)) := by
  rw [callableWith, callableWith, bareName?_relocate]
  cases expr.bareName? with
  | some name => exact congrArg Except.ok (Registry.callable?_relocate name)
  | none =>
      exact bind_eq_map_bind value fun shown => congrArg Except.ok (Value.operator_relocate shown)

mutual

theorem Expr.evalWith_relocate (registers : registry.Relocates place)
    (relocates : call.Relocates place) (frame : Frame) {origin : Origin}
    (steady : Origin.Steady place origin) :
    (expr : Expr) → (expr.relocate place).evalWith registry call (frame.relocate place)
        (place origin) =
      (expr.evalWith registry call frame origin).map (Value.relocate place)
  | .constant value => by rw [Expr.relocate, evalWith, evalWith]; rfl
  | .variable name => by
      rw [Expr.relocate, evalWith, evalWith, Frame.valueOf_relocate]
      rfl
  | .argument index => by
      rw [Expr.relocate, evalWith, evalWith, Frame.argumentAt_relocate]
      rfl
  | .primitive name operands => by
      have errors : ∀ error : EvalError, (.ok error.value : Except Fault Value) =
          Except.map (Value.relocate place) (.ok error.value) :=
        fun error => congrArg Except.ok (EvalError.relocate_value place error).symm
      rw [Expr.relocate, Expr.relocateList_eq, evalWith, evalWith, List.isEmpty_map,
        List.length_map]
      cases registry.arity? name with
      | none => exact errors _
      | some arity =>
          simp only
          split
          · simp only [Except.map, Value.relocate, Callable.relocate]
          · split
            · exact errors _
            · refine bind_eq_map_bind
                (evalOperands_relocate registers relocates frame steady 0 operands) fun found => ?_
              cases found with
              | error error => rfl
              | ok values => exact registers.invoke name values
  | .apply operator operands => by
      rw [Expr.relocate, Expr.relocateList_eq, evalWith_apply, evalWith_apply,
        ← steady.step, ← steady.step]
      refine bind_eq_map_bind (callableWith_relocate (evalWith_relocate registers relocates frame
        (steady.below 0) operator)) fun found => ?_
      cases found with
      | error error => rfl
      | ok callable =>
          refine bind_eq_map_bind
            (evalOperands_relocate registers relocates frame steady 2 operands) fun found => ?_
          cases found with
          | error error => rfl
          | ok values => exact relocates (1 :: origin) callable values (steady.below 1)
  | .map array callable => by
      rw [Expr.relocate, evalWith_map, evalWith_map, ← steady.step, ← steady.step]
      refine bind_eq_map_bind (evalWith_relocate registers relocates frame
        (steady.below 0) array) fun value => ?_
      rw [Value.mapped_relocate]
      cases value.mapped with
      | error error => rfl
      | ok items =>
          refine bind_eq_map_bind (callableWith_relocate
            (evalWith_relocate registers relocates frame (steady.below 1) callable)) fun found => ?_
          exact relocates.mapWith steady items found
  | .lambda params body => by
      rw [Expr.relocate, evalWith, evalWith]
      simp only [Except.map, Value.relocate, Callable.relocate, relocateBindings_eq,
        Frame.relocate]

theorem Expr.evalOperands_relocate (registers : registry.Relocates place)
    (relocates : call.Relocates place) (frame : Frame) {origin : Origin}
    (steady : Origin.Steady place origin)
    (position : Nat) : (exprs : List Expr) →
      evalOperands registry call (frame.relocate place) (place origin) position
          (exprs.map (Expr.relocate place)) =
        (evalOperands registry call frame origin position exprs).map
          (relocateOutcome place (List.map (Value.relocate place)))
  | [] => rfl
  | expr :: rest => by
      rw [List.map_cons, evalOperands, evalOperands, ← steady.step]
      refine bind_eq_map_bind (evalWith_relocate registers relocates frame
        (steady.below position) expr) fun value => ?_
      have isError : (value.relocate place).isError = value.isError :=
        (View.relocating place).isError value
      rw [isError]
      split
      · rfl
      · refine bind_eq_map_bind (evalOperands_relocate registers relocates frame steady
          (position + 1) rest) fun found => ?_
        cases found <;> rfl

end

theorem Registry.Relocates.callOf (registers : registry.Relocates place) {remaining : Nat}
    (bodies : ∀ (params : List String) (body : Expr) (bindings : Bindings)
      (arguments : List Value) (origin : Origin), Origin.Steady place origin →
        enter registry remaining (place origin) params (body.relocate place)
            (bindings.relocate place) (arguments.map (Value.relocate place)) =
          (enter registry remaining origin params body bindings arguments).map
            (Value.relocate place)) :
    Call.Relocates place (callWithin registry remaining) := by
  intro origin callable arguments steady
  have errors := (View.relocating place).firstError? arguments
  simp only [View.relocating] at errors
  rw [callWithin_eq, callWithin_eq, errors]
  cases broken : Value.firstError? arguments with
  | some error =>
      exact congrArg Except.ok
        ((View.relocating place).of_isError (List.find?_some broken)).symm
  | none =>
      cases callable with
      | primitive name =>
          rw [Callable.relocate]
          exact registers.invoke name arguments
      | closure created params body bindings =>
          simp only [Callable.relocate, Expr.lambdaArity_relocate, List.length_map,
            relocateBindings_eq]
          split
          · exact congrArg Except.ok (EvalError.relocate_value place _).symm
          · exact bodies params body bindings arguments origin steady

theorem callWithin_relocates (registers : registry.Relocates place) (remaining : Nat) :
    Call.Relocates place (callWithin registry remaining) := by
  induction remaining with
  | zero =>
      exact registers.callOf fun _ _ _ _ _ _ =>
        congrArg Except.ok (EvalError.relocate_value place _).symm
  | succ remaining ih =>
      refine registers.callOf fun params body bindings arguments origin steady => ?_
      rw [enter, enter, Frame.ofCall_relocate]
      exact body.evalWith_relocate registers ih _ steady

theorem Expr.eval_relocate (registers : registry.Relocates place) (frame : Frame)
    {origin : Origin} (steady : Origin.Steady place origin) (expr : Expr) :
    (expr.relocate place).eval registry (frame.relocate place) (place origin) =
      (expr.eval registry frame origin).map (Value.relocate place) :=
  expr.evalWith_relocate registers (callWithin_relocates registers maxCallDepth) frame steady

end Evaluation

end NodeGraph
