import Mathlib.Data.Prod.Lex
import Mathlib.Logic.Relation
import NodeGraph.Execution.Plan
import NodeGraph.Proofs.Expr.Evaluation

/-!
The ways that evaluation takes. A task is one thing to evaluate together with all it is evaluated
in; it comes to other tasks, to each only when those before it have values. No way goes on forever,
and a task faults exactly when a way from it ends at an invocation of a primitive that faults.
-/

namespace NodeGraph

inductive Task where
  | node (snapshot : Snapshot) (serial : Nat) (inputs : List (Option Value))
  | params (serial position : Nat) (frame : Frame) (params : List (String × Expr))
  | expr (remaining : Nat) (frame : Frame) (origin : Origin) (expr : Expr)
  | operands (remaining : Nat) (frame : Frame) (origin : Origin) (position : Nat)
      (exprs : List Expr)
  | items (remaining : Nat) (origin : Origin) (callable : Callable) (position : Nat)
      (items : List Value)
  | call (remaining : Nat) (origin : Origin) (callable : Callable) (arguments : List Value)
  | invocation (name : String) (operands : List Value)

def Snapshot.named (snapshot : Snapshot) : List (String × Expr) :=
  snapshot.params.filter fun param => param.1 != Expr.outputName

def callItems (call : Call) (origin : Origin) (callable : Callable) (position : Nat)
    (items : List Value) : Except Fault (List Value) :=
  (items.zipIdx position).mapM fun (item, index) => call ((index + 2) :: origin) callable [item]

namespace Task

variable (registry : Registry)

def Faults (fault : Fault) : Task → Prop
  | .node snapshot serial inputs => snapshot.evaluate registry serial inputs = .error fault
  | .params serial position frame rest =>
      Snapshot.bindParams registry serial position frame rest = .error fault
  | .expr remaining frame origin form =>
      form.evalWith registry (callWithin registry remaining) frame origin = .error fault
  | .operands remaining frame origin position exprs =>
      Expr.evalOperands registry (callWithin registry remaining) frame origin position exprs =
        .error fault
  | .items remaining origin callable position rest =>
      callItems (callWithin registry remaining) origin callable position rest = .error fault
  | .call remaining origin callable arguments =>
      callWithin registry remaining origin callable arguments = .error fault
  | .invocation name values => registry.invoke name values = .error fault

/-- One task comes to another. -/
inductive Step : Task → Task → Prop where
  | inputs {snapshot : Snapshot} {serial : Nat} {inputs : List (Option Value)} :
      Step (.node snapshot serial inputs) (.params serial 0 (.ofInputs inputs) snapshot.named)
  | output {snapshot : Snapshot} {serial : Nat} {inputs : List (Option Value)} {frame : Frame}
      {output : Expr}
      (bound : Snapshot.bindParams registry serial 0 (.ofInputs inputs) snapshot.named = .ok frame)
      (found : snapshot.params.lookup Expr.outputName = some output) :
      Step (.node snapshot serial inputs)
        (.expr Expr.maxCallDepth frame [snapshot.named.length, serial] output)
  | param {serial position : Nat} {frame : Frame} {param : String × Expr}
      {rest : List (String × Expr)} :
      Step (.params serial position frame (param :: rest))
        (.expr Expr.maxCallDepth frame [position, serial] param.2)
  | laterParams {serial position : Nat} {frame : Frame} {param : String × Expr}
      {rest : List (String × Expr)} {value : Value}
      (evaluated : param.2.eval registry frame [position, serial] = .ok value) :
      Step (.params serial position frame (param :: rest))
        (.params serial (position + 1) (frame.bind param.1 value) rest)
  | primitiveOperands {remaining : Nat} {frame : Frame} {origin : Origin} {name : String}
      {operands : List Expr} (arity : registry.arity? name = some operands.length) :
      Step (.expr remaining frame origin (.primitive name operands))
        (.operands remaining frame origin 0 operands)
  | primitive {remaining : Nat} {frame : Frame} {origin : Origin} {name : String}
      {operands : List Expr} {values : List Value}
      (arity : registry.arity? name = some operands.length)
      (evaluated : Expr.evalOperands registry (callWithin registry remaining) frame origin 0
        operands = .ok (.ok values)) :
      Step (.expr remaining frame origin (.primitive name operands)) (.invocation name values)
  | operator {remaining : Nat} {frame : Frame} {origin : Origin} {operator : Expr}
      {operands : List Expr} (computed : operator.bareName? = none) :
      Step (.expr remaining frame origin (.apply operator operands))
        (.expr remaining frame (0 :: origin) operator)
  | arguments {remaining : Nat} {frame : Frame} {origin : Origin} {operator : Expr}
      {operands : List Expr} {callable : Callable}
      (found : operator.callableWith registry (callWithin registry remaining) frame (0 :: origin) =
        .ok (.ok callable)) :
      Step (.expr remaining frame origin (.apply operator operands))
        (.operands remaining frame origin 2 operands)
  | application {remaining : Nat} {frame : Frame} {origin : Origin} {operator : Expr}
      {operands : List Expr} {callable : Callable} {values : List Value}
      (found : operator.callableWith registry (callWithin registry remaining) frame (0 :: origin) =
        .ok (.ok callable))
      (evaluated : Expr.evalOperands registry (callWithin registry remaining) frame origin 2
        operands = .ok (.ok values)) :
      Step (.expr remaining frame origin (.apply operator operands))
        (.call remaining (1 :: origin) callable values)
  | array {remaining : Nat} {frame : Frame} {origin : Origin} {array callable : Expr} :
      Step (.expr remaining frame origin (.map array callable))
        (.expr remaining frame (0 :: origin) array)
  | mapped {remaining : Nat} {frame : Frame} {origin : Origin} {array callable : Expr}
      {items : List Value}
      (evaluated : array.evalWith registry (callWithin registry remaining) frame (0 :: origin) =
        .ok (.array items))
      (computed : callable.bareName? = none) :
      Step (.expr remaining frame origin (.map array callable))
        (.expr remaining frame (1 :: origin) callable)
  | map {remaining : Nat} {frame : Frame} {origin : Origin} {array expr : Expr}
      {items : List Value} {callable : Callable}
      (evaluated : array.evalWith registry (callWithin registry remaining) frame (0 :: origin) =
        .ok (.array items))
      (found : expr.callableWith registry (callWithin registry remaining) frame (1 :: origin) =
        .ok (.ok callable))
      (arity : registry.callArity? callable = some 1) :
      Step (.expr remaining frame origin (.map array expr))
        (.items remaining origin callable 0 items)
  | operand {remaining : Nat} {frame : Frame} {origin : Origin} {position : Nat} {expr : Expr}
      {rest : List Expr} :
      Step (.operands remaining frame origin position (expr :: rest))
        (.expr remaining frame (position :: origin) expr)
  | laterOperands {remaining : Nat} {frame : Frame} {origin : Origin} {position : Nat}
      {expr : Expr} {rest : List Expr} {value : Value}
      (evaluated : expr.evalWith registry (callWithin registry remaining) frame
        (position :: origin) = .ok value)
      (clean : value.isError = false) :
      Step (.operands remaining frame origin position (expr :: rest))
        (.operands remaining frame origin (position + 1) rest)
  | item {remaining : Nat} {origin : Origin} {callable : Callable} {position : Nat}
      {item : Value} {rest : List Value} :
      Step (.items remaining origin callable position (item :: rest))
        (.call remaining ((position + 2) :: origin) callable [item])
  | laterItems {remaining : Nat} {origin : Origin} {callable : Callable} {position : Nat}
      {item : Value} {rest : List Value} {value : Value}
      (called : callWithin registry remaining ((position + 2) :: origin) callable [item] =
        .ok value) :
      Step (.items remaining origin callable position (item :: rest))
        (.items remaining origin callable (position + 1) rest)
  | body {remaining : Nat} {origin created : Origin} {params : List String} {body : Expr}
      {bindings : Bindings} {arguments : List Value}
      (clean : Value.firstError? arguments = none)
      (arity : arguments.length = Expr.lambdaArity params body) :
      Step (.call (remaining + 1) origin (.closure created params body bindings) arguments)
        (.expr remaining (.ofCall bindings params arguments) origin body)
  | called {remaining : Nat} {origin : Origin} {name : String} {arguments : List Value}
      (clean : Value.firstError? arguments = none) :
      Step (.call remaining origin (.primitive name) arguments) (.invocation name arguments)

end Task

section Bind

variable {ε α β : Type} {error : ε}

theorem bind_error_iff {first : Except ε α} {next : α → Except ε β} :
    first >>= next = .error error ↔
      first = .error error ∨ ∃ found, first = .ok found ∧ next found = .error error := by
  cases first with
  | error other => simp [bind, Except.bind]
  | ok found => simp [bind, Except.bind]

theorem bind_kept_error_iff {first : Except ε (Except Value α)}
    {next : Except Value α → Except ε Value} (kept : ∀ value, next (.error value) = .ok value) :
    first >>= next = .error error ↔
      first = .error error ∨ ∃ found, first = .ok (.ok found) ∧ next (.ok found) = .error error := by
  rw [bind_error_iff]
  refine or_congr_right ⟨?_, fun ⟨found, result, failed⟩ => ⟨.ok found, result, failed⟩⟩
  rintro ⟨found, result, failed⟩
  cases found with
  | error value =>
      rw [kept] at failed
      cases failed
  | ok found => exact ⟨found, result, failed⟩

theorem map_error_iff {first : Except ε α} {change : α → β} :
    change <$> first = .error error ↔ first = .error error := by
  cases first <;> simp [Functor.map, Except.map]

end Bind

section Faults

variable {registry : Registry} {call : Call} {frame : Frame} {origin : Origin} {fault : Fault}

theorem callableWith_fault_iff {expr : Expr} :
    expr.callableWith registry call frame origin = .error fault ↔
      expr.bareName? = none ∧ expr.evalWith registry call frame origin = .error fault := by
  rw [Expr.callableWith]
  cases expr.bareName? with
  | none => simp [map_error_iff]
  | some name => simp

theorem primitive_fault_iff {name : String} {operands : List Expr} :
    (Expr.primitive name operands).evalWith registry call frame origin = .error fault ↔
      registry.arity? name = some operands.length ∧
        (Expr.evalOperands registry call frame origin 0 operands = .error fault ∨
          ∃ values, Expr.evalOperands registry call frame origin 0 operands = .ok (.ok values) ∧
            registry.invoke name values = .error fault) := by
  rw [Expr.evalWith]
  cases registry.arity? name with
  | none => simp
  | some arity =>
      by_cases same : arity = operands.length
      · subst same
        have evaluated : ¬ (operands.isEmpty && decide (operands.length > 0)) = true := by
          cases operands <;> simp
        simp only [if_neg evaluated, ne_eq, not_true_eq_false, if_false, true_and]
        exact bind_kept_error_iff fun _ => rfl
      · simp only [Option.some.injEq, same, false_and, iff_false]
        split
        · simp
        · rw [if_pos (Ne.symm same)]
          simp

theorem apply_fault_iff {operator : Expr} {operands : List Expr} :
    (Expr.apply operator operands).evalWith registry call frame origin = .error fault ↔
      (operator.bareName? = none ∧
        operator.evalWith registry call frame (0 :: origin) = .error fault) ∨
      ∃ callable, operator.callableWith registry call frame (0 :: origin) = .ok (.ok callable) ∧
        (Expr.evalOperands registry call frame origin 2 operands = .error fault ∨
          ∃ values, Expr.evalOperands registry call frame origin 2 operands = .ok (.ok values) ∧
            call (1 :: origin) callable values = .error fault) := by
  rw [Expr.evalWith_apply, bind_kept_error_iff fun _ => rfl, callableWith_fault_iff]
  refine or_congr_right (exists_congr fun callable => and_congr_right fun _ => ?_)
  exact bind_kept_error_iff fun _ => rfl

theorem mapped_ok {value : Value} {items : List Value} :
    value.mapped = .ok items ↔ value = .array items := by
  cases value <;> simp [Value.mapped]

theorem callEach_eq (callable : Callable) (items : List Value) :
    callEach call origin callable items =
      Value.array <$> callItems call origin callable 0 items := rfl

theorem mapWith_fault_iff {items : List Value} {callable : Callable} :
    Expr.mapWith registry call origin items (.ok callable) = .error fault ↔
      registry.callArity? callable = some 1 ∧
        callItems call origin callable 0 items = .error fault := by
  rw [Expr.mapWith]
  split
  · rename_i uncallable
    simp [uncallable]
  · rename_i unary
    rw [callEach_eq, map_error_iff]
    simp [unary]
  · rename_i arity other found
    simpa [found] using fun same => (other same).elim

theorem mapItems_fault_iff {callable : Expr} {items : List Value} :
    (do Expr.mapWith registry call origin items
          (← callable.callableWith registry call frame (1 :: origin))) = .error fault ↔
      (callable.bareName? = none ∧
        callable.evalWith registry call frame (1 :: origin) = .error fault) ∨
      ∃ function, callable.callableWith registry call frame (1 :: origin) = .ok (.ok function) ∧
        registry.callArity? function = some 1 ∧
        callItems call origin function 0 items = .error fault := by
  rw [bind_kept_error_iff fun _ => rfl, callableWith_fault_iff]
  simp only [mapWith_fault_iff]

theorem map_fault_iff {array callable : Expr} :
    (Expr.map array callable).evalWith registry call frame origin = .error fault ↔
      array.evalWith registry call frame (0 :: origin) = .error fault ∨
      ∃ items, array.evalWith registry call frame (0 :: origin) = .ok (.array items) ∧
        ((callable.bareName? = none ∧
            callable.evalWith registry call frame (1 :: origin) = .error fault) ∨
          ∃ function,
            callable.callableWith registry call frame (1 :: origin) = .ok (.ok function) ∧
            registry.callArity? function = some 1 ∧
            callItems call origin function 0 items = .error fault) := by
  rw [Expr.evalWith_map, bind_error_iff]
  refine or_congr_right ⟨?_, ?_⟩
  · rintro ⟨value, evaluated, faulty⟩
    cases found : value.mapped with
    | error error =>
        rw [found] at faulty
        cases faulty
    | ok items =>
        rw [found] at faulty
        exact ⟨items, mapped_ok.mp found ▸ evaluated, mapItems_fault_iff.mp faulty⟩
  · rintro ⟨items, evaluated, faulty⟩
    exact ⟨.array items, evaluated, mapItems_fault_iff.mpr faulty⟩

theorem operands_fault_iff {position : Nat} {expr : Expr} {rest : List Expr} :
    Expr.evalOperands registry call frame origin position (expr :: rest) = .error fault ↔
      expr.evalWith registry call frame (position :: origin) = .error fault ∨
      ∃ value, expr.evalWith registry call frame (position :: origin) = .ok value ∧
        value.isError = false ∧
        Expr.evalOperands registry call frame origin (position + 1) rest = .error fault := by
  rw [Expr.evalOperands, bind_error_iff]
  refine or_congr_right (exists_congr fun value => and_congr_right fun _ => ?_)
  cases value.isError with
  | true => simp [pure, Except.pure]
  | false => simp [bind_error_iff, pure, Except.pure]

theorem items_fault_iff {callable : Callable} {position : Nat} {item : Value}
    {rest : List Value} :
    callItems call origin callable position (item :: rest) = .error fault ↔
      call ((position + 2) :: origin) callable [item] = .error fault ∨
      ∃ value, call ((position + 2) :: origin) callable [item] = .ok value ∧
        callItems call origin callable (position + 1) rest = .error fault := by
  rw [callItems, List.zipIdx_cons, List.mapM_cons, bind_error_iff]
  refine or_congr_right (exists_congr fun value => and_congr_right fun _ => ?_)
  rw [bind_error_iff]
  simp [callItems, pure, Except.pure]

theorem params_fault_iff {serial position : Nat} {param : String × Expr}
    {rest : List (String × Expr)} :
    Snapshot.bindParams registry serial position frame (param :: rest) = .error fault ↔
      param.2.eval registry frame [position, serial] = .error fault ∨
      ∃ value, param.2.eval registry frame [position, serial] = .ok value ∧
        Snapshot.bindParams registry serial (position + 1) (frame.bind param.1 value) rest =
          .error fault := by
  rw [Snapshot.bindParams, bind_error_iff]

theorem node_fault_iff {snapshot : Snapshot} {serial : Nat} {inputs : List (Option Value)} :
    snapshot.evaluate registry serial inputs = .error fault ↔
      Snapshot.bindParams registry serial 0 (.ofInputs inputs) snapshot.named = .error fault ∨
      ∃ frame, Snapshot.bindParams registry serial 0 (.ofInputs inputs) snapshot.named =
          .ok frame ∧
        ∃ output, snapshot.params.lookup Expr.outputName = some output ∧
          output.eval registry frame [snapshot.named.length, serial] = .error fault := by
  rw [Snapshot.evaluate, bind_error_iff]
  refine or_congr_right (exists_congr fun frame => and_congr_right fun _ => ?_)
  cases snapshot.params.lookup Expr.outputName with
  | none => simp [pure, Except.pure]
  | some output => simp [Snapshot.named]

theorem called_fault_iff {remaining : Nat} {name : String} {arguments : List Value} :
    callWithin registry remaining origin (.primitive name) arguments = .error fault ↔
      Value.firstError? arguments = none ∧ registry.invoke name arguments = .error fault := by
  rw [callWithin_eq]
  cases Value.firstError? arguments <;> simp

theorem body_fault_iff {remaining : Nat} {created : Origin} {params : List String} {body : Expr}
    {bindings : Bindings} {arguments : List Value} :
    callWithin registry remaining origin (.closure created params body bindings) arguments =
        .error fault ↔
      Value.firstError? arguments = none ∧ arguments.length = Expr.lambdaArity params body ∧
        ∃ fewer, remaining = fewer + 1 ∧
          body.evalWith registry (callWithin registry fewer) (.ofCall bindings params arguments)
            origin = .error fault := by
  rw [callWithin_eq]
  cases Value.firstError? arguments with
  | some error => simp
  | none =>
      by_cases arity : arguments.length = Expr.lambdaArity params body
      · cases remaining <;> simp [arity, enter]
      · simp [arity]

end Faults

namespace Task

variable {registry : Registry} {task next : Task} {fault : Fault}

theorem Step.faults (step : Step registry task next) (faulty : next.Faults registry fault) :
    task.Faults registry fault := by
  cases step with
  | inputs => exact node_fault_iff.mpr (.inl faulty)
  | output bound found => exact node_fault_iff.mpr (.inr ⟨_, bound, _, found, faulty⟩)
  | param => exact params_fault_iff.mpr (.inl faulty)
  | laterParams evaluated => exact params_fault_iff.mpr (.inr ⟨_, evaluated, faulty⟩)
  | primitiveOperands arity => exact primitive_fault_iff.mpr ⟨arity, .inl faulty⟩
  | primitive arity evaluated =>
      exact primitive_fault_iff.mpr ⟨arity, .inr ⟨_, evaluated, faulty⟩⟩
  | operator computed => exact apply_fault_iff.mpr (.inl ⟨computed, faulty⟩)
  | arguments found => exact apply_fault_iff.mpr (.inr ⟨_, found, .inl faulty⟩)
  | application found evaluated =>
      exact apply_fault_iff.mpr (.inr ⟨_, found, .inr ⟨_, evaluated, faulty⟩⟩)
  | array => exact map_fault_iff.mpr (.inl faulty)
  | mapped evaluated computed =>
      exact map_fault_iff.mpr (.inr ⟨_, evaluated, .inl ⟨computed, faulty⟩⟩)
  | map evaluated found arity =>
      exact map_fault_iff.mpr (.inr ⟨_, evaluated, .inr ⟨_, found, arity, faulty⟩⟩)
  | operand => exact operands_fault_iff.mpr (.inl faulty)
  | laterOperands evaluated clean =>
      exact operands_fault_iff.mpr (.inr ⟨_, evaluated, clean, faulty⟩)
  | item => exact items_fault_iff.mpr (.inl faulty)
  | laterItems called => exact items_fault_iff.mpr (.inr ⟨_, called, faulty⟩)
  | body clean arity => exact body_fault_iff.mpr ⟨clean, arity, _, rfl, faulty⟩
  | called clean => exact called_fault_iff.mpr ⟨clean, faulty⟩

theorem Faults.expr_step {remaining : Nat} {frame : Frame} {origin : Origin} {form : Expr}
    (faulty : (Task.expr remaining frame origin form).Faults registry fault) :
    ∃ next, Step registry (.expr remaining frame origin form) next ∧ next.Faults registry fault := by
  cases form with
  | constant value => cases faulty
  | «variable» name => cases faulty
  | argument index => cases faulty
  | lambda params body => cases faulty
  | primitive name operands =>
      obtain ⟨arity, faulty | ⟨values, evaluated, faulty⟩⟩ := primitive_fault_iff.mp faulty
      · exact ⟨_, .primitiveOperands arity, faulty⟩
      · exact ⟨_, .primitive arity evaluated, faulty⟩
  | apply operator operands =>
      obtain ⟨computed, faulty⟩ | ⟨callable, found, faulty | ⟨values, evaluated, faulty⟩⟩ :=
        apply_fault_iff.mp faulty
      · exact ⟨_, .operator computed, faulty⟩
      · exact ⟨_, .arguments found, faulty⟩
      · exact ⟨_, .application found evaluated, faulty⟩
  | map array callable =>
      obtain faulty | ⟨items, evaluated, ⟨computed, faulty⟩ | ⟨function, found, arity, faulty⟩⟩ :=
        map_fault_iff.mp faulty
      · exact ⟨_, .array, faulty⟩
      · exact ⟨_, .mapped evaluated computed, faulty⟩
      · exact ⟨_, .map evaluated found arity, faulty⟩

theorem Faults.step (faulty : task.Faults registry fault) :
    (∃ name operands, task = .invocation name operands) ∨
      ∃ next, Step registry task next ∧ next.Faults registry fault := by
  cases task with
  | invocation name operands => exact .inl ⟨name, operands, rfl⟩
  | node snapshot serial inputs =>
      right
      obtain faulty | ⟨frame, bound, output, found, faulty⟩ := node_fault_iff.mp faulty
      · exact ⟨_, .inputs, faulty⟩
      · exact ⟨_, .output bound found, faulty⟩
  | params serial position frame params =>
      right
      cases params with
      | nil => cases faulty
      | cons param rest =>
          obtain faulty | ⟨value, evaluated, faulty⟩ := params_fault_iff.mp faulty
          · exact ⟨_, .param, faulty⟩
          · exact ⟨_, .laterParams evaluated, faulty⟩
  | expr remaining frame origin form => exact .inr faulty.expr_step
  | operands remaining frame origin position exprs =>
      right
      cases exprs with
      | nil => cases faulty
      | cons expr rest =>
          obtain faulty | ⟨value, evaluated, clean, faulty⟩ := operands_fault_iff.mp faulty
          · exact ⟨_, .operand, faulty⟩
          · exact ⟨_, .laterOperands evaluated clean, faulty⟩
  | items remaining origin callable position items =>
      right
      cases items with
      | nil => cases faulty
      | cons item rest =>
          obtain faulty | ⟨value, called, faulty⟩ := items_fault_iff.mp faulty
          · exact ⟨_, .item, faulty⟩
          · exact ⟨_, .laterItems called, faulty⟩
  | call remaining origin callable arguments =>
      right
      cases callable with
      | primitive name =>
          obtain ⟨clean, faulty⟩ := called_fault_iff.mp faulty
          exact ⟨_, .called clean, faulty⟩
      | closure created params body bindings =>
          obtain ⟨clean, arity, fewer, rfl, inside⟩ := body_fault_iff.mp faulty
          exact ⟨_, .body clean arity, inside⟩

/-- Bounds the ways from a task: first by the calls that may still nest, then by what is left to
evaluate at that depth. -/
noncomputable def bound : Task → Nat × Nat
  | .node _ _ _ => (2 * Expr.maxCallDepth + 3, 0)
  | .params _ _ _ rest => (2 * Expr.maxCallDepth + 2, rest.length)
  | .expr remaining _ _ form => (2 * remaining + 1, sizeOf form)
  | .operands remaining _ _ _ exprs => (2 * remaining + 1, sizeOf exprs)
  | .items remaining _ _ _ rest => (2 * remaining, rest.length + 2)
  | .call remaining _ _ _ => (2 * remaining, 1)
  | .invocation _ _ => (0, 0)

theorem Step.bound_lt (step : Step registry task next) :
    Prod.Lex (· < ·) (· < ·) next.bound task.bound := by
  cases step <;> simp [bound, Prod.lex_def] <;> omega

theorem Step.wellFounded : WellFounded fun next task => Step registry task next :=
  Subrelation.wf Step.bound_lt
    (InvImage.wf bound (WellFounded.prod_lex Nat.lt_wfRel.wf Nat.lt_wfRel.wf))

def Reaches (registry : Registry) : Task → Task → Prop := Relation.ReflTransGen (Step registry)

theorem Reaches.faults (reaches : Reaches registry task next)
    (faulty : next.Faults registry fault) : task.Faults registry fault := by
  induction reaches with
  | refl => exact faulty
  | tail _ step ih => exact ih (step.faults faulty)

theorem Faults.reaches (faulty : task.Faults registry fault) :
    ∃ name operands, Reaches registry task (.invocation name operands) ∧
      registry.invoke name operands = .error fault := by
  induction task using (@Step.wellFounded registry).induction with
  | _ task ih =>
      rcases faulty.step with ⟨name, operands, rfl⟩ | ⟨next, step, faulty⟩
      · exact ⟨name, operands, .refl, faulty⟩
      · obtain ⟨name, operands, reaches, invoked⟩ := ih next step faulty
        exact ⟨name, operands, .head step reaches, invoked⟩

theorem faults_iff_reaches :
    task.Faults registry fault ↔
      ∃ name operands, Reaches registry task (.invocation name operands) ∧
        registry.invoke name operands = .error fault :=
  ⟨Faults.reaches, fun ⟨_, _, reaches, faulty⟩ => reaches.faults faulty⟩

end Task

end NodeGraph
