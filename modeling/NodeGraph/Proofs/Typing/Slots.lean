import NodeGraph.Proofs.Typing.Scopes

/-!
Inputs that are read. Inference makes types for the inputs up to the last one that is read, so how
many have types afterwards is told by the names that an expression reads from outside of it.
-/

namespace NodeGraph

namespace Expr

/-- How many inputs have types once those are read that the names designate. -/
def inputsAfter (names : List String) (size : Nat) : Nat :=
  names.foldl
    (fun size name =>
      match inputSlot? name with
      | some slot => max size (slot + 1)
      | none => size)
    size

theorem inputsAfter_append (names others : List String) (size : Nat) :
    inputsAfter (names ++ others) size = inputsAfter others (inputsAfter names size) :=
  List.foldl_append

end Expr

theorem VarTable.freshList_length (table : VarTable) (count : Nat) :
    (table.freshList count).1.length = count := by
  induction count generalizing table with
  | zero => rfl
  | succ count ih => rw [VarTable.freshList, List.length_cons, ih]

namespace Infer

/-- What is run reads the inputs that the names designate, if it comes to an end, and no others. -/
def Reads {Result : Type} (run : InferM Result) (names : List String) : Prop :=
  ∀ state found later, run state = .ok (found, later) →
    later.inputs.size = Expr.inputsAfter names state.inputs.size

section Steps

variable {Result Final : Type} {names others : List String}

theorem reads_pure (found : Result) : Reads (pure found) [] := by
  intro state _ later ran
  cases ran
  rfl

theorem reads_throw (error : TypeError) : Reads (throw error : InferM Result) names := by
  intro state found later ran
  cases ran

theorem Reads.bind {first : InferM Result} {next : Result → InferM Final}
    (begins : Reads first names)
    (continues : ∀ state found later, first state = .ok (found, later) →
      Reads (next found) others) :
    Reads (first >>= next) (names ++ others) := by
  intro state final last ran
  obtain ⟨found, later, began, rest⟩ := bind_ok ran
  rw [Expr.inputsAfter_append, ← begins state found later began]
  exact continues state found later began later final last rest

theorem Reads.after {first : InferM Result} {next : Result → InferM Final}
    (begins : Reads first []) (continues : ∀ found, Reads (next found) names) :
    Reads (first >>= next) names :=
  begins.bind fun _ found _ _ => continues found

theorem Reads.before {first : InferM Result} {next : Result → InferM Final}
    (begins : Reads first names) (continues : ∀ found, Reads (next found) []) :
    Reads (first >>= next) names :=
  List.append_nil names ▸ begins.bind fun _ found _ _ => continues found

theorem reads_freshTy : Reads freshTy [] := by
  intro state found later ran
  cases ran
  rfl

theorem reads_freshTys (count : Nat) : Reads (freshTys count) [] := by
  intro state found later ran
  cases ran
  rfl

theorem reads_instantiate (scheme : Scheme) : Reads (instantiate scheme) [] := by
  intro state found later ran
  cases ran
  rfl

theorem reads_head (ty : Ty) : Reads (head ty) [] := by
  intro state found later ran
  cases ran
  rfl

theorem reads_unify (expected found : Ty) (culprit : Unit → Culprit) :
    Reads (unify expected found culprit) [] := by
  intro state _ later ran
  rw [unify] at ran
  split at ran
  · cases ran
    rfl
  · cases ran

theorem reads_input {name : String} {slot : Nat} (designates : Expr.inputSlot? name = some slot) :
    Reads (input slot) [name] := by
  intro state found later ran
  have after : Expr.inputsAfter [name] state.inputs.size = max state.inputs.size (slot + 1) := by
    rw [Expr.inputsAfter, List.foldl_cons, designates, List.foldl_nil]
  rw [after]
  rw [input] at ran
  cases present : state.inputs[slot]? with
  | some ty =>
      have inside := (Array.getElem?_eq_some_iff.mp present).1
      rw [present] at ran
      cases ran
      omega
  | none =>
      have outside := Array.getElem?_eq_none_iff.mp present
      have added : (state.addInputs (slot + 1 - state.inputs.size)).inputs.size =
          state.inputs.size +
            (state.table.freshList (slot + 1 - state.inputs.size)).1.length :=
        Array.size_append
      rw [VarTable.freshList_length] at added
      simp only [present] at ran
      split at ran
      · cases ran
      · split at ran
        · cases ran
          omega
        · cases ran

end Steps

mutual

theorem valueTy_reads (value : Value) : Reads (valueTy value) [] := by
  match value with
  | .number _ | .integer _ | .boolean _ | .text _ | .point _ | .rect _ | .color _ | .image _ =>
      rw [valueTy]
      exact reads_pure _
  | .error _ | .function _ =>
      rw [valueTy]
      exact reads_freshTy
  | .array items =>
      rw [valueTy]
      exact reads_freshTy.after fun element => (itemsTy_reads _ element items).after fun _ =>
        reads_pure _

theorem itemsTy_reads (culprit : Unit → Culprit) (element : Ty) (items : List Value) :
    Reads (itemsTy culprit element items) [] := by
  match items with
  | [] =>
      rw [itemsTy]
      exact reads_pure _
  | item :: rest =>
      rw [itemsTy]
      exact (valueTy_reads item).after fun _ => (reads_unify _ _ _).after fun _ =>
        itemsTy_reads culprit element rest

end

theorem variableTy_reads (context : TypeContext) (name : String) :
    Reads (variableTy context name)
      ((Expr.variable name).freeNamesUnder (context.scopes.map LambdaScope.bound)) := by
  rw [variableTy, Expr.freeNamesUnder]
  cases bound : context.scoped? name with
  | some ty =>
      obtain ⟨scope, inside, among⟩ :=
        List.mem_flatten.mp (TypeContext.mem_bound_of_scoped? bound)
      have found : ((context.scopes.map LambdaScope.bound).any fun scope => scope.contains name) =
          true := List.any_eq_true.mpr ⟨scope, inside, List.contains_iff_mem.mpr among⟩
      rw [if_pos found]
      exact reads_pure ty
  | none =>
      rw [TypeContext.not_bound_of_scoped? bound]
      cases designates : Expr.inputSlot? name with
      | some slot => exact reads_input designates
      | none =>
          cases context.params.lookup name with
          | none => exact reads_throw _
          | some ty =>
              intro state found later ran
              cases ran
              rw [if_neg Bool.false_ne_true, Expr.inputsAfter, List.foldl_cons, designates,
                List.foldl_nil]

theorem argumentTy_reads (context : TypeContext) (index : UInt64) :
    Reads (argumentTy context index.toNat)
      ((Expr.argument index).freeNamesUnder (context.scopes.map LambdaScope.bound)) := by
  rw [argumentTy, Expr.freeNamesUnder]
  cases context.scopes with
  | nil => exact reads_input (Expr.inputSlot?_argument index)
  | cons scope outer =>
      simp only [List.map_cons, List.isEmpty_cons, Bool.false_eq_true, if_false]
      split
      · exact reads_pure _
      · exact reads_throw _

theorem unifyOperands_reads (context : TypeContext) (params types : List Ty)
    (operands : List Expr) : Reads (unifyOperands context params types operands) [] := by
  induction params generalizing types operands with
  | nil => exact reads_pure ()
  | cons param params ih =>
      cases types with
      | nil => exact reads_pure ()
      | cons found types =>
          cases operands with
          | nil => exact reads_pure ()
          | cons operand operands =>
              exact (reads_unify param found _).after fun _ => ih types operands

mutual

theorem exprTy_reads (context : TypeContext) (expr : Expr) :
    Reads (exprTy context expr)
      (expr.freeNamesUnder (context.scopes.map LambdaScope.bound)) := by
  match expr with
  | .constant value =>
      rw [exprTy, Expr.freeNamesUnder]
      exact valueTy_reads value
  | .variable name =>
      rw [exprTy]
      exact variableTy_reads context name
  | .argument index =>
      rw [exprTy]
      exact argumentTy_reads context index
  | .primitive name operands =>
      rw [exprTy, Expr.freeNamesUnder]
      cases context.registry.signature? name with
      | none => exact reads_throw _
      | some signature =>
          refine (reads_instantiate _).after fun (params, result) => ?_
          cases operands with
          | nil => exact reads_pure _
          | cons operand operands =>
              by_cases many : (operand :: operands).length = params.length
              · simp only [List.isEmpty_cons, Bool.false_eq_true, ne_eq, many, not_true_eq_false,
                  if_false]
                exact (checkOperands_reads context params _ many).before fun _ => reads_pure _
              · simp only [List.isEmpty_cons, Bool.false_eq_true, ne_eq, many, not_false_eq_true,
                  if_true, if_false]
                exact reads_throw _
  | .apply operator operands =>
      rw [exprTy, Expr.freeNamesUnder]
      refine (exprTy_reads context operator).bind fun _ operatorTy _ _ =>
        (exprTys_reads context operands).before fun operandTys =>
          (reads_head operatorTy).after fun outcome => ?_
      cases outcome with
      | function params result =>
          by_cases many : params.length = operandTys.length
          · simp only [ne_eq, many, not_true_eq_false, if_false]
            exact (unifyOperands_reads context params operandTys operands).after fun _ =>
              reads_pure _
          · simp only [ne_eq, many, not_false_eq_true, if_true]
            exact reads_throw _
      | _ => exact reads_freshTy.after fun _ => (reads_unify _ _ _).after fun _ => reads_pure _
  | .map array callable =>
      rw [exprTy, Expr.freeNamesUnder]
      refine (exprTy_reads context array).bind fun _ arrayTy _ _ =>
        reads_freshTy.after fun element => (reads_unify _ _ _).after fun _ =>
          (exprTy_reads context callable).before fun callableTy =>
            (reads_head callableTy).after fun outcome => ?_
      split
      · exact (reads_unify _ _ _).after fun _ => reads_pure _
      · exact reads_throw _
      · exact reads_freshTy.after fun _ => (reads_unify _ _ _).after fun _ => reads_pure _
  | .lambda params body =>
      rw [exprTy, Expr.freeNamesUnder]
      by_cases large : Expr.lambdaArity params body > Expr.maxArguments
      · simp only [large, if_true]
        exact reads_throw _
      · simp only [large, if_false]
        refine (reads_freshTys _).bind fun state arguments later ran => ?_
        have arity : arguments.length = Expr.lambdaArity params body := by
          cases ran
          exact VarTable.freshList_length _ _
        rw [← TypeContext.bound_enter arity]
        exact (exprTy_reads (context.enter params arguments) body).before fun _ => reads_pure _

theorem exprTys_reads (context : TypeContext) (exprs : List Expr) :
    Reads (exprTys context exprs)
      (Expr.freeNamesUnderList (context.scopes.map LambdaScope.bound) exprs) := by
  match exprs with
  | [] =>
      rw [exprTys, Expr.freeNamesUnderList]
      exact reads_pure _
  | expr :: rest =>
      rw [exprTys, Expr.freeNamesUnderList]
      exact (exprTy_reads context expr).bind fun _ _ _ _ =>
        (exprTys_reads context rest).before fun _ => reads_pure _

theorem checkOperands_reads (context : TypeContext) (params : List Ty) (operands : List Expr)
    (many : operands.length = params.length) :
    Reads (checkOperands context params operands)
      (Expr.freeNamesUnderList (context.scopes.map LambdaScope.bound) operands) := by
  match operands, params with
  | [], params =>
      rw [checkOperands, Expr.freeNamesUnderList]
      exact reads_pure _
  | operand :: operands, param :: params =>
      rw [checkOperands, Expr.freeNamesUnderList]
      exact (exprTy_reads context operand).bind fun _ found _ _ =>
        (reads_unify _ _ _).after fun _ =>
          checkOperands_reads context params operands (Nat.succ_inj.mp many)

end

end Infer

end NodeGraph
