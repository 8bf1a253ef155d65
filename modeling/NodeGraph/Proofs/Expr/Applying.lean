import NodeGraph.Proofs.Primitive.Passing
import NodeGraph.Proofs.Expr.Evaluators
import NodeGraph.Proofs.Primitive.Uniformity
import NodeGraph.Proofs.Typing.Variants

/-!
Two ways to call a primitive. Its operands may stand in the call, or the bare primitive may be
applied to them. Evaluation finds the callable earlier and the operands at other places in the one
than in the other, and inference unifies parameters with operands one by one or all at the end; but
both make the same values, up to the identity of functions, and have the same types.
-/

namespace NodeGraph

/-- Functions that arose below an origin are moved, and kept apart; all others stay. -/
structure Origin.Moves (origin : Origin) (place : Origin → Origin) : Prop where
  injective : Function.Injective place
  elsewhere : ∀ other : Origin, ¬ origin <:+ other → place other = other

/-- Primitives may pass functions on and tell them apart, but make nothing of the places below an
origin. -/
def Registry.UniformBelow (origin : Origin) (registry : Registry) : Prop :=
  ∀ place, origin.Moves place → registry.Relocates place

theorem Registry.builtin_uniformBelow (origin : Origin) : Registry.builtin.UniformBelow origin :=
  fun _ moves => builtin_relocates moves.injective

def Expr.ArisesApart (origin : Origin) (expr : Expr) : Prop :=
  ∀ place, origin.Moves place → expr.relocate place = expr

def Frame.ArisesApart (origin : Origin) (frame : Frame) : Prop :=
  ∀ place, origin.Moves place → frame.relocate place = frame

def Frame.horizon (frame : Frame) : Nat :=
  max (Value.bindingsHorizon frame.bindings) (Value.listHorizon frame.arguments)

theorem Origin.horizon_of_suffix {origin other : Origin} (started : origin ≠ [])
    (below : origin <:+ other) : other.horizon = origin.horizon := by
  obtain ⟨steps, rfl⟩ := below
  induction steps with
  | nil => rfl
  | cons step rest ih =>
      rw [← ih, List.cons_append]
      cases whole : rest ++ origin with
      | nil => exact absurd (List.append_eq_nil_iff.mp whole).2 started
      | cons next others => rfl

theorem Origin.Moves.fixes {origin : Origin} {place : Origin → Origin}
    (moves : origin.Moves place) {first : Nat} (later : first < origin.horizon) (other : Origin)
    (settled : other.horizon ≤ first) : place other = other := by
  refine moves.elsewhere other fun below => ?_
  have started : origin ≠ [] := fun none => by
    rw [none] at later
    exact Nat.not_lt_zero first later
  rw [Origin.horizon_of_suffix started below] at settled
  omega

theorem Expr.arisesApart_of_horizon {origin : Origin} {expr : Expr}
    (settled : expr.horizon < origin.horizon) : expr.ArisesApart origin :=
  fun _ moves => expr.relocate_of_horizon (moves.fixes settled) (Nat.le_refl _)

theorem Frame.arisesApart_of_horizon {origin : Origin} {frame : Frame}
    (settled : frame.horizon < origin.horizon) : frame.ArisesApart origin := by
  intro place moves
  have fixes := moves.fixes settled
  rw [Frame.relocate, ← relocateBindings_eq, ← relocateList_eq,
    Value.relocateBindings_of_horizon fixes frame.bindings (Nat.le_max_left _ _),
    Value.relocateList_of_horizon fixes frame.arguments (Nat.le_max_right _ _)]

namespace Origin

/-- What is below an origin moves on by two steps: operands come first in a call, and after the
callable in an application. -/
def shift (base : Origin) : Origin → Origin
  | [] => []
  | step :: rest => if rest = base then (step + 2) :: rest else step :: shift base rest

variable {base : Origin}

theorem shift_step (base : Origin) (step : Nat) :
    shift base (step :: base) = (step + 2) :: base := by
  rw [shift, if_pos rfl]

theorem shift_of_ne {rest : Origin} (other : rest ≠ base) (step : Nat) :
    shift base (step :: rest) = step :: shift base rest := by
  rw [shift, if_neg other]

theorem shift_elsewhere {other : Origin} (apart : ¬ base <:+ other) : shift base other = other := by
  induction other with
  | nil => rfl
  | cons step rest ih =>
      have different : rest ≠ base := fun same => apart (same ▸ List.suffix_cons step rest)
      rw [shift_of_ne different, ih fun below => apart (below.trans (List.suffix_cons step rest))]

theorem shift_base (base : Origin) : shift base base = base := by
  cases base with
  | nil => rfl
  | cons step rest =>
      have different : rest ≠ step :: rest := List.ne_cons_self
      rw [shift_of_ne different, shift_elsewhere]
      exact fun below => absurd below.length_le (by simp)

theorem shift_steady (base : Origin) (step : Nat) : Steady (shift base) (step :: base) := by
  intro steps next
  refine shift_of_ne (fun same => ?_) next
  have lengths := congrArg List.length same
  rw [List.length_append, List.length_cons] at lengths
  omega

theorem shift_injective (base : Origin) : Function.Injective (shift base) := by
  intro left
  induction left with
  | nil =>
      intro right same
      cases right with
      | nil => rfl
      | cons step rest =>
          rw [shift, shift] at same
          split at same <;> cases same
  | cons step rest ih =>
      intro right same
      cases right with
      | nil =>
          rw [shift, shift] at same
          split at same <;> cases same
      | cons other others =>
          by_cases here : rest = base <;> by_cases there : others = base
          · subst here
            subst there
            rw [shift_step, shift_step] at same
            obtain ⟨steps, _⟩ := List.cons.inj same
            rw [Nat.add_right_cancel steps]
          -- What is below the origin does not meet what is elsewhere.
          · subst here
            rw [shift_step, shift_of_ne there] at same
            exact absurd (ih ((shift_base rest).trans (List.cons.inj same).2)) (Ne.symm there)
          · subst there
            rw [shift_step, shift_of_ne here] at same
            exact absurd (ih ((List.cons.inj same).2.trans (shift_base others).symm)) here
          · rw [shift_of_ne here, shift_of_ne there] at same
            obtain ⟨steps, rests⟩ := List.cons.inj same
            rw [steps, ih rests]

theorem shift_moves (base : Origin) : base.Moves (shift base) :=
  ⟨shift_injective base, fun _ => shift_elsewhere⟩

end Origin

namespace Expr

variable {registry : Registry} {call : Call} {frame : Frame} {origin : Origin}

theorem evalOperands_shift (registers : registry.Relocates (Origin.shift origin))
    (relocates : call.Relocates (Origin.shift origin)) (apart : frame.ArisesApart origin)
    (position : Nat) {operands : List Expr}
    (constants : ∀ operand ∈ operands, operand.ArisesApart origin) :
    evalOperands registry call frame origin (position + 2) operands =
      (evalOperands registry call frame origin position operands).map
        (relocateOutcome (Origin.shift origin) (List.map (Value.relocate (Origin.shift origin)))) := by
  induction operands generalizing position with
  | nil => rfl
  | cons operand rest ih =>
      rw [List.forall_mem_cons] at constants
      have first := operand.evalWith_relocate registers relocates frame
        (Origin.shift_steady origin position)
      rw [constants.1 _ (Origin.shift_moves origin), apart _ (Origin.shift_moves origin),
        Origin.shift_step] at first
      rw [evalOperands, evalOperands]
      refine bind_eq_map_bind first fun value => ?_
      have isError : (value.relocate (Origin.shift origin)).isError = value.isError :=
        (View.relocating (Origin.shift origin)).isError value
      rw [isError]
      split
      · rfl
      · refine bind_eq_map_bind (ih (position + 1) constants.2) fun found => ?_
        cases found <;> rfl

theorem evalOperands_errorless {position : Nat} {operands : List Expr} {values : List Value}
    (evaluated : evalOperands registry call frame origin position operands = .ok (.ok values)) :
    Value.firstError? values = none := by
  induction operands generalizing position values with
  | nil =>
      cases evaluated
      rfl
  | cons operand rest ih =>
      rw [evalOperands] at evaluated
      obtain ⟨value, _, continued⟩ := Graph.bind_ok_iff.mp evaluated
      split at continued
      · cases continued
      · rename_i notError
        obtain ⟨found, others, kept⟩ := Graph.bind_ok_iff.mp continued
        cases found with
        | error error => cases kept
        | ok values =>
            cases kept
            rw [Value.firstError?, List.find?_cons_of_neg notError]
            exact ih others

theorem evalWith_applied {name : String} {operands : List Expr}
    (registered : registry.arity? name = some operands.length) (applied : operands ≠ [])
    (uniform : registry.UniformBelow origin) (apart : frame.ArisesApart origin)
    (constants : ∀ operand ∈ operands, operand.ArisesApart origin) (remaining : Nat) :
    (Expr.apply (.primitive name []) operands).evalWith registry (callWithin registry remaining)
        frame origin =
      ((Expr.primitive name operands).evalWith registry (callWithin registry remaining) frame
        origin).map (Value.relocate (Origin.shift origin)) := by
  have registers := uniform _ (Origin.shift_moves origin)
  obtain ⟨signature, found, _⟩ := Infer.signature?_of_arity? registered
  have known := Infer.contains_of_signature? found
  have called : (Expr.primitive name []).callableWith registry (callWithin registry remaining) frame
      (0 :: origin) = .ok (.ok (.primitive name)) := by
    simp only [callableWith, bareName?, Registry.callable?, known, if_true]
  have shifted := evalOperands_shift registers (callWithin_relocates registers remaining) apart 0
    constants
  rw [Nat.zero_add] at shifted
  rw [evalWith_apply, called, evalWith, registered]
  simp only [List.isEmpty_eq_false_iff.mpr applied, Bool.false_and, Bool.false_eq_true, ne_eq,
    not_true_eq_false, if_false, bind, Except.bind, shifted]
  cases evaluated : evalOperands registry (callWithin registry remaining) frame origin 0 operands with
  | error fault => rfl
  | ok found =>
      cases found with
      | error error => rfl
      | ok values =>
          have errors := (View.relocating (Origin.shift origin)).firstError? values
          rw [evalOperands_errorless evaluated] at errors
          simp only [Except.map, relocateOutcome]
          rw [callWithin_eq]
          simp only [View.relocating] at errors
          rw [errors]
          exact registers.invoke name values

end Expr

section Types

variable {known : Nat} {slots : Nat → Ty} {context : TypeContext} {ty : Ty}

theorem hasType_applied {name : String} {operands : List Expr} {signature : Signature}
    (registered : context.registry.signature? name = some signature)
    (takes : signature.scheme.params ≠ []) (applied : operands ≠ []) :
    HasType known slots context (.primitive name operands) ty ↔
      HasType known slots context (.apply (.primitive name []) operands) ty := by
  rw [hasType_primitive registered, hasType_apply]
  simp only [hasType_primitive registered]
  constructor
  · rintro ⟨generics, ⟨none, _⟩ | ⟨_, rfl, typed⟩⟩
    · exact absurd none applied
    · refine ⟨_, ⟨generics, Or.inl ⟨trivial, ?_⟩⟩, typed⟩
      rw [bareTy, if_neg (by simpa using takes)]
  · rintro ⟨types, ⟨generics, ⟨_, same⟩ | ⟨impossible, _⟩⟩, typed⟩
    · rw [bareTy, if_neg (by simpa using takes), Ty.function.injEq] at same
      exact ⟨generics, Or.inr ⟨applied, same.2, same.1 ▸ typed⟩⟩
    · exact absurd rfl impossible

end Types

/-- A call of a primitive and the application of the bare primitive agree. In every evaluator both
have the same value up to the identity of functions, or end with the same fault, if primitives make
nothing of the places where the evaluation makes functions, and there are no functions from these
places yet. And every inferencer infers both or neither, and then tells the same types of the result
and of all inputs, numbered as one; known types are generalized, so they have no variables. -/
theorem Registry.applied_agrees (registry : Registry) {name : String} {arity : Nat}
    (registered : registry.arity? name = some arity) (positive : 0 < arity) {operands : List Expr}
    (many : operands.length = arity) :
    (∀ (origin : Origin) (evaluator : Evaluator), registry.UniformBelow origin →
      evaluator.frame.ArisesApart origin → (∀ operand ∈ operands, operand.ArisesApart origin) →
        ((Evaluator.evaluate registry origin (.primitive name operands)).run evaluator).map
            (fun (value, after) => (value.anonymous, after)) =
          ((Evaluator.evaluate registry origin (.apply (.primitive name []) operands)).run
            evaluator).map fun (value, after) => (value.anonymous, after)) ∧
    (registry.Closed → ∀ (inputs : List InputType) (context : TypeContext) (state : InferState),
      (∀ input ∈ inputs, ∀ ty, input.ty = some ty → ty.vars = []) →
        Inferring registry inputs context state →
          ((Infer.exprTy context (.primitive name operands)).run state).toOption.map
              (fun (ty, later) => later.answer ty) =
            ((Infer.exprTy context (.apply (.primitive name []) operands)).run state).toOption.map
              fun (ty, later) => later.answer ty) := by
  have applied : operands ≠ [] := fun none => by
    rw [none, List.length_nil] at many
    exact Nat.lt_irrefl 0 (many ▸ positive)
  constructor
  · intro origin evaluator uniform apart constants
    have settles := @Evaluator.evaluate_settles evaluator registry origin
    rw [settles (.primitive name operands), settles (.apply (.primitive name []) operands),
      Expr.evalWith_applied (many ▸ registered) applied uniform apart constants]
    generalize (Expr.primitive name operands).evalWith registry _ _ _ = outcome
    cases outcome with
    | error fault => rfl
    | ok value => simp only [Except.map, Value.anonymous_relocate]
  · intro closed inputs context state known inferring
    have keeps := inferring.keeps closed known
    obtain ⟨signature, found, takes⟩ := Infer.signature?_of_arity? registered
    have params : signature.scheme.params ≠ [] :=
      List.ne_nil_of_length_pos (takes ▸ positive)
    refine Infer.exprTy_alike (keeps.registry ▸ closed) keeps.serves keeps.small
      (fun slots vars ty => hasType_applied ?_ params applied) ?_
    · change context.registry.signature? name = some signature
      rw [keeps.registry, found]
    · simp only [Expr.freeNamesUnder, Expr.freeNamesUnderList, List.nil_append]

/-- A selected function arises at the place of its operand, which is another one if the selection is
applied. -/
theorem Registry.selection_applied_agrees :
    let operands := [Expr.variable "in0", .lambda ["x"] (.variable "x"), .variable "in1"]
    let bindings : Bindings := [("in0", .boolean true),
      ("in1", .function (.closure [7] ["y"] (.variable "y") []))]
    let evaluator : Evaluator := ⟨bindings, [], 0⟩
    let selected : Value := .function (.closure [1, 9] ["x"] (.variable "x") bindings)
    let applied : Value := .function (.closure [3, 9] ["x"] (.variable "x") bindings)
    Registry.builtin.arity? "if" = some 3 ∧
      (Evaluator.evaluate .builtin [9] (.primitive "if" operands)).run evaluator =
        .ok (selected, evaluator) ∧
      (Evaluator.evaluate .builtin [9] (.apply (.primitive "if" []) operands)).run evaluator =
        .ok (applied, evaluator) ∧
      selected ≠ applied ∧ selected.Alike applied ∧
      ((Infer.exprTy (.ofRegistry .builtin) (.apply (.primitive "if" []) operands)).run
          (.ofInputs [⟨none, some .boolean⟩, ⟨none, none⟩])).toOption.map
            (fun (ty, later) => (later.answer ty).map Ty.display) =
        some ["('a) -> 'a", "Boolean", "('a) -> 'a"] := by
  intro operands bindings evaluator selected applied
  have direct : (Evaluator.evaluate .builtin [9] (.primitive "if" operands)).run evaluator =
      .ok (selected, evaluator) := rfl
  have indirect : (Evaluator.evaluate .builtin [9] (.apply (.primitive "if" []) operands)).run
      evaluator = .ok (applied, evaluator) := rfl
  have frameApart : evaluator.frame.ArisesApart [9] :=
    Frame.arisesApart_of_horizon (by decide +kernel)
  have operandsApart : ∀ operand ∈ operands, operand.ArisesApart [9] := by
    have settled : ∀ operand ∈ operands, operand.horizon < Origin.horizon [9] := by decide +kernel
    exact fun operand member => Expr.arisesApart_of_horizon (settled operand member)
  obtain ⟨values, types⟩ := @applied_agrees .builtin "if" 3 rfl (by decide)
    operands rfl
  have alike := values [9] evaluator (builtin_uniformBelow [9]) frameApart operandsApart
  rw [direct, indirect] at alike
  refine ⟨rfl, direct, indirect, fun same => ?_, congrArg Prod.fst (Except.ok.inj alike), ?_⟩
  · simp [selected, applied] at same
  · have known : ∀ input ∈ [InputType.mk none (some .boolean), ⟨none, none⟩], ∀ ty,
        input.ty = some ty → ty.vars = [] := by
      simp [Ty.vars]
    have told : ((Infer.exprTy (.ofRegistry .builtin) (.primitive "if" operands)).run
        (.ofInputs [⟨none, some .boolean⟩, ⟨none, none⟩])).toOption.map
          (fun (ty, later) => (later.answer ty).map Ty.display) =
        some ["('a) -> 'a", "Boolean", "('a) -> 'a"] := by
      decide +kernel
    have same := congrArg (Option.map (List.map Ty.display))
      (types builtin_closed _ _ _ known .start)
    rw [Option.map_map, Option.map_map] at same
    exact same.symm.trans told

/-- Known types that have variables are out of this. A variable of which the table knows nothing is
not bound, and it may be made later, so it matters which operands are unified before. -/
theorem variableInput_applied_differs :
    ¬ ∀ (registry : Registry) (name : String) (arity : Nat) (operands : List Expr),
      registry.Closed → registry.arity? name = some arity → 0 < arity → operands.length = arity →
        ∀ (inputs : List InputType) (context : TypeContext) (state : InferState),
          Inferring registry inputs context state →
            ((Infer.exprTy context (.primitive name operands)).run state).toOption.map
                (fun (ty, later) => later.answer ty) =
              ((Infer.exprTy context (.apply (.primitive name []) operands)).run
                state).toOption.map fun (ty, later) => later.answer ty := by
  intro agrees
  have same := agrees .builtin "rect_contains" 2 [.variable "in0", .argument 1]
    Registry.builtin_closed rfl (by decide) rfl [⟨none, some (.var 0)⟩] _ _ .start
  have direct : ((Infer.exprTy (.ofRegistry .builtin)
      (.primitive "rect_contains" [.variable "in0", .argument 1])).run
        (.ofInputs [⟨none, some (.var 0)⟩])).toOption.map (fun (ty, later) => later.answer ty) =
      some [.boolean, .point, .point] := rfl
  have indirect : ((Infer.exprTy (.ofRegistry .builtin)
      (.apply (.primitive "rect_contains" []) [.variable "in0", .argument 1])).run
        (.ofInputs [⟨none, some (.var 0)⟩])).toOption.map (fun (ty, later) => later.answer ty) =
      none := rfl
  rw [direct, indirect] at same
  cases same

end NodeGraph
