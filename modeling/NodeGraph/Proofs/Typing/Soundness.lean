import NodeGraph.Proofs.Expr.Views
import NodeGraph.Proofs.Typing.Inference

/-!
Soundness of inference. In a frame that fits its context, an expression has a value of its inferred
type under every solution of the table that inference leaves. The proof goes along the expression;
calls may nest to any depth, since a closure is judged by its body at every depth.
-/

namespace NodeGraph

/-! ### Constants -/

mutual

def Expr.plain : Expr → Bool
  | .constant value => value.plain
  | .variable _ | .argument _ => true
  | .primitive _ operands => Expr.plainList operands
  | .apply operator operands => operator.plain && Expr.plainList operands
  | .map array callable => array.plain && callable.plain
  | .lambda _ body => body.plain

def Expr.plainList : List Expr → Bool
  | [] => true
  | expr :: rest => expr.plain && Expr.plainList rest

end

namespace Infer

variable {registry : Registry}

theorem valueTy_base {state later : InferState} {ty : Ty} (valid : state.Valid) (kind : BaseType)
    {value : Value} (admits : kind.admits value = true)
    (accepted : (pure (.base kind) : InferM Ty) state = .ok (ty, later)) :
    state.Steps [ty] later ∧ ∀ {vars generics : Nat → Ty}, later.table.Solves vars generics →
      (ty.fill vars generics).Admits registry value := by
  cases accepted
  refine ⟨⟨valid, .refl _, fun ty member => ?_⟩, fun _ => ?_⟩
  · rw [List.mem_singleton.mp member]
    exact Ty.scoped_base kind
  · rw [Ty.fill_base, Ty.Admits]
    exact Or.inr admits

mutual

theorem valueTy_steps (value : Value) (plain : value.plain = true) {state later : InferState}
    {ty : Ty} (valid : state.Valid) (accepted : valueTy value state = .ok (ty, later)) :
    state.Steps [ty] later ∧ ∀ {vars generics : Nat → Ty}, later.table.Solves vars generics →
      (ty.fill vars generics).Admits registry value := by
  match value with
  | .number real => exact valueTy_base valid .number rfl (by rwa [valueTy] at accepted)
  | .integer whole => exact valueTy_base valid .number rfl (by rwa [valueTy] at accepted)
  | .boolean truth => exact valueTy_base valid .boolean rfl (by rwa [valueTy] at accepted)
  | .text string => exact valueTy_base valid .text rfl (by rwa [valueTy] at accepted)
  | .point place => exact valueTy_base valid .point rfl (by rwa [valueTy] at accepted)
  | .rect area => exact valueTy_base valid .rect rfl (by rwa [valueTy] at accepted)
  | .color shade => exact valueTy_base valid .color rfl (by rwa [valueTy] at accepted)
  | .image handle => exact valueTy_base valid .image rfl (by rwa [valueTy] at accepted)
  | .error message =>
      rw [valueTy] at accepted
      exact ⟨freshTy_steps valid accepted, fun _ => Ty.admits_of_error rfl _⟩
  | .function callable => simp [Value.plain] at plain
  | .array items =>
      rw [Value.plain] at plain
      rw [valueTy] at accepted
      obtain ⟨element, fresh, first, accepted⟩ := bind_ok accepted
      obtain ⟨_, checked, second, accepted⟩ := bind_ok accepted
      cases accepted
      have freshSteps := freshTy_steps valid first
      obtain ⟨steps, inhabit⟩ := itemsTy_steps items plain freshSteps.valid
        (freshSteps.small element List.mem_cons_self) second
      have both := freshSteps.trans steps
      refine ⟨⟨both.valid, both.extended, fun ty member => ?_⟩, fun solves => ?_⟩
      · rw [List.mem_singleton.mp member]
        exact Ty.scoped_array.mpr (both.small element List.mem_cons_self)
      · rw [Ty.fill_array]
        exact Ty.admits_array.mpr (Or.inr ⟨items, rfl, inhabit solves⟩)

theorem itemsTy_steps (items : List Value) (plain : Value.plainList items = true)
    {state later : InferState} {element : Ty} {culprit : Unit → Culprit} (valid : state.Valid)
    (small : element.Scoped state.table.size)
    (accepted : itemsTy culprit element items state = .ok ((), later)) :
    state.Steps [] later ∧ ∀ {vars generics : Nat → Ty}, later.table.Solves vars generics →
      ∀ item ∈ items, (element.fill vars generics).Admits registry item := by
  match items with
  | [] =>
      rw [itemsTy] at accepted
      cases accepted
      exact ⟨.refl valid, fun _ _ member => nomatch member⟩
  | item :: rest =>
      rw [Value.plainList, Bool.and_eq_true] at plain
      rw [itemsTy] at accepted
      obtain ⟨ty, typed, first, accepted⟩ := bind_ok accepted
      obtain ⟨_, unified, second, third⟩ := bind_ok accepted
      obtain ⟨itemSteps, inhabits⟩ := valueTy_steps item plain.1 valid first
      obtain ⟨unifySteps, equal⟩ := unify_steps itemSteps.valid
        (small.mono itemSteps.extended.table.size) (itemSteps.small ty List.mem_cons_self) second
      obtain ⟨restSteps, inhabitAll⟩ := itemsTy_steps rest plain.2 unifySteps.valid
        (small.mono (itemSteps.trans unifySteps).extended.table.size) third
      refine ⟨((itemSteps.trans unifySteps).trans restSteps).of_subset (List.nil_subset _), ?_⟩
      intro vars generics solves other member
      rcases List.mem_cons.mp member with same | later
      · have earlier := restSteps.extended.table.solves solves
        rw [same, equal earlier]
        exact inhabits (unifySteps.extended.table.solves earlier)
      · exact inhabitAll solves other later

end

/-! ### What inference establishes -/

/-- Inference found a type, and the value of the expression inhabits it in every frame that fits. -/
structure Types (context : TypeContext) (state : InferState) (expr : Expr) (ty : Ty)
    (later : InferState) : Prop where
  steps : state.Steps [ty] later
  means : ∀ {vars generics : Nat → Ty}, later.table.Solves vars generics → ∀ {frame : Frame},
    frame.Fits context.registry context later.inputs vars generics → ∀ remaining origin,
      (ty.fill vars generics).Yields context.registry (expr.evalWith context.registry
        (callWithin context.registry remaining) frame origin)

structure TypesAll (context : TypeContext) (state : InferState) (exprs : List Expr)
    (types : List Ty) (later : InferState) : Prop where
  steps : state.Steps types later
  length : types.length = exprs.length
  mean : ∀ {vars generics : Nat → Ty}, later.table.Solves vars generics → ∀ {frame : Frame},
    frame.Fits context.registry context later.inputs vars generics → ∀ remaining origin position,
      OperandsYield context.registry (types.map (Ty.fill vars generics))
        (Expr.evalOperands context.registry (callWithin context.registry remaining) frame origin
          position exprs)

variable {context : TypeContext} {state middle later : InferState} {ty : Ty}

theorem types_variable (small : context.Scoped state.table.size) (valid : state.Valid)
    {name : String} (accepted : variableTy context name state = .ok (ty, later)) :
    Types context state (.variable name) ty later := by
  have general : state.Steps [ty] later ∧ context.nameTy? later.inputs name = some ty := by
    rw [variableTy] at accepted
    rw [TypeContext.nameTy?]
    cases inner : context.scoped? name with
    | some found =>
        rw [inner] at accepted
        cases accepted
        refine ⟨⟨valid, .refl _, fun ty member => ?_⟩, rfl⟩
        rw [List.mem_singleton.mp member]
        exact small.scoped? inner
    | none =>
        rw [inner] at accepted
        cases slot : Expr.inputSlot? name with
        | some slot =>
            rw [slot] at accepted
            exact input_steps valid accepted
        | none =>
            rw [slot] at accepted
            cases param : context.params.lookup name with
            | none =>
                rw [param] at accepted
                cases accepted
            | some found =>
                rw [param] at accepted
                cases accepted
                refine ⟨⟨valid, .refl _, fun ty member => ?_⟩, rfl⟩
                rw [List.mem_singleton.mp member]
                obtain ⟨before, after, parts, _⟩ := List.lookup_eq_some_iff.mp param
                exact small.params (name, _) (by simp [parts])
  refine ⟨general.1, fun solves frame fits remaining origin => ?_⟩
  rw [Expr.evalWith]
  exact ⟨_, rfl, fits.named name ty general.2⟩

theorem types_argument (small : context.Scoped state.table.size) (valid : state.Valid)
    {index : UInt64} (accepted : argumentTy context index.toNat state = .ok (ty, later)) :
    Types context state (.argument index) ty later := by
  have general : state.Steps [ty] later ∧
      context.argumentTy? later.inputs index.toNat = some ty := by
    rw [argumentTy] at accepted
    rw [TypeContext.argumentTy?]
    cases scopes : context.scopes with
    | nil =>
        rw [scopes] at accepted
        exact input_steps valid accepted
    | cons scope rest =>
        rw [scopes] at accepted
        simp only at accepted ⊢
        cases found : scope.arguments[index.toNat]? with
        | some argument =>
            rw [found] at accepted
            cases accepted
            refine ⟨⟨valid, .refl _, fun ty member => ?_⟩, rfl⟩
            rw [List.mem_singleton.mp member]
            exact small.arguments scope (by simp [scopes]) _ (List.mem_of_getElem? found)
        | none =>
            rw [found] at accepted
            cases accepted
  refine ⟨general.1, fun solves frame fits remaining origin => ?_⟩
  rw [Expr.evalWith]
  exact ⟨_, rfl, fits.argued _ ty general.2⟩

/-! ### Primitives -/

theorem exprTy_primitive {name : String} {operands : List Expr}
    (accepted : exprTy context (.primitive name operands) state = .ok (ty, later)) :
    ∃ signature params result opened, context.registry.signature? name = some signature ∧
      instantiate signature.scheme state = .ok ((params, result), opened) ∧
      ((operands = [] ∧ later = opened ∧
          ty = if params.isEmpty then result else .function params result) ∨
        (operands ≠ [] ∧ operands.length = params.length ∧ ty = result ∧
          checkOperands context params operands opened = .ok ((), later))) := by
  rw [exprTy] at accepted
  cases found : context.registry.signature? name with
  | none =>
      rw [found] at accepted
      cases accepted
  | some signature =>
      rw [found] at accepted
      obtain ⟨⟨params, result⟩, opened, first, accepted⟩ := bind_ok accepted
      refine ⟨signature, params, result, opened, rfl, first, ?_⟩
      cases operands with
      | nil =>
          cases accepted
          exact Or.inl ⟨rfl, rfl, rfl⟩
      | cons operand rest =>
          simp only [List.isEmpty_cons, Bool.false_eq_true, if_false] at accepted
          split at accepted
          · cases accepted
          · rename_i lengths
            obtain ⟨_, checked, second, third⟩ := bind_ok accepted
            cases third
            exact Or.inr ⟨List.cons_ne_nil _ _, by simpa using lengths, rfl, second⟩

theorem arity?_of_signature? {registry : Registry} {name : String} {signature : Signature}
    (found : registry.signature? name = some signature) :
    registry.arity? name = some signature.scheme.params.length := by
  rw [Registry.arity?, found]
  rfl

theorem signature?_of_arity? {registry : Registry} {name : String} {arity : Nat}
    (registered : registry.arity? name = some arity) :
    ∃ signature, registry.signature? name = some signature ∧
      signature.scheme.params.length = arity :=
  Option.map_eq_some_iff.mp registered

theorem contains_of_signature? {registry : Registry} {name : String} {signature : Signature}
    (found : registry.signature? name = some signature) : registry.contains name = true := by
  obtain ⟨primitive, present, _⟩ := Option.map_eq_some_iff.mp found
  rw [Registry.contains, present]
  rfl

theorem types_constant (sound : context.registry.Sound) (valid : state.Valid) {name : String}
    {signature : Signature} (found : context.registry.signature? name = some signature)
    (opened : instantiate signature.scheme state = .ok (([], ty), later)) :
    Types context state (.primitive name []) ty later ∧
      ∀ {vars generics : Nat → Ty} {params : List Ty} {result : Ty},
        ty.fill vars generics = .function params result →
          Callable.Maps context.registry params result (.primitive name) := by
  have closed := sound.closed name signature found
  obtain ⟨steps, filled⟩ := instantiate_steps valid closed opened
  have constant : signature.scheme.params = [] :=
    List.length_eq_zero_iff.mp (instantiate_length valid closed opened).symm
  refine ⟨⟨steps, fun {vars generics} solves frame fits remaining origin => ?_⟩, ?_⟩
  · obtain ⟨instances, _, resultFilled⟩ := filled vars generics
    rw [Expr.evalWith, arity?_of_signature? found, constant]
    simp only [List.isEmpty_nil, List.length_nil, gt_iff_lt, Nat.lt_irrefl, decide_false,
      Bool.and_false, Bool.false_eq_true, if_false, ne_eq, not_true_eq_false, Expr.evalOperands]
    rw [resultFilled]
    exact sound.results name signature found instances [] (by rw [constant]; exact trivial)
  · intro vars generics params result function
    obtain ⟨instances, _, resultFilled⟩ := filled vars generics
    exact sound.maps_constant found constant (resultFilled.symm.trans function) params result

theorem types_operation (sound : context.registry.Sound) (valid : state.Valid) {name : String}
    {signature : Signature} (found : context.registry.signature? name = some signature)
    {params : List Ty} {result : Ty} (nonempty : params ≠ [])
    (opened : instantiate signature.scheme state = .ok ((params, result), later)) :
    Types context state (.primitive name []) (.function params result) later ∧
      ∀ vars generics : Nat → Ty, Callable.Maps context.registry
        (params.map (Ty.fill vars generics)) (result.fill vars generics) (.primitive name) := by
  have closed := sound.closed name signature found
  obtain ⟨steps, filled⟩ := instantiate_steps valid closed opened
  have maps : ∀ vars generics : Nat → Ty, Callable.Maps context.registry
      (params.map (Ty.fill vars generics)) (result.fill vars generics) (.primitive name) := by
    intro vars generics
    obtain ⟨instances, paramsFilled, resultFilled⟩ := filled vars generics
    rw [paramsFilled, resultFilled]
    exact sound.maps found instances
  have positive : 0 < signature.scheme.params.length := by
    rw [← instantiate_length valid closed opened]
    exact List.length_pos_iff.mpr nonempty
  refine ⟨⟨⟨steps.valid, steps.extended, fun ty member => ?_⟩,
    fun solves frame fits remaining origin => ?_⟩, maps⟩
  · rw [List.mem_singleton.mp member]
    exact Ty.scoped_function.mpr
      ⟨fun param listed => steps.small param (List.mem_append_left _ listed),
        steps.small result (List.mem_append_right _ List.mem_cons_self)⟩
  · rw [Expr.evalWith, arity?_of_signature? found]
    simp only [List.isEmpty_nil, gt_iff_lt, positive, decide_true, Bool.and_self, if_true]
    rw [Ty.fill_function]
    exact ⟨_, rfl, Ty.admits_function.mpr (Or.inr ⟨_, rfl, maps _ _⟩)⟩

theorem types_bare (sound : context.registry.Sound) (valid : state.Valid) {name : String}
    (accepted : exprTy context (.primitive name []) state = .ok (ty, later)) :
    Types context state (.primitive name []) ty later ∧
      ∀ {vars generics : Nat → Ty} {params : List Ty} {result : Ty},
        ty.fill vars generics = .function params result →
          Callable.Maps context.registry params result (.primitive name) := by
  obtain ⟨signature, params, result, opened, found, first, shape⟩ := exprTy_primitive accepted
  obtain ⟨_, rfl, rfl⟩ | ⟨impossible, _⟩ := shape
  · cases params with
    | nil => exact types_constant sound valid found first
    | cons param rest =>
        obtain ⟨types, maps⟩ := types_operation sound valid found (List.cons_ne_nil _ _) first
        refine ⟨types, fun {vars generics} _ _ function => ?_⟩
        rw [List.isEmpty_cons, if_neg Bool.false_ne_true, Ty.fill_function] at function
        obtain ⟨rfl, rfl⟩ := Ty.function.inj function
        exact maps vars generics
  · exact absurd rfl impossible

theorem types_primitive (sound : context.registry.Sound) {name : String} {operands : List Expr}
    {signature : Signature} (found : context.registry.signature? name = some signature)
    (valid : state.Valid) {params : List Ty}
    (first : instantiate signature.scheme state = .ok ((params, ty), middle))
    (lengths : operands.length = params.length) (nonempty : operands ≠ [])
    (all : TypesAll context middle operands params later) :
    Types context state (.primitive name operands) ty later := by
  obtain ⟨steps, filled⟩ := instantiate_steps valid (sound.closed name signature found) first
  refine ⟨(steps.trans all.steps).of_subset (by simp), fun solves frame fits remaining origin => ?_⟩
  rename_i vars generics
  obtain ⟨instances, paramsFilled, resultFilled⟩ := filled vars generics
  have arity : operands.length = signature.scheme.params.length :=
    lengths.trans (instantiate_length valid (sound.closed name signature found) first)
  have isEmpty : operands.isEmpty = false := by
    cases operands with
    | nil => exact absurd rfl nonempty
    | cons _ _ => rfl
  rw [Expr.evalWith, arity?_of_signature? found]
  simp only [isEmpty, Bool.false_and, Bool.false_eq_true, if_false, arity, ne_eq,
    not_true_eq_false]
  rcases all.mean solves fits remaining origin 0 with
    ⟨error, given, broken⟩ | ⟨values, given, admitted⟩
  · rw [given]
    exact Ty.yields_of_error broken _
  · rw [given, resultFilled]
    rw [paramsFilled] at admitted
    exact sound.results name signature found instances values admitted

/-! ### Lambdas -/

theorem named_arguments {vars generics : Nat → Ty} {types : List Ty} {arguments : List Value}
    (admitted : Ty.AdmitsAll registry (types.map (Ty.fill vars generics)) arguments)
    (params : List String) (name : String) :
    ((params.zip types).reverse.lookup name = none ∧
        (params.zip arguments).reverse.lookup name = none) ∨
      ∃ ty argument, (params.zip types).reverse.lookup name = some ty ∧
        (params.zip arguments).reverse.lookup name = some argument ∧
          (ty.fill vars generics).Admits registry argument := by
  induction params generalizing types arguments with
  | nil => exact Or.inl ⟨rfl, rfl⟩
  | cons param params ih =>
      cases types with
      | nil =>
          cases arguments with
          | nil => exact Or.inl ⟨rfl, rfl⟩
          | cons argument arguments => cases admitted
      | cons ty types =>
          cases arguments with
          | nil => cases admitted
          | cons argument arguments =>
              obtain ⟨first, others⟩ := Ty.admitsAll_cons.mp admitted
              simp only [List.zip_cons_cons, List.reverse_cons, List.lookup_append,
                List.lookup_cons, List.lookup_nil]
              rcases ih others with ⟨noTy, noArgument⟩ | ⟨found, given, typed, valued, inhabits⟩
              · rw [noTy, noArgument]
                cases name == param with
                | true => exact Or.inr ⟨ty, argument, rfl, rfl, first⟩
                | false => exact Or.inl ⟨rfl, rfl⟩
              · rw [typed, valued]
                exact Or.inr ⟨found, given, rfl, rfl, inhabits⟩

theorem fits_ofCall {inputs : Array Ty} {vars generics : Nat → Ty} {frame : Frame}
    (fits : frame.Fits registry context inputs vars generics) (params : List String)
    {types : List Ty} {arguments : List Value}
    (admitted : Ty.AdmitsAll registry (types.map (Ty.fill vars generics)) arguments) :
    (Frame.ofCall frame.bindings params arguments).Fits registry
      { context with scopes := ⟨params.zip types, types⟩ :: context.scopes } inputs vars generics
    where
  named := by
    intro name ty found
    rw [TypeContext.nameTy?, TypeContext.scoped?, List.findSome?_cons] at found
    rw [Frame.valueOf, Frame.ofCall, List.lookup_append]
    rcases named_arguments admitted params name with
      ⟨noTy, noArgument⟩ | ⟨given, argument, typed, valued, inhabits⟩
    · rw [noTy] at found
      rw [noArgument]
      exact fits.named name ty found
    · rw [typed] at found
      cases found
      rw [valued]
      exact inhabits
  argued := by
    intro index ty found
    have filled : (types.map (Ty.fill vars generics))[index]? = some (ty.fill vars generics) := by
      rw [List.getElem?_map, show types[index]? = some ty from found]
      rfl
    obtain ⟨argument, given, inhabits⟩ := Ty.admitsAll_getElem? admitted filled
    rw [Frame.argumentAt, Frame.ofCall, given]
    exact inhabits

theorem types_lambda {params : List String} {body : Expr} (valid : state.Valid) {types : List Ty}
    {result : Ty} (freshed : freshTys (Expr.lambdaArity params body) state = .ok (types, middle))
    (typed : Types { context with scopes := ⟨params.zip types, types⟩ :: context.scopes } middle
      body result later) :
    Types context state (.lambda params body) (.function types result) later := by
  obtain ⟨fresh, lengths⟩ := freshTys_steps valid freshed
  have both := fresh.trans typed.steps
  refine ⟨⟨both.valid, both.extended, fun ty member => ?_⟩,
    fun solves frame fits remaining origin => ?_⟩
  · rw [List.mem_singleton.mp member]
    exact Ty.scoped_function.mpr ⟨fun ty listed => both.small ty (List.mem_append_left _ listed),
      both.small result (List.mem_append_right _ List.mem_cons_self)⟩
  · rw [Expr.evalWith, Ty.fill_function]
    refine ⟨_, rfl, Ty.admits_function.mpr (Or.inr ⟨_, rfl, Callable.maps_closure ?_ ?_⟩)⟩
    · rw [List.length_map, lengths]
    · intro deeper place arguments admitted
      exact typed.means solves (fits_ofCall fits params admitted) deeper place

/-! ### Applications -/

theorem unifyOperands_steps {params types : List Ty} {operands : List Expr} (valid : state.Valid)
    (paramsSmall : ∀ ty ∈ params, ty.Scoped state.table.size)
    (typesSmall : ∀ ty ∈ types, ty.Scoped state.table.size)
    (lengths : params.length = types.length) (same : types.length = operands.length)
    (accepted : unifyOperands context params types operands state = .ok ((), later)) :
    state.Steps [] later ∧ ∀ {vars generics : Nat → Ty}, later.table.Solves vars generics →
      params.map (Ty.fill vars generics) = types.map (Ty.fill vars generics) := by
  induction params generalizing state types operands with
  | nil =>
      cases types with
      | cons found types => cases lengths
      | nil =>
          cases accepted
          exact ⟨.refl valid, fun _ => rfl⟩
  | cons param params ih =>
      cases types with
      | nil => cases lengths
      | cons found types =>
          cases operands with
          | nil => cases same
          | cons operand operands =>
              rw [unifyOperands] at accepted
              obtain ⟨_, unified, first, accepted⟩ := bind_ok accepted
              obtain ⟨steps, equal⟩ := unify_steps valid (paramsSmall param List.mem_cons_self)
                (typesSmall found List.mem_cons_self) first
              obtain ⟨others, equalAll⟩ := ih steps.valid
                (fun ty member => (paramsSmall ty (List.mem_cons_of_mem _ member)).mono
                  steps.extended.table.size)
                (fun ty member => (typesSmall ty (List.mem_cons_of_mem _ member)).mono
                  steps.extended.table.size)
                (Nat.succ.inj lengths) (Nat.succ.inj same) accepted
              refine ⟨steps.trans others, fun solves => ?_⟩
              rw [List.map_cons, List.map_cons, equal (others.extended.table.solves solves),
                equalAll solves]

def applyTy (context : TypeContext) (operator : Expr) (operands : List Expr) (operatorTy : Ty)
    (types : List Ty) : InferM Ty := do
  match ← head operatorTy with
  | .function params result =>
      if params.length ≠ types.length then
        throw (.arityMismatch params.length types.length (Expr.apply operator operands).print)
      else
        unifyOperands context params types operands
        return result
  | other =>
      let result ← freshTy
      unify (.function types result) other fun _ => context.culprit operator
      return result

theorem exprTy_apply (operator : Expr) (operands : List Expr) :
    exprTy context (.apply operator operands) = (do
      let operatorTy ← exprTy context operator
      let types ← exprTys context operands
      applyTy context operator operands operatorTy types) := by
  rw [exprTy]
  rfl

theorem applyTy_steps (valid : state.Valid) {operator : Expr} {operands : List Expr}
    {operatorTy result : Ty} {types : List Ty} (small : operatorTy.Scoped state.table.size)
    (typesSmall : ∀ ty ∈ types, ty.Scoped state.table.size)
    (lengths : types.length = operands.length)
    (accepted : applyTy context operator operands operatorTy types state = .ok (result, later)) :
    state.Steps [result] later ∧ ∀ {vars generics : Nat → Ty}, later.table.Solves vars generics →
      operatorTy.fill vars generics =
        .function (types.map (Ty.fill vars generics)) (result.fill vars generics) := by
  rw [applyTy] at accepted
  obtain ⟨outcome, headState, first, chosen⟩ := bind_ok accepted
  obtain ⟨headed, same⟩ := head_steps valid small first
  have outcomeSmall := headed.small outcome List.mem_cons_self
  replace typesSmall := fun ty member =>
    Ty.Scoped.mono (typesSmall ty member) headed.extended.table.size
  split at chosen
  · rename_i params given
    split at chosen
    · cases chosen
    · rename_i equalLengths
      obtain ⟨_, unified, second, third⟩ := bind_ok chosen
      cases third
      obtain ⟨paramsSmall, resultSmall⟩ := Ty.scoped_function.mp outcomeSmall
      obtain ⟨steps, equal⟩ := unifyOperands_steps headed.valid paramsSmall typesSmall
        (not_not.mp equalLengths) lengths second
      refine ⟨⟨steps.valid, headed.extended.trans steps.extended, fun ty member => ?_⟩,
        fun solves => ?_⟩
      · rw [List.mem_singleton.mp member]
        exact resultSmall.mono steps.extended.table.size
      · rw [← same (steps.extended.table.solves solves), Ty.fill_function, equal solves]
  · obtain ⟨given, freshState, second, chosen⟩ := bind_ok chosen
    obtain ⟨_, unified, third, fourth⟩ := bind_ok chosen
    cases fourth
    have fresh := freshTy_steps headed.valid second
    have applied : (Ty.function types result).Scoped freshState.table.size :=
      Ty.scoped_function.mpr
        ⟨fun ty member => (typesSmall ty member).mono fresh.extended.table.size,
          fresh.small result List.mem_cons_self⟩
    obtain ⟨steps, equal⟩ := unify_steps fresh.valid applied
      (outcomeSmall.mono fresh.extended.table.size) third
    have both := fresh.trans steps
    refine ⟨(headed.trans both).of_subset (by simp), fun solves => ?_⟩
    rw [← same (both.extended.table.solves solves), ← equal solves, Ty.fill_function]

def mapTy (context : TypeContext) (array callable : Expr) (element callableTy : Ty) :
    InferM Ty := do
  match ← head callableTy with
  | .function [param] result =>
      unify param element fun _ => context.culprit array
      return .array result
  | .function params _ =>
      throw (.arityMismatch params.length 1 (Expr.map array callable).print)
  | other =>
      let result ← freshTy
      unify (.function [element] result) other fun _ => context.culprit callable
      return .array result

theorem exprTy_map (array callable : Expr) :
    exprTy context (.map array callable) = (do
      let arrayTy ← exprTy context array
      let element ← freshTy
      unify (.array element) arrayTy fun _ => context.culprit array
      let callableTy ← exprTy context callable
      mapTy context array callable element callableTy) := by
  rw [exprTy]
  rfl

theorem mapTy_steps (valid : state.Valid) {array callable : Expr} {element callableTy : Ty}
    (elementSmall : element.Scoped state.table.size)
    (small : callableTy.Scoped state.table.size)
    (accepted : mapTy context array callable element callableTy state = .ok (ty, later)) :
    ∃ result, ty = .array result ∧ state.Steps [result] later ∧
      ∀ {vars generics : Nat → Ty}, later.table.Solves vars generics →
        callableTy.fill vars generics =
          .function [element.fill vars generics] (result.fill vars generics) := by
  rw [mapTy] at accepted
  obtain ⟨outcome, headState, first, chosen⟩ := bind_ok accepted
  obtain ⟨headed, same⟩ := head_steps valid small first
  have outcomeSmall := headed.small outcome List.mem_cons_self
  replace elementSmall := elementSmall.mono headed.extended.table.size
  split at chosen
  · rename_i param given
    obtain ⟨_, unified, second, third⟩ := bind_ok chosen
    cases third
    obtain ⟨paramsSmall, resultSmall⟩ := Ty.scoped_function.mp outcomeSmall
    obtain ⟨steps, equal⟩ :=
      unify_steps headed.valid (paramsSmall param List.mem_cons_self) elementSmall second
    refine ⟨given, rfl, ⟨steps.valid, headed.extended.trans steps.extended, fun ty member => ?_⟩,
      fun solves => ?_⟩
    · rw [List.mem_singleton.mp member]
      exact resultSmall.mono steps.extended.table.size
    · rw [← same (steps.extended.table.solves solves), Ty.fill_function, List.map_singleton,
        equal solves]
  · cases chosen
  · obtain ⟨given, freshState, second, chosen⟩ := bind_ok chosen
    obtain ⟨_, unified, third, fourth⟩ := bind_ok chosen
    cases fourth
    have fresh := freshTy_steps headed.valid second
    have applied : (Ty.function [element] given).Scoped freshState.table.size := by
      refine Ty.scoped_function.mpr ⟨fun ty member => ?_, fresh.small given List.mem_cons_self⟩
      rw [List.mem_singleton.mp member]
      exact elementSmall.mono fresh.extended.table.size
    obtain ⟨steps, equal⟩ := unify_steps fresh.valid applied
      (outcomeSmall.mono fresh.extended.table.size) third
    have both := fresh.trans steps
    refine ⟨given, rfl, (headed.trans both).of_subset (by simp), fun solves => ?_⟩
    rw [← same (both.extended.table.solves solves), ← equal solves, Ty.fill_function,
      List.map_singleton]

theorem operator_yields (sound : context.registry.Sound) (valid : state.Valid) {operator : Expr}
    (accepted : exprTy context operator state = .ok (ty, later))
    (typed : Types context state operator ty later) {vars generics : Nat → Ty}
    (solves : later.table.Solves vars generics) {params : List Ty} {result : Ty}
    (function : ty.fill vars generics = .function params result) {frame : Frame}
    (fits : frame.Fits context.registry context later.inputs vars generics) (remaining : Nat)
    (origin : Origin) :
    OperatorYields context.registry params result
      (operator.callableWith context.registry (callWithin context.registry remaining) frame origin)
    := by
  cases bare : operator.bareName? with
  | none =>
      have yields := typed.means solves fits remaining origin
      rw [function] at yields
      exact Expr.operator_of_yields bare yields
  | some name =>
      -- A bare primitive is called by name, and its value does not count.
      obtain rfl : operator = .primitive name [] := by
        rw [Expr.bareName?.eq_def] at bare
        split at bare
        · cases bare
          rfl
        · cases bare
      exact Expr.operator_of_maps bare ((types_bare sound valid accepted).2 function)

theorem types_apply (sound : context.registry.Sound) (valid : state.Valid) {operator : Expr}
    {operands : List Expr} {operatorTy result : Ty} {types : List Ty} {last : InferState}
    (accepted : exprTy context operator state = .ok (operatorTy, middle))
    (typed : Types context state operator operatorTy middle)
    (typedAll : TypesAll context middle operands types later) (steps : later.Steps [result] last)
    (equal : ∀ {vars generics : Nat → Ty}, last.table.Solves vars generics →
      operatorTy.fill vars generics =
        .function (types.map (Ty.fill vars generics)) (result.fill vars generics)) :
    Types context state (.apply operator operands) result last := by
  refine ⟨((typed.steps.trans typedAll.steps).trans steps).of_subset (by simp),
    fun solves frame fits remaining origin => ?_⟩
  have solvesLater := steps.extended.table.solves solves
  have solvesMiddle := typedAll.steps.extended.table.solves solvesLater
  have fitsLater := fits.earlier steps.extended
  have fitsMiddle := fitsLater.earlier typedAll.steps.extended
  exact Expr.apply_yields
    (operator_yields sound valid accepted typed solvesMiddle (equal solves) fitsMiddle remaining _)
    (typedAll.mean solvesLater fitsLater remaining origin 2)

theorem types_map (sound : context.registry.Sound) {array callable : Expr}
    {arrayTy element callableTy result : Ty} {opened unified last : InferState}
    (valid : unified.Valid) (typed : Types context state array arrayTy opened)
    (elementSteps : opened.Steps [element] unified)
    (elementEqual : ∀ {vars generics : Nat → Ty}, unified.table.Solves vars generics →
      arrayTy.fill vars generics = .array (element.fill vars generics))
    (accepted : exprTy context callable unified = .ok (callableTy, middle))
    (callableTyped : Types context unified callable callableTy middle)
    (steps : middle.Steps [result] last)
    (equal : ∀ {vars generics : Nat → Ty}, last.table.Solves vars generics →
      callableTy.fill vars generics =
        .function [element.fill vars generics] (result.fill vars generics)) :
    Types context state (.map array callable) (.array result) last := by
  have all := ((typed.steps.trans elementSteps).trans callableTyped.steps).trans steps
  refine ⟨⟨all.valid, all.extended, fun ty member => ?_⟩,
    fun solves frame fits remaining origin => ?_⟩
  · rw [List.mem_singleton.mp member]
    exact Ty.scoped_array.mpr (steps.small result List.mem_cons_self)
  · have solvesMiddle := steps.extended.table.solves solves
    have solvesUnified := callableTyped.steps.extended.table.solves solvesMiddle
    have solvesOpened := elementSteps.extended.table.solves solvesUnified
    have fitsMiddle := fits.earlier steps.extended
    have fitsOpened :=
      (fitsMiddle.earlier callableTyped.steps.extended).earlier elementSteps.extended
    have arrayYields := typed.means solvesOpened fitsOpened remaining (0 :: origin)
    rw [elementEqual solvesUnified] at arrayYields
    rw [Ty.fill_array]
    exact Expr.map_yields arrayYields (operator_yields sound valid accepted callableTyped
      solvesMiddle (equal solves) fitsMiddle remaining _)

/-! ### Soundness -/

theorem typesAll_nil (valid : state.Valid) : TypesAll context state [] [] state :=
  ⟨.refl valid, rfl, fun _ _ _ _ _ position => Expr.operands_nil position⟩

theorem typesAll_cons {expr : Expr} {rest : List Expr} {types : List Ty}
    (typed : Types context state expr ty middle)
    (typedAll : TypesAll context middle rest types later) :
    TypesAll context state (expr :: rest) (ty :: types) later := by
  refine ⟨typed.steps.trans typedAll.steps, ?_,
    fun solves frame fits remaining origin position => ?_⟩
  · rw [List.length_cons, List.length_cons, typedAll.length]
  · rw [List.map_cons]
    exact Expr.operands_cons (typed.means (typedAll.steps.extended.table.solves solves)
      (fits.earlier typedAll.steps.extended) remaining _)
      (typedAll.mean solves fits remaining origin (position + 1))

theorem typesAll_expected {expr : Expr} {rest : List Expr} {types : List Ty} {param : Ty}
    {unified : InferState} (typed : Types context state expr ty middle)
    (small : param.Scoped middle.table.size) {culprit : Unit → Culprit}
    (accepted : unify param ty culprit middle = .ok ((), unified))
    (typedAll : TypesAll context unified rest types later) :
    TypesAll context state (expr :: rest) (param :: types) later := by
  obtain ⟨steps, equal⟩ := unify_steps typed.steps.valid small
    (typed.steps.small ty List.mem_cons_self) accepted
  have expected : Types context state expr param unified := by
    refine ⟨⟨steps.valid, typed.steps.extended.trans steps.extended, fun ty member => ?_⟩,
      fun solves frame fits remaining origin => ?_⟩
    · rw [List.mem_singleton.mp member]
      exact small.mono steps.extended.table.size
    · rw [equal solves]
      exact typed.means (steps.extended.table.solves solves) (fits.earlier steps.extended)
        remaining origin
  exact typesAll_cons expected typedAll

mutual

theorem exprTy_types {context : TypeContext} (sound : context.registry.Sound) (expr : Expr)
    (plain : expr.plain = true) {state later : InferState} {ty : Ty} (valid : state.Valid)
    (small : context.Scoped state.table.size)
    (accepted : exprTy context expr state = .ok (ty, later)) :
    Types context state expr ty later := by
  match expr with
  | .constant value =>
      rw [Expr.plain] at plain
      rw [exprTy] at accepted
      obtain ⟨steps, inhabits⟩ := valueTy_steps value plain valid accepted
      exact ⟨steps, fun solves frame fits remaining origin => ⟨value, rfl, inhabits solves⟩⟩
  | .variable name =>
      rw [exprTy] at accepted
      exact types_variable small valid accepted
  | .argument index =>
      rw [exprTy] at accepted
      exact types_argument small valid accepted
  | .primitive name operands =>
      rw [Expr.plain] at plain
      obtain ⟨signature, params, result, opened, found, first, shape⟩ := exprTy_primitive accepted
      obtain ⟨rfl, _, _⟩ | ⟨nonempty, lengths, rfl, checked⟩ := shape
      · exact (types_bare sound valid accepted).1
      · obtain ⟨steps, _⟩ := instantiate_steps valid (sound.closed name signature found) first
        have all := checkOperands_types sound operands plain steps.valid
          (small.mono steps.extended.table.size)
          (fun ty member => steps.small ty (List.mem_append_left _ member)) lengths checked
        exact types_primitive sound found valid first lengths nonempty all
  | .apply operator operands =>
      rw [Expr.plain, Bool.and_eq_true] at plain
      rw [exprTy_apply] at accepted
      obtain ⟨operatorTy, middle, first, accepted⟩ := bind_ok accepted
      obtain ⟨types, typedState, second, third⟩ := bind_ok accepted
      have typed := exprTy_types sound operator plain.1 valid small first
      have typedAll := exprTys_types sound operands plain.2 typed.steps.valid
        (small.mono typed.steps.extended.table.size) second
      have both := typed.steps.trans typedAll.steps
      obtain ⟨steps, equal⟩ := applyTy_steps both.valid (both.small operatorTy List.mem_cons_self)
        typedAll.steps.small typedAll.length third
      exact types_apply sound valid first typed typedAll steps equal
  | .map array callable =>
      -- The element is found before the callable is typed, and stays what it is from then on.
      rw [Expr.plain, Bool.and_eq_true] at plain
      rw [exprTy_map] at accepted
      obtain ⟨arrayTy, opened, first, accepted⟩ := bind_ok accepted
      obtain ⟨element, freshState, second, accepted⟩ := bind_ok accepted
      obtain ⟨_, unified, third, accepted⟩ := bind_ok accepted
      obtain ⟨callableTy, middle, fourth, fifth⟩ := bind_ok accepted
      have typed := exprTy_types sound array plain.1 valid small first
      have fresh := freshTy_steps typed.steps.valid second
      obtain ⟨unifySteps, unifyEqual⟩ := unify_steps fresh.valid
        (Ty.scoped_array.mpr (fresh.small element List.mem_cons_self))
        ((typed.steps.small arrayTy List.mem_cons_self).mono fresh.extended.table.size) third
      have elementSteps := fresh.trans unifySteps
      have before := typed.steps.trans elementSteps
      have callableTyped := exprTy_types sound callable plain.2 before.valid
        (small.mono before.extended.table.size) fourth
      have all := before.trans callableTyped.steps
      obtain ⟨result, rfl, steps, equal⟩ := mapTy_steps all.valid (all.small element (by simp))
        (all.small callableTy (by simp)) fifth
      refine types_map sound before.valid typed elementSteps ?_ fourth callableTyped steps equal
      intro vars generics solves
      rw [← unifyEqual solves, Ty.fill_array]
  | .lambda params body =>
      rw [Expr.plain] at plain
      rw [exprTy] at accepted
      simp only at accepted
      split at accepted
      · cases accepted
      · obtain ⟨types, middle, first, accepted⟩ := bind_ok accepted
        obtain ⟨result, typedState, second, third⟩ := bind_ok accepted
        cases third
        obtain ⟨fresh, _⟩ := freshTys_steps valid first
        have inside := (small.mono fresh.extended.table.size).enter params fresh.small
        have typed := @exprTy_types
          { context with scopes := ⟨params.zip types, types⟩ :: context.scopes } sound body plain
          middle _ result fresh.valid inside second
        exact types_lambda valid first typed

theorem exprTys_types {context : TypeContext} (sound : context.registry.Sound) (exprs : List Expr)
    (plain : Expr.plainList exprs = true) {state later : InferState} {types : List Ty}
    (valid : state.Valid) (small : context.Scoped state.table.size)
    (accepted : exprTys context exprs state = .ok (types, later)) :
    TypesAll context state exprs types later := by
  match exprs with
  | [] =>
      rw [exprTys] at accepted
      cases accepted
      exact typesAll_nil valid
  | expr :: rest =>
      rw [Expr.plainList, Bool.and_eq_true] at plain
      rw [exprTys] at accepted
      obtain ⟨ty, middle, first, accepted⟩ := bind_ok accepted
      obtain ⟨others, last, second, third⟩ := bind_ok accepted
      cases third
      have typed := exprTy_types sound expr plain.1 valid small first
      exact typesAll_cons typed (exprTys_types sound rest plain.2 typed.steps.valid
        (small.mono typed.steps.extended.table.size) second)

theorem checkOperands_types {context : TypeContext} (sound : context.registry.Sound)
    (exprs : List Expr) (plain : Expr.plainList exprs = true) {state later : InferState}
    {params : List Ty} (valid : state.Valid) (small : context.Scoped state.table.size)
    (paramsSmall : ∀ ty ∈ params, ty.Scoped state.table.size)
    (lengths : exprs.length = params.length)
    (accepted : checkOperands context params exprs state = .ok ((), later)) :
    TypesAll context state exprs params later := by
  match exprs with
  | [] =>
      obtain rfl := List.length_eq_zero_iff.mp lengths.symm
      rw [checkOperands] at accepted
      cases accepted
      exact typesAll_nil valid
  | expr :: rest =>
      cases params with
      | nil => cases lengths
      | cons param params =>
          rw [Expr.plainList, Bool.and_eq_true] at plain
          rw [checkOperands] at accepted
          obtain ⟨ty, middle, first, accepted⟩ := bind_ok accepted
          obtain ⟨_, unified, second, third⟩ := bind_ok accepted
          have typed := exprTy_types sound expr plain.1 valid small first
          have paramSmall :=
            (paramsSmall param List.mem_cons_self).mono typed.steps.extended.table.size
          obtain ⟨steps, _⟩ := unify_steps typed.steps.valid paramSmall
            (typed.steps.small ty List.mem_cons_self) second
          have both := typed.steps.trans steps
          exact typesAll_expected typed paramSmall second
            (checkOperands_types sound rest plain.2 both.valid
              (small.mono both.extended.table.size)
              (fun ty member => (paramsSmall ty (List.mem_cons_of_mem _ member)).mono
                both.extended.table.size)
              (Nat.succ.inj lengths) third)

end

end Infer

end NodeGraph
