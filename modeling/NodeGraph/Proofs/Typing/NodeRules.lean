import NodeGraph.Proofs.Typing.Inferencers

/-!
Principal types at nodes. The rules give a node the types of its output for which every other
parameter, in order, has some type. Inference finds the most general of them, so a node of whose
inputs less is known keeps all the types it had.
-/

namespace NodeGraph

/-! ### Instances of typings -/

namespace Ty

theorem instanceBy_instanceBy (ty : Ty) (generics more : Nat → Ty) :
    (ty.instanceBy generics).instanceBy more =
      ty.instanceBy fun number => (generics number).instanceBy more := by
  rw [instanceBy, instanceBy, fill_fill]
  simp only [fill_var]
  rfl

theorem map_instanceBy (types : List Ty) (generics more : Nat → Ty) :
    (types.map (instanceBy generics)).map (instanceBy more) =
      types.map (instanceBy fun number => (generics number).instanceBy more) := by
  rw [List.map_map]
  exact List.map_congr_left fun ty _ => ty.instanceBy_instanceBy generics more

@[simp] theorem instanceBy_array (element : Ty) (generics : Nat → Ty) :
    (Ty.array element).instanceBy generics = .array (element.instanceBy generics) :=
  fill_array element

@[simp] theorem instanceBy_function (params : List Ty) (result : Ty) (generics : Nat → Ty) :
    (Ty.function params result).instanceBy generics =
      .function (params.map (instanceBy generics)) (result.instanceBy generics) :=
  fill_function params result

end Ty

theorem Value.HasType.instanceBy {value : Value} {ty : Ty} (typed : value.HasType ty)
    (generics : Nat → Ty) : value.HasType (ty.instanceBy generics) := by
  induction typed with
  | base admitted => exact .base admitted
  | error message ty => exact .error message _
  | function callable ty => exact .function callable _
  | array _ ih =>
      rw [Ty.instanceBy_array]
      exact .array ih

def LambdaScope.instanceBy (generics : Nat → Ty) (scope : LambdaScope) : LambdaScope :=
  ⟨scope.names.map fun entry => (entry.1, entry.2.instanceBy generics),
    scope.arguments.map (Ty.instanceBy generics)⟩

def TypeContext.instanceBy (context : TypeContext) (generics : Nat → Ty) : TypeContext :=
  { context with
    params := context.params.map fun entry => (entry.1, entry.2.instanceBy generics)
    scopes := context.scopes.map (LambdaScope.instanceBy generics) }

namespace TypeContext

variable (context : TypeContext) (generics : Nat → Ty)

theorem instanceBy_scoped? (name : String) :
    (context.instanceBy generics).scoped? name =
      (context.scoped? name).map (Ty.instanceBy generics) := by
  have scopes : ∀ scopes : List LambdaScope,
      (scopes.map (LambdaScope.instanceBy generics)).findSome?
          (fun scope => scope.names.reverse.lookup name) =
        (scopes.findSome? fun scope => scope.names.reverse.lookup name).map
          (Ty.instanceBy generics) := by
    intro scopes
    induction scopes with
    | nil => rfl
    | cons scope rest ih =>
        have first : (scope.instanceBy generics).names.reverse.lookup name =
            (scope.names.reverse.lookup name).map (Ty.instanceBy generics) := by
          rw [LambdaScope.instanceBy, ← List.map_reverse, lookup_map]
        rw [List.map_cons, List.findSome?_cons, List.findSome?_cons, first, ih]
        cases scope.names.reverse.lookup name <;> rfl
  exact scopes context.scopes

theorem instanceBy_enter (params : List String) (types : List Ty) :
    (context.enter params types).instanceBy generics =
      (context.instanceBy generics).enter params (types.map (Ty.instanceBy generics)) := by
  simp only [enter, instanceBy, List.map_cons, LambdaScope.instanceBy, List.zip_map_right]
  congr 3

end TypeContext

section Instances

variable {known more : Nat} {slots : Nat → Ty}

mutual

theorem HasType.instanceBy {context : TypeContext} {expr : Expr} {ty : Ty}
    (typed : HasType known slots context expr ty)
    (readable : ∀ slot, Readable known slot → Readable more slot) (generics : Nat → Ty) :
    HasType more (fun slot => (slots slot).instanceBy generics) (context.instanceBy generics) expr
      (ty.instanceBy generics) := by
  match typed with
  | .constant typed => exact .constant (typed.instanceBy generics)
  | .bound bound =>
      refine .bound ?_
      rw [TypeContext.instanceBy_scoped?, bound, Option.map_some]
  | .input free designates inside =>
      refine .input ?_ designates (readable _ inside)
      rw [TypeContext.instanceBy_scoped?, free, Option.map_none]
  | .param free other bound =>
      refine .param ?_ other ?_
      · rw [TypeContext.instanceBy_scoped?, free, Option.map_none]
      · rw [TypeContext.instanceBy, TypeContext.lookup_map, bound, Option.map_some]
  | .outerArgument outside inside =>
      refine .outerArgument ?_ (readable _ inside)
      rw [TypeContext.instanceBy, outside, List.map_nil]
  | .argument inside passed =>
      refine .argument (by rw [TypeContext.instanceBy, inside, List.map_cons]) ?_
      rw [LambdaScope.instanceBy, List.getElem?_map, passed, Option.map_some]
  | .nullary registered empty inner =>
      have found : (context.instanceBy generics).registry.signature? _ = _ := registered
      rw [Ty.instanceBy_instanceBy]
      exact .nullary found empty _
  | .bare registered nonempty inner =>
      have found : (context.instanceBy generics).registry.signature? _ = _ := registered
      rw [Ty.instanceBy_function, Ty.map_instanceBy, Ty.instanceBy_instanceBy]
      exact .bare found nonempty _
  | .primitive registered applied typed =>
      have found : (context.instanceBy generics).registry.signature? _ = _ := registered
      rw [Ty.instanceBy_instanceBy]
      refine .primitive found applied ?_
      rw [← Ty.map_instanceBy]
      exact typed.instanceBy readable generics
  | .apply typed all =>
      have operator := typed.instanceBy readable generics
      rw [Ty.instanceBy_function] at operator
      exact .apply operator (all.instanceBy readable generics)
  | .map typed called =>
      have array := typed.instanceBy readable generics
      have callable := called.instanceBy readable generics
      rw [Ty.instanceBy_array] at array ⊢
      rw [Ty.instanceBy_function] at callable
      exact .map array callable
  | .lambda arity bounded typed =>
      have body := typed.instanceBy readable generics
      rw [TypeContext.instanceBy_enter] at body
      rw [Ty.instanceBy_function]
      exact .lambda (by rwa [List.length_map]) (by rwa [List.length_map]) body

theorem HasTypes.instanceBy {context : TypeContext} {exprs : List Expr} {types : List Ty}
    (typed : HasTypes known slots context exprs types)
    (readable : ∀ slot, Readable known slot → Readable more slot) (generics : Nat → Ty) :
    HasTypes more (fun slot => (slots slot).instanceBy generics) (context.instanceBy generics)
      exprs (types.map (Ty.instanceBy generics)) := by
  match typed with
  | .nil => exact .nil
  | .cons typed all =>
      exact .cons (typed.instanceBy readable generics) (all.instanceBy readable generics)

end

end Instances

/-! ### The rules for nodes -/

section Rules

variable (known : Nat) (slots : Nat → Ty)

/-- What a context becomes when each parameter, in order, is bound to a type that it has. -/
inductive BindTypes : TypeContext → Params → TypeContext → Prop
  | nil {context : TypeContext} : BindTypes context [] context
  | cons {context after : TypeContext} {name : String} {expr : Expr} {ty : Ty} {rest : Params}
      (typed : HasType known slots context expr ty)
      (all : BindTypes (context.bind name ty) rest after) :
      BindTypes context ((name, expr) :: rest) after

/-- The output of a node has the type where it sees all the other parameters. -/
structure NodeHasType (registry : Registry) (params : Params) (ty : Ty) : Prop where
  typed : ∃ context output,
    BindTypes known slots (.ofRegistry registry)
      (params.filter fun param => param.1 != Expr.outputName) context ∧
    params.lookup Expr.outputName = some output ∧ HasType known slots context output ty

end Rules

variable {known more : Nat} {slots : Nat → Ty} {registry : Registry} {params : Params}
  {context after : TypeContext} {inputs others : List InputType}

theorem BindTypes.instanceBy (binds : BindTypes known slots context params after)
    (readable : ∀ slot, Readable known slot → Readable more slot) (generics : Nat → Ty) :
    BindTypes more (fun slot => (slots slot).instanceBy generics) (context.instanceBy generics)
      params (after.instanceBy generics) := by
  induction binds with
  | nil => exact .nil
  | cons typed _ ih => exact .cons (typed.instanceBy readable generics) ih

theorem NodeHasType.instanceBy {ty : Ty} (typed : NodeHasType known slots registry params ty)
    (readable : ∀ slot, Readable known slot → Readable more slot) (generics : Nat → Ty) :
    NodeHasType more (fun slot => (slots slot).instanceBy generics) registry params
      (ty.instanceBy generics) := by
  obtain ⟨context, output, binds, found, typed⟩ := typed
  exact ⟨_, output, binds.instanceBy readable generics, found,
    typed.instanceBy readable generics⟩

theorem InferState.Suits.instanceBy (suits : Suits inputs slots) (generics : Nat → Ty) :
    Suits inputs fun slot => (slots slot).instanceBy generics := by
  intro slot input ty present known
  obtain ⟨inner, same⟩ := suits slot input ty present known
  exact ⟨_, (congrArg (Ty.instanceBy generics) same).trans (ty.instanceBy_instanceBy inner _)⟩

/-! ### Inference at nodes -/

section Inference

variable {node : Nat} {state later : InferState}

/-- Parameters that inference accepts are bound to types that they have, under every solution. -/
structure ParamsTold (known : Nat) (context : TypeContext) (state : InferState) (params : Params)
    (after : TypeContext) (later : InferState) : Prop where
  serves : later.Serves known
  extended : state.Extends later
  small : after.Scoped later.table.size
  registry : after.registry = context.registry
  sound : ∀ slots vars, later.Meets slots vars →
    BindTypes known slots (context.fill vars) params (after.fill vars)

theorem TypeContext.Scoped.bind {size : Nat} (small : context.Scoped size) (name : String) {ty : Ty}
    (tySmall : ty.Scoped size) : (context.bind name ty).Scoped size :=
  ⟨List.forall_mem_cons.mpr ⟨tySmall, small.params⟩, small.names, small.arguments⟩

theorem inferParams_told (closed : context.registry.Closed) (serves : state.Serves known)
    (small : context.Scoped state.table.size)
    (accepted : inferParams node inputs context state params = .ok (after, later)) :
    ParamsTold known context state params after later := by
  induction params generalizing context state with
  | nil =>
      cases accepted
      exact ⟨serves, .refl _, small, rfl, fun _ _ _ => .nil⟩
  | cons param rest ih =>
      obtain ⟨name, expr⟩ := param
      rw [inferParams] at accepted
      split at accepted
      · rename_i ty middle first
        have decided := fun slots => @Infer.exprTy_decides known slots context closed expr state
          serves small
        change Infer.exprTy context expr state = _ at first
        rw [first] at decided
        obtain ⟨told⟩ := decided fun _ => .number
        have grown := small.mono told.extended.table.size
        have rests := @ih (context.bind name ty) middle closed told.serves
          (grown.bind name told.small) accepted
        refine ⟨rests.serves, told.extended.trans rests.extended, rests.small, rests.registry,
          fun slots vars meets => ?_⟩
        obtain ⟨here⟩ := decided slots
        exact .cons (here.sound vars (meets.earlier rests.extended)) (rests.sound slots vars meets)
      · cases accepted

theorem inferParams_complete (node : Nat) (inputs : List InputType)
    (closed : context.registry.Closed) (serves : state.Serves known)
    (small : context.Scoped state.table.size)
    {vars : Nat → Ty} (meets : state.Meets slots vars) {final : TypeContext}
    (binds : BindTypes known slots (context.fill vars) params final) :
    ∃ after later other, inferParams node inputs context state params = .ok (after, later) ∧
      later.Meets slots other ∧ after.fill other = final := by
  induction params generalizing context state vars with
  | nil =>
      cases binds
      exact ⟨context, state, vars, rfl, meets, rfl⟩
  | cons param rest ih =>
      obtain ⟨name, expr⟩ := param
      rw [inferParams]
      cases binds with
      | cons typed all =>
          have decided := @Infer.exprTy_decides known slots context closed expr state serves small
          generalize outcome : Infer.exprTy context expr state = ran at decided
          cases decided with
          | refuted none => exact absurd typed (none vars meets _)
          | @found ty middle told =>
              obtain ⟨other, agree, met, same⟩ := told.complete vars meets _ typed
              have grown := small.mono told.extended.table.size
              rw [← same, ← small.fill_eq agree] at all
              rw [show (Infer.exprTy context expr).run state = _ from outcome]
              exact @ih (context.bind name ty) middle closed told.serves
                (grown.bind name told.small) other met all

structure NodeTold (registry : Registry) (params : Params) (inputs : List InputType) (found : Ty)
    (last : InferState) : Prop where
  serves : last.Serves inputs.length
  small : found.Scoped last.table.size
  suits : ∀ slots vars, last.Meets slots vars → InferState.Suits inputs slots
  sound : ∀ slots vars, last.Meets slots vars →
    NodeHasType inputs.length slots registry params (found.fill vars .generic)
  complete : ∀ slots result, InferState.Suits inputs slots →
    NodeHasType inputs.length slots registry params result →
      ∃ vars, last.Meets slots vars ∧ found.fill vars .generic = result

theorem Opened.suits (opened : InferState.Opened inputs state) (extended : state.Extends later)
    {vars : Nat → Ty} (meets : later.Meets slots vars) : InferState.Suits inputs slots := by
  intro slot input ty present known
  have inside : slot < state.inputs.size := by
    rw [opened.size]
    exact (List.getElem?_eq_some_iff.mp present).1
  have found := Array.getElem?_eq_getElem inside
  rw [← meets.inputs slot _ (extended.inputs slot _ found)]
  exact opened.instances slot input ty _ present known found vars .generic

theorem inferNode_told (closed : registry.Closed)
    (known : ∀ input ∈ inputs, ∀ ty, input.ty = some ty → ty.vars = []) {ty : Ty}
    (accepted : inferNode registry node params inputs = .ok ty) :
    ∃ found last, ty = last.generalize found ∧ NodeTold registry params inputs found last := by
  have opened := InferState.ofInputs_opened inputs known
  have keeps := Inferring.start.keeps closed known
  obtain ⟨context, state, output, found, last, bound, present, outcome, rfl⟩ :=
    inferNode_ok accepted
  have told := inferParams_told closed keeps.serves keeps.small bound
  have outputClosed : context.registry.Closed := told.registry ▸ closed
  have decided := fun slots => @Infer.exprTy_decides inputs.length slots context outputClosed output
    state told.serves told.small
  rw [outcome] at decided
  obtain ⟨typed⟩ := decided fun _ => .number
  refine ⟨found, last, rfl, typed.serves, typed.small, fun slots vars meets => ?_,
    fun slots vars meets => ?_, fun slots result suits given => ?_⟩
  · exact Opened.suits opened (told.extended.trans typed.extended) meets
  · obtain ⟨here⟩ := decided slots
    exact ⟨_, output, told.sound slots vars (meets.earlier here.extended), present,
      here.sound vars meets⟩
  · obtain ⟨vars, meets⟩ := InferState.ofInputs_realized known suits
    obtain ⟨final, other, binds, otherPresent, outputTyped⟩ := given
    cases present.symm.trans otherPresent
    obtain ⟨after, later, solution, again, met, rfl⟩ :=
      inferParams_complete node inputs closed keeps.serves keeps.small meets binds
    cases bound.symm.trans again
    obtain ⟨here⟩ := decided slots
    obtain ⟨final, _, finalMet, same⟩ := here.complete solution met result outputTyped
    exact ⟨final, finalMet, same⟩

theorem inferNode_complete (closed : registry.Closed)
    (known : ∀ input ∈ inputs, ∀ ty, input.ty = some ty → ty.vars = [])
    (suits : InferState.Suits inputs slots) {ty : Ty}
    (typed : NodeHasType inputs.length slots registry params ty) :
    ∃ general, inferNode registry node params inputs = .ok general := by
  have keeps := Inferring.start.keeps closed known
  obtain ⟨vars, meets⟩ := InferState.ofInputs_realized known suits
  obtain ⟨final, output, binds, present, outputTyped⟩ := typed
  obtain ⟨after, later, solution, bound, met, rfl⟩ :=
    inferParams_complete node inputs closed keeps.serves keeps.small meets binds
  have told := inferParams_told closed keeps.serves keeps.small bound
  have outputClosed : after.registry.Closed := told.registry ▸ closed
  have decided := @Infer.exprTy_decides inputs.length slots after outputClosed output later
    told.serves told.small
  generalize outcome : Infer.exprTy after output later = ran at decided
  cases decided with
  | refuted none => exact absurd outputTyped (none solution met _)
  | @found found last _ =>
      refine ⟨last.generalize found, ?_⟩
      rw [inferNode, bound]
      simp only [bind, Except.bind, present]
      rw [show (Infer.exprTy after output).run later = _ from outcome]
      rfl

end Inference

/-! ### Principal types -/

namespace Ty

theorem fill_of_rigid {ty : Ty} {vars other : Nat → Ty}
    (rigid : ty.fill vars (fun _ => .number) = ty.fill other .generic)
    (chosen generics : Nat → Ty) :
    ty.fill chosen generics = ty.fill chosen .generic := by
  induction ty using Ty.induction with
  | base kind => rw [fill_base, fill_base]
  | array element ih =>
      rw [fill_array, fill_array] at rigid
      rw [fill_array, fill_array, ih (Ty.array.inj rigid)]
  | function params result params_ih ih =>
      rw [fill_function, fill_function] at rigid
      obtain ⟨paramsRigid, resultRigid⟩ := Ty.function.inj rigid
      rw [fill_function, fill_function, ih resultRigid]
      congr 1
      exact List.map_congr_left fun param member =>
        params_ih param member (List.map_inj_left.mp paramsRigid param member)
  | «var» id => rw [fill_var, fill_var]
  | generic number =>
      rw [fill_generic, fill_generic] at rigid
      cases rigid

end Ty

namespace VarTable

theorem exists_instance {table : VarTable} {ty : Ty}
    (rigid : ∀ chosen generics : Nat → Ty,
      (table.resolve ty).fill chosen generics = (table.resolve ty).fill chosen .generic)
    (vars : Nat → Ty) :
    ∃ generics : Nat → Ty,
      (table.resolve ty).fill vars .generic = (table.generalize ty).instanceBy generics := by
  obtain ⟨_, filled⟩ := Ty.nameVars_spec [] (table.resolve ty)
  have general : table.generalize ty = _ := filled _ List.prefix_rfl
  refine ⟨fun number => ((Ty.nameVars [] (table.resolve ty)).2[number]?).elim .number vars, ?_⟩
  rw [general, Ty.instanceBy, Ty.fill_fill]
  simp only [Ty.fill_generic]
  refine Eq.trans ?_ (rigid _ _).symm
  refine Ty.fill_congr _ fun id mentioned => ?_
  have member := Ty.mem_nameVars [] (table.resolve ty) mentioned
  rw [List.getElem?_eq_getElem (List.idxOf_lt_length_of_mem member), List.getElem_idxOf]
  rfl

end VarTable

namespace InferState

theorem exists_slots {state : InferState} {vars : Nat → Ty}
    (solves : state.table.Solves vars .generic) : ∃ slots, state.Meets slots vars := by
  refine ⟨fun slot => (state.inputs[slot]?).elim .number (Ty.fill vars .generic), solves,
    fun slot ty found => ?_⟩
  rw [found]
  rfl

theorem Meets.resolve {state : InferState} {vars : Nat → Ty} (valid : state.Valid)
    (meets : state.Meets slots vars) {ty : Ty} (small : ty.Scoped state.table.size) :
    (state.table.resolve ty).fill vars .generic = ty.fill vars .generic := by
  obtain ⟨general, solved⟩ := valid.settled
  rw [solved.resolve small, solved.factors meets.solves small]

end InferState

namespace NodeTold

variable {found : Ty} {last : InferState}

/-- As the rules give all instances of a type at once, what inference finds has no generics. -/
theorem rigid (told : NodeTold registry params inputs found last) (chosen generics : Nat → Ty) :
    (last.table.resolve found).fill chosen generics =
      (last.table.resolve found).fill chosen .generic := by
  obtain ⟨general, solved⟩ := told.serves.valid.settled
  obtain ⟨slots, meets⟩ := InferState.exists_slots (solved.solves_fill .var .generic)
  have typed := told.sound slots _ meets
  rw [solved.resolve_fill told.small, Ty.fill_self] at typed
  obtain ⟨other, met, same⟩ := told.complete _ _ ((told.suits slots _ meets).instanceBy _)
    (typed.instanceBy (fun _ inside => inside) fun _ => .number)
  rw [← met.resolve told.serves.valid told.small] at same
  exact Ty.fill_of_rigid same.symm chosen generics

theorem instances (told : NodeTold registry params inputs found last) (ty : Ty) :
    (∃ slots, InferState.Suits inputs slots ∧
        NodeHasType inputs.length slots registry params ty) ↔
      ∃ generics : Nat → Ty, ty = (last.generalize found).instanceBy generics := by
  constructor
  · rintro ⟨slots, suits, typed⟩
    obtain ⟨vars, meets, rfl⟩ := told.complete slots ty suits typed
    rw [← meets.resolve told.serves.valid told.small]
    exact VarTable.exists_instance told.rigid vars
  · rintro ⟨generics, rfl⟩
    obtain ⟨general, solved⟩ := told.serves.valid.settled
    obtain ⟨vars, solves, same⟩ := solved.exists_solution told.small .generic
    obtain ⟨slots, meets⟩ := InferState.exists_slots solves
    have typed := told.sound slots vars meets
    rw [same, Ty.instanceBy, Ty.fill_self] at typed
    exact ⟨_, (told.suits slots vars meets).instanceBy generics,
      typed.instanceBy (fun _ inside => inside) generics⟩

end NodeTold

theorem inferNode_principal (closed : registry.Closed) {node : Nat}
    (known : ∀ input ∈ inputs, ∀ ty, input.ty = some ty → ty.vars = []) {ty : Ty} :
    (∃ slots, InferState.Suits inputs slots ∧
        NodeHasType inputs.length slots registry params ty) ↔
      ∃ general, inferNode registry node params inputs = .ok general ∧
        ∃ generics : Nat → Ty, ty = general.instanceBy generics := by
  constructor
  · intro typing
    obtain ⟨slots, suits, typed⟩ := typing
    obtain ⟨general, accepted⟩ := inferNode_complete closed known suits typed
    obtain ⟨found, last, rfl, told⟩ := inferNode_told closed known accepted
    exact ⟨_, accepted, (told.instances ty).mp ⟨slots, suits, typed⟩⟩
  · rintro ⟨general, accepted, instanced⟩
    obtain ⟨found, last, rfl, told⟩ := inferNode_told closed known accepted
    exact (told.instances ty).mpr instanced

/-! ### Inputs of which less is known -/

/-- Whatever suits the first inputs suits the others, and all that may be read there may be read
here. -/
structure Loosens (inputs others : List InputType) : Prop where
  suits : ∀ slots, InferState.Suits inputs slots → InferState.Suits others slots
  readable : ∀ slot, Readable inputs.length slot → Readable others.length slot

theorem Loosens.inferNode (loosens : Loosens inputs others) (closed : registry.Closed)
    (known : ∀ input ∈ inputs, ∀ ty, input.ty = some ty → ty.vars = [])
    (otherKnown : ∀ input ∈ others, ∀ ty, input.ty = some ty → ty.vars = []) {node : Nat}
    {ty : Ty} (accepted : inferNode registry node params inputs = .ok ty) (other : Nat) :
    ∃ general, NodeGraph.inferNode registry other params others = .ok general ∧
      ∃ generics : Nat → Ty, ty = general.instanceBy generics := by
  have itself : ty = ty.instanceBy .generic := ty.fill_self.symm
  obtain ⟨slots, suits, typed⟩ :=
    (inferNode_principal closed known).mpr ⟨ty, accepted, .generic, itself⟩
  have kept := typed.instanceBy loosens.readable .generic
  rw [← itself] at kept
  exact (inferNode_principal closed otherKnown).mp
    ⟨_, (loosens.suits slots suits).instanceBy .generic, kept⟩

end NodeGraph
