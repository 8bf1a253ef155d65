import NodeGraph.Proofs.Typing.Generalization
import NodeGraph.Proofs.Typing.Inhabitation
import NodeGraph.Typing.Infer

/-!
Steps of inference. Each step keeps the table settled and all types within it, only adds inputs, and
leaves no more solutions than there were. What a type means is told by the solutions of the table,
so what was found earlier stays true.
-/

namespace NodeGraph

namespace InferState

/-- The table is settled and the inputs have types of its variables. -/
structure Valid (state : InferState) : Prop where
  settled : state.table.Settled
  inputs : ∀ (slot : Nat) (ty : Ty), state.inputs[slot]? = some ty → ty.Scoped state.table.size

structure Extends (state later : InferState) : Prop where
  table : state.table.Extends later.table
  inputs : ∀ (slot : Nat) (ty : Ty), state.inputs[slot]? = some ty → later.inputs[slot]? = some ty

/-- A step from one state to another that found some types. -/
structure Steps (state : InferState) (types : List Ty) (later : InferState) : Prop where
  valid : later.Valid
  extended : state.Extends later
  small : ∀ ty ∈ types, ty.Scoped later.table.size

variable {state middle later : InferState} {types others : List Ty}

theorem Extends.refl (state : InferState) : state.Extends state :=
  ⟨.refl state.table, fun _ _ found => found⟩

theorem Extends.trans (early : state.Extends middle) (late : middle.Extends later) :
    state.Extends later :=
  ⟨early.table.trans late.table,
    fun slot ty found => late.inputs slot ty (early.inputs slot ty found)⟩

theorem Steps.refl (valid : state.Valid) : state.Steps [] state :=
  ⟨valid, .refl state, fun _ member => nomatch member⟩

theorem Steps.trans (first : state.Steps types middle) (second : middle.Steps others later) :
    state.Steps (types ++ others) later where
  valid := second.valid
  extended := first.extended.trans second.extended
  small := by
    intro ty member
    rcases List.mem_append.mp member with early | late
    · exact (first.small ty early).mono second.extended.table.size
    · exact second.small ty late

theorem Steps.of_subset (steps : state.Steps types later) (fewer : others ⊆ types) :
    state.Steps others later :=
  ⟨steps.valid, steps.extended, fun ty member => steps.small ty (fewer member)⟩

theorem Valid.of_table {table : VarTable} (valid : state.Valid) (settled : table.Settled)
    (extended : state.table.Extends table) :
    state.Steps [] { state with table } where
  valid := ⟨settled, fun slot ty found => (valid.inputs slot ty found).mono extended.size⟩
  extended := ⟨extended, fun _ _ found => found⟩
  small := fun _ member => nomatch member

end InferState

namespace TypeContext

def nameTy? (context : TypeContext) (inputs : Array Ty) (name : String) : Option Ty :=
  match context.scoped? name with
  | some ty => some ty
  | none =>
      match Expr.inputSlot? name with
      | some slot => inputs[slot]?
      | none => context.params.lookup name

def argumentTy? (context : TypeContext) (inputs : Array Ty) (index : Nat) : Option Ty :=
  match context.scopes with
  | [] => inputs[index]?
  | scope :: _ => scope.arguments[index]?

structure Scoped (context : TypeContext) (size : Nat) : Prop where
  params : ∀ entry ∈ context.params, entry.2.Scoped size
  names : ∀ scope ∈ context.scopes, ∀ entry ∈ scope.names, entry.2.Scoped size
  arguments : ∀ scope ∈ context.scopes, ∀ ty ∈ scope.arguments, ty.Scoped size

theorem Scoped.mono {context : TypeContext} {size larger : Nat} (small : context.Scoped size)
    (grows : size ≤ larger) : context.Scoped larger where
  params := fun entry member => (small.params entry member).mono grows
  names := fun scope inside entry member => (small.names scope inside entry member).mono grows
  arguments := fun scope inside ty member => (small.arguments scope inside ty member).mono grows

theorem Scoped.scoped? {context : TypeContext} {size : Nat} (small : context.Scoped size)
    {name : String} {ty : Ty} (found : context.scoped? name = some ty) : ty.Scoped size := by
  obtain ⟨scope, inside, named⟩ := List.exists_of_findSome?_eq_some found
  obtain ⟨before, after, parts, _⟩ := List.lookup_eq_some_iff.mp named
  refine small.names scope inside (name, ty) (List.mem_reverse.mp ?_)
  rw [parts]
  simp

theorem Scoped.enter {context : TypeContext} {size : Nat} (small : context.Scoped size)
    (params : List String) {types : List Ty} (typesSmall : ∀ ty ∈ types, ty.Scoped size) :
    Scoped { context with scopes := ⟨params.zip types, types⟩ :: context.scopes } size where
  params := small.params
  names := by
    intro scope inside entry member
    rcases List.mem_cons.mp inside with same | outer
    · rw [same] at member
      exact typesSmall entry.2 (List.of_mem_zip member).2
    · exact small.names scope outer entry member
  arguments := by
    intro scope inside ty member
    rcases List.mem_cons.mp inside with same | outer
    · rw [same] at member
      exact typesSmall ty member
    · exact small.arguments scope outer ty member

end TypeContext

/-- A frame has inhabitants of the types that a context gives, under a solution. -/
structure Frame.Fits (registry : Registry) (context : TypeContext) (inputs : Array Ty)
    (vars generics : Nat → Ty) (frame : Frame) : Prop where
  named : ∀ name ty, context.nameTy? inputs name = some ty →
    (ty.fill vars generics).Admits registry (frame.valueOf name)
  argued : ∀ index ty, context.argumentTy? inputs index = some ty →
    (ty.fill vars generics).Admits registry (frame.argumentAt index)

theorem Frame.Fits.earlier {registry : Registry} {context : TypeContext}
    {state later : InferState} {vars generics : Nat → Ty} {frame : Frame}
    (fits : frame.Fits registry context later.inputs vars generics)
    (extended : state.Extends later) : frame.Fits registry context state.inputs vars generics where
  named := by
    intro name ty found
    refine fits.named name ty ?_
    rw [TypeContext.nameTy?] at found ⊢
    split at found
    · exact found
    · split at found
      · exact extended.inputs _ ty found
      · exact found
  argued := by
    intro index ty found
    refine fits.argued index ty ?_
    rw [TypeContext.argumentTy?] at found ⊢
    split at found
    · exact extended.inputs _ ty found
    · exact found

namespace VarTable

variable {table : VarTable}

theorem freshList_spec (count : Nat) (settled : table.Settled) :
    (table.freshList count).2.Settled ∧ table.Extends (table.freshList count).2 ∧
      (table.freshList count).1.length = count ∧
      ∀ ty ∈ (table.freshList count).1, ty.Scoped (table.freshList count).2.size := by
  induction count generalizing table with
  | zero => exact ⟨settled, .refl table, rfl, fun _ member => nomatch member⟩
  | succ count ih =>
      obtain ⟨general, solved⟩ := settled
      obtain ⟨settledRest, extended, lengths, small⟩ := ih ⟨general, solved.fresh⟩
      rw [freshList]
      refine ⟨settledRest, (fresh_extends table).trans extended, ?_, ?_⟩
      · rw [List.length_cons, lengths]
      · intro ty member
        rcases List.mem_cons.mp member with same | later
        · rw [same]
          exact (fresh_scoped table).mono extended.size
        · exact small ty later

end VarTable

namespace Infer

variable {state later : InferState} {ty : Ty}

theorem bind_ok {Result Final : Type} {first : InferM Result} {next : Result → InferM Final}
    {final : Final} (accepted : (first >>= next) state = .ok (final, later)) :
    ∃ result middle, first state = .ok (result, middle) ∧ next result middle = .ok (final, later)
    := by
  change (first state).bind (fun pair => next pair.1 pair.2) = .ok (final, later) at accepted
  cases outcome : first state with
  | error error =>
      rw [outcome] at accepted
      cases accepted
  | ok pair =>
      rw [outcome] at accepted
      exact ⟨pair.1, pair.2, rfl, accepted⟩

theorem freshTy_steps (valid : state.Valid) (accepted : freshTy state = .ok (ty, later)) :
    state.Steps [ty] later := by
  cases accepted
  obtain ⟨general, solved⟩ := valid.settled
  have steps := valid.of_table ⟨general, solved.fresh⟩ (VarTable.fresh_extends state.table)
  refine ⟨steps.valid, steps.extended, fun ty member => ?_⟩
  rw [List.mem_singleton.mp member]
  exact VarTable.fresh_scoped state.table

theorem freshTys_steps (valid : state.Valid) {count : Nat} {types : List Ty}
    (accepted : freshTys count state = .ok (types, later)) :
    state.Steps types later ∧ types.length = count := by
  cases accepted
  obtain ⟨settled, extended, lengths, small⟩ := VarTable.freshList_spec count valid.settled
  have steps := valid.of_table settled extended
  exact ⟨⟨steps.valid, steps.extended, small⟩, lengths⟩

theorem map_concat_eq {params others : List Ty} {result other : Ty} {change instanced : Ty → Ty}
    (lengths : params.length = others.length) :
    (params ++ [result]).map change = (others ++ [other]).map instanced ↔
      params.map change = others.map instanced ∧ change result = instanced other := by
  rw [List.map_append, List.map_append,
    List.append_eq_append_iff_of_size_eq_left (by simp [lengths])]
  simp

theorem instantiate_opens (state : InferState) {scheme : Scheme}
    (closed : scheme.toTy.vars = []) :
    ∃ params result after table,
      instantiate scheme state = .ok ((params, result), { state with table }) ∧
        params.length = scheme.params.length ∧
        VarTable.Opens state.table [] (scheme.params ++ [scheme.result]) (params ++ [result]) after
          table := by
  rw [Scheme.toTy, Ty.vars, List.append_eq_nil_iff] at closed
  have paramsOpen := VarTable.opens_instantiateListWith state.table [] scheme.params closed.1
  have resultOpens := VarTable.opens_instantiateWith
    (state.table.instantiateListWith [] scheme.params).2.2
    (state.table.instantiateListWith [] scheme.params).2.1 scheme.result closed.2
  refine ⟨_, _, _, _, rfl, ?_, paramsOpen.append resultOpens⟩
  simpa using congrArg List.length (paramsOpen.filled (fun _ _ found => found) .var .generic)

theorem emptyInstances_scoped (size : Nat) : Instances.Scoped [] size :=
  fun _ _ impossible => nomatch impossible

theorem instantiate_steps (valid : state.Valid) {scheme : Scheme} (closed : scheme.toTy.vars = [])
    {params : List Ty} {result : Ty}
    (accepted : instantiate scheme state = .ok ((params, result), later)) :
    state.Steps (params ++ [result]) later ∧ ∀ vars generics : Nat → Ty, ∃ instances : Nat → Ty,
      params.map (Ty.fill vars generics) = scheme.params.map (Ty.instanceBy instances) ∧
        result.fill vars generics = scheme.result.instanceBy instances := by
  obtain ⟨_, _, after, table, outcome, lengths, opens⟩ := instantiate_opens state closed
  rw [outcome] at accepted
  cases accepted
  have steps := valid.of_table (opens.settled valid.settled) opens.extended
  refine ⟨⟨steps.valid, steps.extended, (opens.small (emptyInstances_scoped _)).2⟩, ?_⟩
  intro vars generics
  exact ⟨_, (map_concat_eq lengths).mp (opens.filled (fun _ _ found => found) vars generics)⟩

theorem instantiate_length (valid : state.Valid) {scheme : Scheme}
    (closed : scheme.toTy.vars = []) {params : List Ty} {result : Ty}
    (accepted : instantiate scheme state = .ok ((params, result), later)) :
    params.length = scheme.params.length := by
  obtain ⟨instances, filled, _⟩ := (instantiate_steps valid closed accepted).2 .var .generic
  simpa using congrArg List.length filled

theorem head_steps (valid : state.Valid) (small : ty.Scoped state.table.size) {outcome : Ty}
    (accepted : head ty state = .ok (outcome, later)) :
    state.Steps [outcome] later ∧
      ∀ {vars generics : Nat → Ty}, later.table.Solves vars generics →
        outcome.fill vars generics = ty.fill vars generics := by
  cases accepted
  have redirects := VarTable.compressHead_redirects valid.settled ty
  have steps := valid.of_table redirects.settled redirects.extends
  obtain ⟨general, solved⟩ := valid.settled
  refine ⟨⟨steps.valid, steps.extended, fun outcome member => ?_⟩,
    fun solves => (redirects.solves.mp solves).head ty⟩
  rw [List.mem_singleton.mp member]
  exact (solved.head small).1.mono redirects.extends.size

theorem unify_steps (valid : state.Valid) {expected found : Ty}
    (expectedSmall : expected.Scoped state.table.size) (foundSmall : found.Scoped state.table.size)
    {culprit : Unit → Culprit} (accepted : unify expected found culprit state = .ok ((), later)) :
    state.Steps [] later ∧ ∀ {vars generics : Nat → Ty}, later.table.Solves vars generics →
      expected.fill vars generics = found.fill vars generics := by
  have unifying := VarTable.unify_unifying valid.settled expectedSmall foundSmall
  rw [unify] at accepted
  split at accepted
  · rename_i table unified
    cases accepted
    rw [unified] at unifying
    refine ⟨valid.of_table unifying.settled unifying.extended, fun {vars generics} solves => ?_⟩
    exact VarTable.equalizes_singleton.mp ((unifying.accepted rfl vars generics).mp solves).2
  · cases accepted

theorem addInputs_steps (valid : state.Valid) (count : Nat) :
    state.Steps [] (state.addInputs count) := by
  obtain ⟨settled, extended, _, small⟩ := VarTable.freshList_spec count valid.settled
  refine ⟨⟨settled, fun slot ty found => ?_⟩, ⟨extended, fun slot ty found => ?_⟩,
    fun _ member => nomatch member⟩
  · rcases Array.mem_append.mp (Array.mem_of_getElem? found) with old | new
    · obtain ⟨place, given⟩ := Array.mem_iff_getElem?.mp old
      exact (valid.inputs place ty given).mono extended.size
    · exact small ty (by simpa using new)
  · obtain ⟨inside, _⟩ := Array.getElem?_eq_some_iff.mp found
    change (state.inputs ++ _)[slot]? = some ty
    rw [Array.getElem?_append_left inside, found]

theorem input_steps (valid : state.Valid) {slot : Nat}
    (accepted : input slot state = .ok (ty, later)) :
    state.Steps [ty] later ∧ later.inputs[slot]? = some ty := by
  rw [input] at accepted
  split at accepted
  · rename_i present
    cases accepted
    refine ⟨⟨valid, .refl _, fun ty member => ?_⟩, present⟩
    rw [List.mem_singleton.mp member]
    exact valid.inputs slot _ present
  · split at accepted
    · cases accepted
    · simp only at accepted
      split at accepted
      · rename_i present
        cases accepted
        have steps := addInputs_steps valid (slot + 1 - state.inputs.size)
        refine ⟨⟨steps.valid, steps.extended, fun ty member => ?_⟩, present⟩
        rw [List.mem_singleton.mp member]
        exact steps.valid.inputs slot _ present
      · cases accepted

end Infer

end NodeGraph
