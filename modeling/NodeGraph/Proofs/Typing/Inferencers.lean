import NodeGraph.Proofs.Typing.Nodes
import NodeGraph.Proofs.Typing.Principal

/-!
Principal types at inferencers. An inferencer starts with what is known of the inputs, infers types
and binds parameters. What it stands for is told by resolved types: an assignment to the variables
that are left makes types for the slots, for the parameters and for what was inferred.
-/

namespace NodeGraph

/-- An inferencer after some types were inferred and some parameters bound. -/
inductive Inferring (registry : Registry) (inputs : List InputType) :
    TypeContext → InferState → Prop
  | start : Inferring registry inputs (.ofRegistry registry) (.ofInputs inputs)
  | infer {context : TypeContext} {state later : InferState} {expr : Expr} {ty : Ty}
      (before : Inferring registry inputs context state)
      (inferred : (Infer.exprTy context expr).run state = .ok (ty, later)) :
      Inferring registry inputs context later
  | bind {context : TypeContext} {state : InferState}
      (before : Inferring registry inputs context state) (name : String) {ty : Ty}
      (small : ty.Scoped state.table.size) : Inferring registry inputs (context.bind name ty) state

/-- The types that an assignment to the variables makes for slots and parameters. -/
structure InferState.Assigns (state : InferState) (context : TypeContext) (vars : Nat → Ty)
    (slots : Nat → Ty) (params : List (String × Ty)) : Prop where
  slots : ∀ (slot : Nat) (ty : Ty), state.inputs[slot]? = some ty →
    slots slot = (state.table.resolve ty).fill vars .generic
  params : params =
    context.params.map fun entry => (entry.1, (state.table.resolve entry.2).fill vars .generic)

variable {registry : Registry} {inputs : List InputType} {context : TypeContext}
  {state later : InferState} {slots : Nat → Ty} {params : List (String × Ty)}

theorem InferState.Meets.assigns {vars : Nat → Ty} (valid : state.Valid)
    (small : context.Scoped state.table.size) (meets : state.Meets slots vars) :
    state.Assigns context vars slots (context.fill vars).params := by
  obtain ⟨general, solved⟩ := valid.settled
  have resolved : ∀ ty : Ty, ty.Scoped state.table.size →
      (state.table.resolve ty).fill vars .generic = ty.fill vars .generic := by
    intro ty tySmall
    rw [solved.resolve tySmall, solved.factors meets.solves tySmall]
  refine ⟨fun slot ty found => ?_, ?_⟩
  · rw [resolved ty (valid.inputs slot ty found), meets.inputs slot ty found]
  · refine List.map_congr_left fun entry member => ?_
    rw [resolved entry.2 (small.params entry member)]

theorem InferState.Assigns.exists_meets {vars : Nat → Ty} (valid : state.Valid)
    (small : context.Scoped state.table.size) (assigns : state.Assigns context vars slots params) :
    ∃ other, state.Meets slots other ∧ params = (context.fill other).params ∧
      ∀ ty : Ty, ty.Scoped state.table.size →
        ty.fill other .generic = (state.table.resolve ty).fill vars .generic := by
  obtain ⟨general, solved⟩ := valid.settled
  have filled : ∀ ty : Ty, ty.Scoped state.table.size →
      ty.fill (fun id => (general id).fill vars .generic) .generic =
        (state.table.resolve ty).fill vars .generic := fun ty tySmall =>
    solved.resolve_fill tySmall vars .generic
  refine ⟨_, ⟨solved.solves_fill vars .generic, fun slot ty found => ?_⟩, ?_, filled⟩
  · rw [filled ty (valid.inputs slot ty found), assigns.slots slot ty found]
  · rw [assigns.params]
    refine List.map_congr_left fun entry member => ?_
    rw [filled entry.2 (small.params entry member)]

namespace InferState

theorem Meets.push {table : VarTable} {vars other : Nat → Ty} {ty : Ty} (valid : state.Valid)
    (meets : state.Meets slots vars) (agree : Ty.AgreeBelow state.table.size vars other)
    (solves : table.Solves other .generic)
    (same : ty.fill other .generic = slots state.inputs.size) :
    Meets ⟨table, state.inputs.push ty⟩ slots other := by
  refine ⟨solves, fun slot found present => ?_⟩
  rw [Array.getElem?_push] at present
  split at present
  · rename_i last
    cases present
    rw [last, same]
  · exact (meets.of_agree valid agree).inputs slot found present

/-- Slots that have instances of the known types, and any types where nothing is known. -/
def Suits (inputs : List InputType) (slots : Nat → Ty) : Prop :=
  ∀ (slot : Nat) (input : InputType) (ty : Ty), inputs[slot]? = some input →
    input.ty = some ty → ∃ generics : Nat → Ty, slots slot = ty.instanceBy generics

theorem ofInputs_realized (closed : ∀ input ∈ inputs, ∀ ty, input.ty = some ty → ty.vars = [])
    (suits : Suits inputs slots) : ∃ vars, (ofInputs inputs).Meets slots vars := by
  induction inputs using List.reverseRecOn with
  | nil =>
      obtain ⟨general, solved⟩ := VarTable.settled_empty
      exact ⟨general, solved.solves, fun slot ty found => nomatch found⟩
  | append_singleton inputs input ih =>
      have closedBefore := fun input member => closed input (List.mem_append_left _ member)
      have opened := ofInputs_opened inputs closedBefore
      obtain ⟨vars, meets⟩ := ih closedBefore fun slot input ty present => by
        refine suits slot input ty ?_
        rw [List.getElem?_append_left (List.getElem?_eq_some_iff.mp present).1, present]
      cases known : input.ty with
      | none =>
          rw [ofInputs_unknown inputs known]
          have agree := Ty.AgreeBelow.assign (ofInputs inputs).table.size vars
            (slots (ofInputs inputs).inputs.size)
          have met := meets.of_agree opened.valid agree
          exact ⟨_, meets.push opened.valid agree (VarTable.fresh_solves.mpr met.solves)
            (VarTable.fresh_fill_assign vars .generic _)⟩
      | some ty =>
          rw [ofInputs_known inputs known]
          have opens := VarTable.opens_instantiateWith (ofInputs inputs).table [] ty
            (closed input (by simp) ty known)
          obtain ⟨generics, wanted⟩ := suits inputs.length input ty (by simp) known
          obtain ⟨other, agree, _, filled⟩ := opens.realized (Infer.emptyInstances_scoped _)
            fun _ _ impossible => nomatch impossible
          have met := meets.of_agree opened.valid agree
          refine ⟨other, meets.push opened.valid agree (opens.free met.solves) ?_⟩
          rw [opened.size, wanted]
          exact (List.cons.inj filled).1

end InferState

theorem InferState.assigns_ofInputs
    (closed : ∀ input ∈ inputs, ∀ ty, input.ty = some ty → ty.vars = []) :
    (∃ vars, (InferState.ofInputs inputs).Assigns (.ofRegistry registry) vars slots params) ↔
      params = [] ∧ InferState.Suits inputs slots := by
  have opened := ofInputs_opened inputs closed
  have small := TypeContext.ofRegistry_scoped registry (ofInputs inputs).table.size
  constructor
  · rintro ⟨vars, assigns⟩
    refine ⟨assigns.params, fun slot input ty present known => ?_⟩
    obtain ⟨other, meets, _, _⟩ := assigns.exists_meets opened.valid small
    have inside : slot < (ofInputs inputs).inputs.size := by
      rw [opened.size]
      exact (List.getElem?_eq_some_iff.mp present).1
    have found := Array.getElem?_eq_getElem inside
    rw [← meets.inputs slot _ found]
    exact opened.instances slot input ty _ present known found other .generic
  · rintro ⟨rfl, suits⟩
    obtain ⟨vars, meets⟩ := ofInputs_realized closed suits
    exact ⟨vars, meets.assigns opened.valid small⟩

structure Inferring.Keeps (registry : Registry) (inputs : List InputType) (context : TypeContext)
    (state : InferState) : Prop where
  serves : state.Serves inputs.length
  small : context.Scoped state.table.size
  registry : context.registry = registry
  outer : context.scopes = []

theorem Inferring.keeps (closed : registry.Closed)
    (known : ∀ input ∈ inputs, ∀ ty, input.ty = some ty → ty.vars = [])
    (inferring : Inferring registry inputs context state) :
    Inferring.Keeps registry inputs context state := by
  induction inferring with
  | start =>
      have opened := InferState.ofInputs_opened inputs known
      refine ⟨⟨opened.valid, Nat.le_of_eq opened.size.symm, fun slot inside => Or.inl ?_⟩,
        TypeContext.ofRegistry_scoped registry _, rfl, rfl⟩
      rwa [opened.size] at inside
  | @infer context state later expr ty before inferred ih =>
      have decided := @Infer.exprTy_decides inputs.length (fun _ => .number) context
        (ih.registry ▸ closed) expr state ih.serves ih.small
      change Infer.exprTy context expr state = _ at inferred
      rw [inferred] at decided
      cases decided with
      | found told =>
          exact ⟨told.serves, ih.small.mono told.extended.table.size, ih.registry, ih.outer⟩
  | @bind context state before name ty small ih =>
      refine ⟨ih.serves, ⟨?_, ih.small.names, ih.small.arguments⟩, ih.registry, ih.outer⟩
      exact List.forall_mem_cons.mpr ⟨small, ih.small.params⟩

/-- Inference is sound, complete and principal for the typing rules. If an inferencer finds a type,
then for slots and parameters of the types it stands for, the rules give an expression exactly the
types that the same assignment makes of what was found; if it fails, they give none. At the start it
stands for instances of what is known of the inputs, each on its own; known types are generalized,
so they have no variables. -/
theorem Inferring.principal (closed : registry.Closed)
    (known : ∀ input ∈ inputs, ∀ ty, input.ty = some ty → ty.vars = [])
    (inferring : Inferring registry inputs context state) (expr : Expr) :
    (∀ ty later, (Infer.exprTy context expr).run state = .ok (ty, later) →
      ∀ slots params outcome,
        ((∃ vars, state.Assigns context vars slots params) ∧
          HasType inputs.length slots ⟨registry, params, []⟩ expr outcome) ↔
        ∃ vars, later.Assigns context vars slots params ∧
          outcome = (later.table.resolve ty).fill vars .generic) ∧
    (∀ error, (Infer.exprTy context expr).run state = .error error → ∀ slots params outcome,
      (∃ vars, state.Assigns context vars slots params) →
        ¬ HasType inputs.length slots ⟨registry, params, []⟩ expr outcome) ∧
    ∀ slots params,
      (∃ vars, (InferState.ofInputs inputs).Assigns (.ofRegistry registry) vars slots params) ↔
        params = [] ∧ InferState.Suits inputs slots := by
  have keeps := inferring.keeps closed known
  have filled : ∀ vars : Nat → Ty,
      context.fill vars = ⟨registry, (context.fill vars).params, []⟩ := by
    intro vars
    rw [TypeContext.fill, keeps.registry, keeps.outer]
    rfl
  have decided := fun slots => @Infer.exprTy_decides inputs.length slots context
    (keeps.registry ▸ closed) expr state keeps.serves keeps.small
  refine ⟨fun ty later inferred slots params outcome => ?_,
    fun error failed slots params outcome assigned typed => ?_,
    fun slots params => InferState.assigns_ofInputs known⟩
  · have decided := decided slots
    change Infer.exprTy context expr state = _ at inferred
    rw [inferred] at decided
    cases decided with
    | found told =>
        have grown := keeps.small.mono told.extended.table.size
        constructor
        -- A typing comes from a solution of the earlier table, which extends to the later one.
        · rintro ⟨⟨vars, assigns⟩, typed⟩
          obtain ⟨first, meets, rfl, _⟩ := assigns.exists_meets keeps.serves.valid keeps.small
          rw [← filled] at typed
          obtain ⟨other, agree, met, same⟩ := told.complete first meets outcome typed
          have later := met.assigns told.serves.valid grown
          obtain ⟨general, solved⟩ := told.serves.valid.settled
          rw [keeps.small.fill_eq agree] at later
          refine ⟨other, later, ?_⟩
          rw [solved.resolve told.small, solved.factors met.solves told.small]
          exact same.symm
        -- A solution of the later table solves the earlier one as it is.
        · rintro ⟨vars, assigns, rfl⟩
          obtain ⟨other, met, rfl, resolved⟩ := assigns.exists_meets told.serves.valid grown
          have meets := met.earlier told.extended
          refine ⟨⟨other, meets.assigns keeps.serves.valid keeps.small⟩, ?_⟩
          rw [← filled, ← resolved ty told.small]
          exact told.sound other met
  · have decided := decided slots
    change Infer.exprTy context expr state = _ at failed
    rw [failed] at decided
    obtain ⟨vars, assigns⟩ := assigned
    obtain ⟨other, meets, rfl, _⟩ := assigns.exists_meets keeps.serves.valid keeps.small
    rw [← filled] at typed
    cases decided with
    | refuted none => exact none other meets outcome typed

def arrayAndUnknown : List InputType := [⟨none, some (.array (.generic 0))⟩, ⟨none, none⟩]

/-- The unknown input can be applied to the array if it is a function from such arrays, whatever
they hold; the array cannot be applied. -/
theorem arrayAndUnknown_principal :
    (∀ slots outcome, (InferState.Suits arrayAndUnknown slots ∧
        HasType 2 slots ⟨.empty, [], []⟩ (.apply (.argument 1) [.argument 0]) outcome) ↔
      ∃ element, slots 0 = .array element ∧ slots 1 = .function [.array element] outcome) ∧
    ∀ slots outcome, InferState.Suits arrayAndUnknown slots →
      ¬ HasType 2 slots ⟨.empty, [], []⟩ (.apply (.argument 0) [.argument 1]) outcome := by
  have closed : Registry.empty.Closed := fun name signature found => nomatch found
  have known : ∀ input ∈ arrayAndUnknown, ∀ ty, input.ty = some ty → ty.vars = [] := by
    simp [arrayAndUnknown, Ty.vars]
  have principal := Inferring.principal closed known .start
  refine ⟨fun slots outcome => ?_, fun slots outcome suits => ?_⟩
  · obtain ⟨accepted, _, assigned⟩ := principal (.apply (.argument 1) [.argument 0])
    obtain ⟨ty, later, inferred, result, resolved⟩ : ∃ ty later,
        (Infer.exprTy (.ofRegistry .empty) (.apply (.argument 1) [.argument 0])).run
          (.ofInputs arrayAndUnknown) = .ok (ty, later) ∧
        later.table.resolve ty = .var 2 ∧ later.inputs.toList.map later.table.resolve =
          [.array (.var 0), .function [.array (.var 0)] (.var 2)] := ⟨_, _, rfl, rfl, rfl⟩
    have entry : ∀ slot : Nat, later.inputs[slot]?.map later.table.resolve =
        [Ty.array (.var 0), Ty.function [.array (.var 0)] (.var 2)][slot]? := fun slot => by
      rw [← resolved, List.getElem?_map, Array.getElem?_toList]
    have suits : (∃ vars, (InferState.ofInputs arrayAndUnknown).Assigns (.ofRegistry .empty) vars
        slots []) ↔ InferState.Suits arrayAndUnknown slots := by simpa using assigned slots []
    rw [← suits]
    refine (accepted ty later inferred slots [] outcome).trans ⟨?_, ?_⟩
    · rintro ⟨vars, assigns, rfl⟩
      obtain ⟨array, first, arrayResolved⟩ := Option.map_eq_some_iff.mp (entry 0)
      obtain ⟨applied, second, appliedResolved⟩ := Option.map_eq_some_iff.mp (entry 1)
      have arraySlot := assigns.slots 0 array first
      have appliedSlot := assigns.slots 1 applied second
      rw [arrayResolved] at arraySlot
      rw [appliedResolved] at appliedSlot
      rw [result]
      exact ⟨vars 0, arraySlot, appliedSlot⟩
    · rintro ⟨element, arraySlot, appliedSlot⟩
      refine ⟨fun id => if id = 0 then element else outcome, ⟨fun slot ty found => ?_, rfl⟩, ?_⟩
      · have same := entry slot
        rw [found] at same
        match slot, same with
        | 0, same => rw [Option.some.inj same]; exact arraySlot
        | 1, same => rw [Option.some.inj same]; exact appliedSlot
      · rw [result]
        rfl
  · obtain ⟨_, refused, assigned⟩ := principal (.apply (.argument 0) [.argument 1])
    obtain ⟨error, failed⟩ : ∃ error,
        (Infer.exprTy (.ofRegistry .empty) (.apply (.argument 0) [.argument 1])).run
          (.ofInputs arrayAndUnknown) = .error error := ⟨_, rfl⟩
    exact refused error failed slots [] outcome ((assigned slots []).mpr ⟨rfl, suits⟩)

/-- Known types that have variables are out of this. A variable is taken as it is, so it is the one
that stands for the unknown input, and that cannot be applied to itself; it could be to an input of
any type of its own. -/
theorem unknownAndVariable_refused :
    ¬ ∀ (registry : Registry) (inputs : List InputType) (expr : Expr), registry.Closed →
      ∀ error, (Infer.exprTy (.ofRegistry registry) expr).run (.ofInputs inputs) = .error error →
        ∀ slots outcome, InferState.Suits inputs slots →
          ¬ HasType inputs.length slots ⟨registry, [], []⟩ expr outcome := by
  intro refused
  let slots : Nat → Ty := fun slot => if slot = 0 then .function [.var 0] .number else .var 0
  have suits : InferState.Suits [⟨none, none⟩, ⟨none, some (.var 0)⟩] slots := by
    intro slot input ty present known
    match slot, present with
    | 0, present => cases present; cases known
    | 1, present => cases present; cases known; exact ⟨.generic, rfl⟩
  have typed : HasType 2 slots ⟨.empty, [], []⟩ (.apply (.argument 0) [.argument 1]) .number :=
    .apply (.outerArgument rfl (Or.inl (by decide)))
      (.cons (.outerArgument rfl (Or.inl (by decide))) .nil)
  exact refused .empty _ _ (fun _ _ found => nomatch found) _ rfl slots .number suits typed

end NodeGraph
