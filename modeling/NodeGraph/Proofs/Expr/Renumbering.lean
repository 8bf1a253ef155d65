import NodeGraph.Proofs.Expr.Relocation

/-!
Other serial numbers. A function takes its identity from the serial number of the evaluation that
makes it, and evaluation never compares identities: under other serial numbers it makes the same
values, up to the numbers in the identities of functions. This holds as long as primitives may tell
functions apart but make nothing of the numbers themselves.
-/

namespace NodeGraph

/-- The origin under another serial number of its evaluation, which is its last step. -/
def Origin.renumber (serials : Nat → Nat) : Origin → Origin
  | [] => []
  | [serial] => [serials serial]
  | step :: next :: rest => step :: Origin.renumber serials (next :: rest)

mutual

def Value.renumber (serials : Nat → Nat) : Value → Value
  | .array items => .array (Value.renumberList serials items)
  | .function callable => .function (callable.renumber serials)
  | .number real => .number real
  | .integer whole => .integer whole
  | .boolean truth => .boolean truth
  | .point place => .point place
  | .rect area => .rect area
  | .color shade => .color shade
  | .text string => .text string
  | .image handle => .image handle
  | .error message => .error message

def Value.renumberList (serials : Nat → Nat) : List Value → List Value
  | [] => []
  | value :: rest => value.renumber serials :: Value.renumberList serials rest

def Value.renumberBindings (serials : Nat → Nat) : List (String × Value) → List (String × Value)
  | [] => []
  | (name, value) :: rest =>
      (name, value.renumber serials) :: Value.renumberBindings serials rest

def Callable.renumber (serials : Nat → Nat) : Callable → Callable
  | .primitive name => .primitive name
  | .closure origin params body bindings =>
      .closure (origin.renumber serials) params (body.renumber serials)
        (Value.renumberBindings serials bindings)

def Expr.renumber (serials : Nat → Nat) : Expr → Expr
  | .constant value => .constant (value.renumber serials)
  | .variable name => .variable name
  | .argument index => .argument index
  | .primitive name operands => .primitive name (Expr.renumberList serials operands)
  | .apply operator operands =>
      .apply (operator.renumber serials) (Expr.renumberList serials operands)
  | .map array callable => .map (array.renumber serials) (callable.renumber serials)
  | .lambda params body => .lambda params (body.renumber serials)

def Expr.renumberList (serials : Nat → Nat) : List Expr → List Expr
  | [] => []
  | expr :: rest => expr.renumber serials :: Expr.renumberList serials rest

end

def Bindings.renumber (serials : Nat → Nat) (bindings : Bindings) : Bindings :=
  bindings.map fun binding => (binding.1, binding.2.renumber serials)

def Frame.renumber (serials : Nat → Nat) (frame : Frame) : Frame :=
  ⟨frame.bindings.renumber serials, frame.arguments.map (Value.renumber serials)⟩

/-- Other serial numbers, where different ones stay different and those before some number stay as
they are. -/
structure Renumbers (first : Nat) (serials : Nat → Nat) : Prop where
  injective : Function.Injective serials
  earlier : ∀ serial < first, serials serial = serial

def Primitive.Carries (serials : Nat → Nat) (primitive : Primitive) : Prop :=
  ∀ operands : List Value, primitive.apply (operands.map (Value.renumber serials)) =
    (primitive.apply operands).map (Value.renumber serials)

def Registry.Carries (serials : Nat → Nat) (registry : Registry) : Prop :=
  ∀ primitive ∈ registry.primitives, primitive.Carries serials

/-- Primitives may pass functions on and tell them apart, but make nothing of the serial numbers that
are in their origins, apart from those before some number. -/
def Registry.Uniform (first : Nat) (registry : Registry) : Prop :=
  ∀ serials, Renumbers first serials → registry.Carries serials

def Expr.Settled (first : Nat) (expr : Expr) : Prop :=
  ∀ serials, Renumbers first serials → expr.renumber serials = expr

/-- The serial number behind that of the evaluation an origin belongs to. -/
def Origin.horizon : Origin → Nat
  | [] => 0
  | [serial] => serial + 1
  | _ :: next :: rest => Origin.horizon (next :: rest)

mutual

def Value.horizon : Value → Nat
  | .array items => Value.listHorizon items
  | .function callable => callable.horizon
  | _ => 0

def Value.listHorizon : List Value → Nat
  | [] => 0
  | value :: rest => max value.horizon (Value.listHorizon rest)

def Value.bindingsHorizon : List (String × Value) → Nat
  | [] => 0
  | (_, value) :: rest => max value.horizon (Value.bindingsHorizon rest)

def Callable.horizon : Callable → Nat
  | .primitive _ => 0
  | .closure origin _ body bindings =>
      max origin.horizon (max body.horizon (Value.bindingsHorizon bindings))

def Expr.horizon : Expr → Nat
  | .constant value => value.horizon
  | .variable _ => 0
  | .argument _ => 0
  | .primitive _ operands => Expr.listHorizon operands
  | .apply operator operands => max operator.horizon (Expr.listHorizon operands)
  | .map array callable => max array.horizon callable.horizon
  | .lambda _ body => body.horizon

def Expr.listHorizon : List Expr → Nat
  | [] => 0
  | expr :: rest => max expr.horizon (Expr.listHorizon rest)

end

section Renumber

variable {serials : Nat → Nat}

theorem Origin.renumber_steady {origin : Origin} (started : origin ≠ []) :
    Origin.Steady (Origin.renumber serials) origin := by
  intro steps step
  cases whole : steps ++ origin with
  | nil => exact absurd (List.append_eq_nil_iff.mp whole).2 started
  | cons next rest => rfl

theorem Origin.length_renumber (origin : Origin) :
    (origin.renumber serials).length = origin.length := by
  induction origin with
  | nil => rfl
  | cons step rest ih =>
      cases rest with
      | nil => rfl
      | cons next rest => exact congrArg Nat.succ ih

theorem Origin.renumber_injective (different : Function.Injective serials) :
    Function.Injective (Origin.renumber serials) := by
  intro left
  induction left with
  | nil =>
      intro right same
      have lengths := congrArg List.length same
      rw [length_renumber, length_renumber] at lengths
      exact (List.length_eq_zero_iff.mp lengths.symm).symm
  | cons step rest ih =>
      intro right same
      have lengths := congrArg List.length same
      rw [length_renumber, length_renumber] at lengths
      cases right with
      | nil => cases lengths
      | cons other others =>
          have rests : rest.length = others.length := Nat.succ.inj lengths
          cases rest with
          | nil =>
              obtain rfl := List.length_eq_zero_iff.mp rests.symm
              rw [different (List.cons.inj same).1]
          | cons next rest =>
              cases others with
              | nil => cases rests
              | cons following others =>
                  obtain ⟨steps, deeper⟩ := List.cons.inj same
                  rw [steps, ih deeper]

variable (serials)

mutual

theorem Value.renumber_eq_relocate : (value : Value) →
    value.renumber serials = value.relocate (Origin.renumber serials)
  | .array items => by
      rw [Value.renumber, Value.relocate, Value.renumberList_eq_relocateList items]
  | .function callable => by
      rw [Value.renumber, Value.relocate, Callable.renumber_eq_relocate callable]
  | .number _ | .integer _ | .boolean _ | .point _ | .rect _ | .color _ | .text _ | .image _
  | .error _ => by rw [Value.renumber, Value.relocate]

theorem Value.renumberList_eq_relocateList : (values : List Value) →
    Value.renumberList serials values = Value.relocateList (Origin.renumber serials) values
  | [] => by rw [Value.renumberList, Value.relocateList]
  | value :: rest => by
      rw [Value.renumberList, Value.relocateList, Value.renumber_eq_relocate value,
        Value.renumberList_eq_relocateList rest]

theorem Value.renumberBindings_eq_relocateBindings : (bindings : List (String × Value)) →
    Value.renumberBindings serials bindings =
      Value.relocateBindings (Origin.renumber serials) bindings
  | [] => by rw [Value.renumberBindings, Value.relocateBindings]
  | (name, value) :: rest => by
      rw [Value.renumberBindings, Value.relocateBindings, Value.renumber_eq_relocate value,
        Value.renumberBindings_eq_relocateBindings rest]

theorem Callable.renumber_eq_relocate : (callable : Callable) →
    callable.renumber serials = callable.relocate (Origin.renumber serials)
  | .primitive _ => by rw [Callable.renumber, Callable.relocate]
  | .closure origin params body bindings => by
      rw [Callable.renumber, Callable.relocate, Expr.renumber_eq_relocate body,
        Value.renumberBindings_eq_relocateBindings bindings]

theorem Expr.renumber_eq_relocate : (expr : Expr) →
    expr.renumber serials = expr.relocate (Origin.renumber serials)
  | .constant value => by
      rw [Expr.renumber, Expr.relocate, Value.renumber_eq_relocate value]
  | .variable _ | .argument _ => by rw [Expr.renumber, Expr.relocate]
  | .primitive _ operands => by
      rw [Expr.renumber, Expr.relocate, Expr.renumberList_eq_relocateList operands]
  | .apply operator operands => by
      rw [Expr.renumber, Expr.relocate, Expr.renumber_eq_relocate operator,
        Expr.renumberList_eq_relocateList operands]
  | .map array callable => by
      rw [Expr.renumber, Expr.relocate, Expr.renumber_eq_relocate array,
        Expr.renumber_eq_relocate callable]
  | .lambda _ body => by rw [Expr.renumber, Expr.relocate, Expr.renumber_eq_relocate body]

theorem Expr.renumberList_eq_relocateList : (exprs : List Expr) →
    Expr.renumberList serials exprs = Expr.relocateList (Origin.renumber serials) exprs
  | [] => by rw [Expr.renumberList, Expr.relocateList]
  | expr :: rest => by
      rw [Expr.renumberList, Expr.relocateList, Expr.renumber_eq_relocate expr,
        Expr.renumberList_eq_relocateList rest]

end

theorem Value.renumber_eq : Value.renumber serials = Value.relocate (Origin.renumber serials) :=
  funext (Value.renumber_eq_relocate serials)

theorem Frame.renumber_eq : Frame.renumber serials = Frame.relocate (Origin.renumber serials) := by
  funext frame
  simp only [Frame.renumber, Frame.relocate, Bindings.renumber, Bindings.relocate,
    Value.renumber_eq]

@[simp] theorem Value.renumber_error (message : String) :
    (Value.error message).renumber serials = .error message := by rw [Value.renumber]

theorem Value.anonymous_renumber (value : Value) :
    (value.renumber serials).anonymous = value.anonymous := by
  rw [Value.renumber_eq, Value.anonymous_relocate]

theorem Frame.ofInputs_renumber (inputs : List (Option Value)) :
    Frame.ofInputs (inputs.map (Option.map (Value.renumber serials))) =
      (Frame.ofInputs inputs).renumber serials := by
  rw [Value.renumber_eq, Frame.renumber_eq, Frame.ofInputs_relocate]

end Renumber

section Horizon

variable {first : Nat} {place : Origin → Origin}

mutual

theorem Value.relocate_of_horizon
    (fixes : ∀ origin : Origin, origin.horizon ≤ first → place origin = origin) :
    (value : Value) → value.horizon ≤ first → value.relocate place = value
  | .array items, settled => by
      rw [Value.relocate,
        Value.relocateList_of_horizon fixes items (by rwa [Value.horizon] at settled)]
  | .function callable, settled => by
      rw [Value.relocate,
        Callable.relocate_of_horizon fixes callable (by rwa [Value.horizon] at settled)]
  | .number _, _ | .integer _, _ | .boolean _, _ | .point _, _ | .rect _, _ | .color _, _
  | .text _, _ | .image _, _ | .error _, _ => by rw [Value.relocate]

theorem Value.relocateList_of_horizon
    (fixes : ∀ origin : Origin, origin.horizon ≤ first → place origin = origin) :
    (values : List Value) → Value.listHorizon values ≤ first →
      Value.relocateList place values = values
  | [], _ => by rw [Value.relocateList]
  | value :: rest, settled => by
      rw [Value.listHorizon] at settled
      obtain ⟨here, there⟩ := Nat.max_le.mp settled
      rw [Value.relocateList, Value.relocate_of_horizon fixes value here,
        Value.relocateList_of_horizon fixes rest there]

theorem Value.relocateBindings_of_horizon
    (fixes : ∀ origin : Origin, origin.horizon ≤ first → place origin = origin) :
    (bindings : List (String × Value)) → Value.bindingsHorizon bindings ≤ first →
      Value.relocateBindings place bindings = bindings
  | [], _ => by rw [Value.relocateBindings]
  | (name, value) :: rest, settled => by
      rw [Value.bindingsHorizon] at settled
      obtain ⟨here, there⟩ := Nat.max_le.mp settled
      rw [Value.relocateBindings, Value.relocate_of_horizon fixes value here,
        Value.relocateBindings_of_horizon fixes rest there]

theorem Callable.relocate_of_horizon
    (fixes : ∀ origin : Origin, origin.horizon ≤ first → place origin = origin) :
    (callable : Callable) → callable.horizon ≤ first → callable.relocate place = callable
  | .primitive _, _ => by rw [Callable.relocate]
  | .closure origin params body bindings, settled => by
      rw [Callable.horizon] at settled
      obtain ⟨made, inside⟩ := Nat.max_le.mp settled
      obtain ⟨here, there⟩ := Nat.max_le.mp inside
      rw [Callable.relocate, fixes origin made, Expr.relocate_of_horizon fixes body here,
        Value.relocateBindings_of_horizon fixes bindings there]

theorem Expr.relocate_of_horizon
    (fixes : ∀ origin : Origin, origin.horizon ≤ first → place origin = origin) :
    (expr : Expr) → expr.horizon ≤ first → expr.relocate place = expr
  | .constant value, settled => by
      rw [Expr.relocate, Value.relocate_of_horizon fixes value (by rwa [Expr.horizon] at settled)]
  | .variable _, _ | .argument _, _ => by rw [Expr.relocate]
  | .primitive _ operands, settled => by
      rw [Expr.relocate,
        Expr.relocateList_of_horizon fixes operands (by rwa [Expr.horizon] at settled)]
  | .apply operator operands, settled => by
      rw [Expr.horizon] at settled
      obtain ⟨here, there⟩ := Nat.max_le.mp settled
      rw [Expr.relocate, Expr.relocate_of_horizon fixes operator here,
        Expr.relocateList_of_horizon fixes operands there]
  | .map array callable, settled => by
      rw [Expr.horizon] at settled
      obtain ⟨here, there⟩ := Nat.max_le.mp settled
      rw [Expr.relocate, Expr.relocate_of_horizon fixes array here,
        Expr.relocate_of_horizon fixes callable there]
  | .lambda _ body, settled => by
      rw [Expr.relocate, Expr.relocate_of_horizon fixes body (by rwa [Expr.horizon] at settled)]

theorem Expr.relocateList_of_horizon
    (fixes : ∀ origin : Origin, origin.horizon ≤ first → place origin = origin) :
    (exprs : List Expr) → Expr.listHorizon exprs ≤ first → Expr.relocateList place exprs = exprs
  | [], _ => by rw [Expr.relocateList]
  | expr :: rest, settled => by
      rw [Expr.listHorizon] at settled
      obtain ⟨here, there⟩ := Nat.max_le.mp settled
      rw [Expr.relocateList, Expr.relocate_of_horizon fixes expr here,
        Expr.relocateList_of_horizon fixes rest there]

end

theorem Origin.renumber_of_horizon {serials : Nat → Nat} (renumbers : Renumbers first serials)
    (origin : Origin) (settled : origin.horizon ≤ first) : origin.renumber serials = origin := by
  induction origin with
  | nil => rfl
  | cons step rest ih =>
      cases rest with
      | nil => exact congrArg (fun serial => [serial]) (renumbers.earlier step settled)
      | cons next rest => exact congrArg (step :: ·) (ih settled)

theorem Expr.settled_of_horizon {expr : Expr} (settled : expr.horizon ≤ first) :
    expr.Settled first := by
  intro serials renumbers
  rw [Expr.renumber_eq_relocate]
  exact expr.relocate_of_horizon (Origin.renumber_of_horizon renumbers) settled

end Horizon

section Evaluation

variable {serials : Nat → Nat} {registry : Registry}

theorem Primitive.carries_iff {primitive : Primitive} :
    primitive.Carries serials ↔ primitive.Relocates (Origin.renumber serials) := by
  rw [Primitive.Carries, Primitive.Relocates, Value.renumber_eq]

theorem Registry.carries_iff :
    registry.Carries serials ↔ registry.Relocates (Origin.renumber serials) := by
  simp only [Registry.Carries, Registry.Relocates, Primitive.carries_iff]

theorem Expr.eval_renumber (registers : registry.Carries serials) (frame : Frame)
    {origin : Origin} (started : origin ≠ []) (expr : Expr) :
    (expr.renumber serials).eval registry (frame.renumber serials) (origin.renumber serials) =
      (expr.eval registry frame origin).map (Value.renumber serials) := by
  rw [Expr.renumber_eq_relocate, Frame.renumber_eq, Value.renumber_eq]
  exact expr.eval_relocate (Registry.carries_iff.mp registers) frame
    (Origin.renumber_steady started)

end Evaluation

end NodeGraph
