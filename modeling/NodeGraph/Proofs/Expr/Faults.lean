import NodeGraph.Proofs.Expr.Descent

/-!
Evaluation without faults. Only primitives can fault, so over primitives that never do, expressions
have values and plans have outcomes.
-/

namespace NodeGraph

section Returns

variable {ε α β : Type}

def Returns (computation : Except ε α) : Prop := ∃ value, computation = .ok value

theorem Returns.pure (value : α) : Returns (.ok value : Except ε α) := ⟨value, rfl⟩

theorem Returns.bind {first : Except ε α} {next : α → Except ε β}
    (returns : Returns first) (rest : ∀ value, Returns (next value)) :
    Returns (first >>= next) := by
  obtain ⟨value, result⟩ := returns
  rw [result]
  exact rest value

theorem returns_of_ne_error {computation : Except ε α}
    (unfailing : ∀ error, computation ≠ .error error) : Returns computation := by
  cases computation with
  | error error => exact absurd rfl (unfailing error)
  | ok value => exact .pure value

end Returns

/-- On as many operands as it takes, the primitive has a value or refuses. -/
def Primitive.NeverFaults (primitive : Primitive) : Prop :=
  ∀ operands, operands.length = primitive.signature.arity →
    ∀ fault, primitive.apply operands ≠ .error (.fault fault)

def Registry.NeverFaults (registry : Registry) : Prop :=
  ∀ primitive ∈ registry.primitives, primitive.NeverFaults

theorem mapError_refused_ne_fault (outcome : Except ValueError Value) (fault : Fault) :
    outcome.mapError Failure.refused ≠ .error (.fault fault) := by
  cases outcome with
  | error error => exact nofun
  | ok value => exact nofun

namespace Primitive

variable {signature : Signature}

theorem ofRefusing_neverFaults (body : List Value → Except ValueError Value) :
    (ofRefusing signature body).NeverFaults :=
  fun operands _ => mapError_refused_ne_fault (body operands)

theorem unary_neverFaults {body : Value → Except ValueError Value} (takes : signature.arity = 1) :
    (unary signature body).NeverFaults := by
  intro operands many
  match operands, many.trans takes with
  | [operand], _ => exact mapError_refused_ne_fault _

theorem binary_neverFaults {body : Value → Value → Except ValueError Value}
    (takes : signature.arity = 2) : (binary signature body).NeverFaults := by
  intro operands many
  match operands, many.trans takes with
  | [first, second], _ => exact mapError_refused_ne_fault _

theorem ternary_neverFaults {body : Value → Value → Value → Except ValueError Value}
    (takes : signature.arity = 3) : (ternary signature body).NeverFaults := by
  intro operands many
  match operands, many.trans takes with
  | [first, second, third], _ => exact mapError_refused_ne_fault _

theorem quaternary_neverFaults {body : Value → Value → Value → Value → Except ValueError Value}
    (takes : signature.arity = 4) : (quaternary signature body).NeverFaults := by
  intro operands many
  match operands, many.trans takes with
  | [first, second, third, fourth], _ => exact mapError_refused_ne_fault _

end Primitive

variable {registry : Registry}

theorem Registry.invoke_fault_iff {name : String} {operands : List Value} {fault : Fault} :
    registry.invoke name operands = .error fault ↔
      ∃ primitive, registry.find? name = some primitive ∧
        operands.length = primitive.signature.arity ∧ Value.firstError? operands = none ∧
        primitive.apply operands = .error (.fault fault) := by
  rw [invoke]
  cases registry.find? name with
  | none => simp
  | some primitive =>
      by_cases arity : operands.length = primitive.signature.arity
      · cases Value.firstError? operands with
        | some error => simp [arity]
        | none =>
            cases outcome : primitive.apply operands with
            | ok value => simp [arity, outcome]
            | error failure => cases failure <;> simp [arity, outcome]
      · simp [arity]

theorem Registry.NeverFaults.spares (never : registry.NeverFaults) (task : Task) (fault : Fault) :
    ¬ task.Faults registry fault := by
  intro faulty
  obtain ⟨name, operands, _, invoked⟩ := faulty.reaches
  obtain ⟨primitive, found, many, _, failed⟩ := Registry.invoke_fault_iff.mp invoked
  exact never primitive (List.mem_of_find?_eq_some found) operands many fault failed

theorem Snapshot.evaluate_returns (never : registry.NeverFaults) (snapshot : Snapshot)
    (serial : Nat) (inputs : List (Option Value)) :
    Returns (snapshot.evaluate registry serial inputs) :=
  returns_of_ne_error (never.spares (.node snapshot serial inputs))

theorem Plan.runFrom_returns (never : registry.NeverFaults) (serial : Nat)
    (values : List (Nat × Value)) (done : List Computed) (steps : List Snapshot) :
    Returns (runFrom registry serial values done steps) := by
  induction steps generalizing serial values done with
  | nil => exact .pure _
  | cons step rest ih =>
      exact (step.evaluate_returns never _ _).bind fun value => ih _ _ _

theorem Plan.run_returns (plan : Plan) (never : plan.registry.NeverFaults) (serial : Nat) :
    Returns (plan.run serial) :=
  (runFrom_returns never serial _ _ _).bind fun _ => .pure _

end NodeGraph
