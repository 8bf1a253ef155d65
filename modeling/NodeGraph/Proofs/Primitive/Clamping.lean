import Mathlib
import NodeGraph.Proofs.Expr.Descent
import NodeGraph.Proofs.Primitive.Signatures
import NodeGraph.Proofs.Value.Floats

/-!
The one fault of the builtin primitives. Bounds of which one is not a number are in no order, so
clamping does not refuse them as it refuses bounds in the wrong one; nothing else that is evaluated
ends without a value.
-/

namespace NodeGraph

theorem Value.clean_of_asNumber {value : Value} {real : Float} (number : value.asNumber = .ok real) :
    value.isError = false := by
  cases value with
  | error message => cases number
  | _ => rfl

namespace Math

/-- Operands of clamping that are numbers, with a bound that is not a number among the floats. -/
def Unordered (operands : List Value) (low high : Float) : Prop :=
  ∃ operand lowest highest real, operands = [operand, lowest, highest] ∧
    operand.asNumber = .ok real ∧ lowest.asNumber = .ok low ∧ highest.asNumber = .ok high ∧
    (low.isNaN = true ∨ high.isNaN = true)

theorem clamp_fault_iff {operand lowest highest : Value} {low high : Float} :
    clamp operand lowest highest = .error (.fault (.unorderedBounds low high)) ↔
      ∃ real, operand.asNumber = .ok real ∧ lowest.asNumber = .ok low ∧
        highest.asNumber = .ok high ∧ (low.isNaN = true ∨ high.isNaN = true) := by
  rw [clamp, refused_fault_iff]
  refine exists_congr fun real => and_congr_right fun _ => ?_
  rw [refused_fault_iff]
  constructor
  · rintro ⟨bottom, known, faulty⟩
    obtain ⟨top, alsoKnown, faulty⟩ := refused_fault_iff.mp faulty
    split at faulty
    · cases faulty
    · rename_i notGreater
      split at faulty
      · cases faulty
      · rename_i notAtMost
        cases faulty
        exact ⟨known, alsoKnown, (Binary64.unordered_iff _ _).mp ⟨notGreater, notAtMost⟩⟩
  · rintro ⟨known, alsoKnown, unordered⟩
    obtain ⟨notGreater, notAtMost⟩ := (Binary64.unordered_iff low high).mpr unordered
    refine ⟨low, known, refused_fault_iff.mpr ⟨high, alsoKnown, ?_⟩⟩
    rw [if_neg notGreater, if_neg notAtMost]

theorem clamping_fault_iff {operands : List Value}
    (many : operands.length = clamping.signature.arity) {fault : Fault} :
    clamping.apply operands = .error (.fault fault) ↔
      ∃ low high, fault = .unorderedBounds low high ∧ Unordered operands low high := by
  constructor
  · intro faulty
    obtain ⟨low, high, rfl⟩ := clamping_fault many faulty
    match operands, many with
    | [operand, lowest, highest], _ =>
        obtain ⟨real, bounds⟩ := clamp_fault_iff.mp faulty
        exact ⟨low, high, rfl, operand, lowest, highest, real, rfl, bounds⟩
  · rintro ⟨low, high, rfl, operand, lowest, highest, real, rfl, bounds⟩
    exact clamp_fault_iff.mpr ⟨real, bounds⟩

theorem Unordered.length {operands : List Value} {low high : Float}
    (unordered : Unordered operands low high) : operands.length = 3 := by
  obtain ⟨_, _, _, _, rfl, _⟩ := unordered
  rfl

theorem Unordered.clean {operands : List Value} {low high : Float}
    (unordered : Unordered operands low high) : Value.firstError? operands = none := by
  obtain ⟨operand, lowest, highest, _, rfl, number, lower, upper, _⟩ := unordered
  rw [Value.firstError?_eq_none]
  simp [Value.clean_of_asNumber number, Value.clean_of_asNumber lower,
    Value.clean_of_asNumber upper]

end Math

namespace Registry

theorem builtin_clamping : builtin.find? "clamp" = some Math.clamping := by
  rfl

theorem builtin_fault_iff {name : String} {operands : List Value} {fault : Fault} :
    builtin.invoke name operands = .error fault ↔ name = "clamp" ∧
      ∃ low high, fault = .unorderedBounds low high ∧ Math.Unordered operands low high := by
  rw [invoke_fault_iff]
  constructor
  · rintro ⟨primitive, found, many, _, faulty⟩
    have named : primitive.signature.name = name := by simpa using List.find?_some found
    by_cases clamps : primitive = Math.clamping
    · subst clamps
      exact ⟨named.symm, (Math.clamping_fault_iff many).mp faulty⟩
    · exact absurd faulty (builtin_neverFaults (List.mem_of_find?_eq_some found) clamps _ many _)
  · rintro ⟨rfl, low, high, same, unordered⟩
    exact ⟨_, builtin_clamping, unordered.length, unordered.clean,
      (Math.clamping_fault_iff unordered.length).mpr ⟨low, high, same, unordered⟩⟩

end Registry

/-- Evaluation comes to the clamping of a number between bounds of which one is not a number. -/
def Task.Unordered (task : Task) (low high : Float) : Prop :=
  ∃ operands, Reaches .builtin task (.invocation "clamp" operands) ∧
    Math.Unordered operands low high

theorem returns_iff {result : Type} {outcome : Except Fault result} {Faulty : Float → Float → Prop}
    (faults : ∀ fault, outcome = .error fault ↔
      ∃ low high, fault = .unorderedBounds low high ∧ Faulty low high) :
    ((∃ value, outcome = .ok value) ↔ ¬ ∃ low high, Faulty low high) ∧
      ∀ low high, outcome = .error (.unorderedBounds low high) ↔ Faulty low high := by
  constructor
  · constructor
    · rintro ⟨value, returned⟩ ⟨low, high, faulty⟩
      have broken := (faults _).mpr ⟨low, high, rfl, faulty⟩
      rw [returned] at broken
      cases broken
    · intro never
      refine returns_of_ne_error fun fault broken => ?_
      obtain ⟨low, high, _, faulty⟩ := (faults fault).mp broken
      exact never ⟨low, high, faulty⟩
  · intro low high
    rw [faults]
    constructor
    · rintro ⟨_, _, same, faulty⟩
      cases same
      exact faulty
    · exact fun faulty => ⟨low, high, rfl, faulty⟩

theorem Task.builtin_faults_iff (task : Task) (fault : Fault) :
    task.Faults .builtin fault ↔
      ∃ low high, fault = .unorderedBounds low high ∧ task.Unordered low high := by
  rw [faults_iff_reaches]
  simp only [Registry.builtin_fault_iff]
  constructor
  · rintro ⟨name, operands, reaches, rfl, low, high, same, unordered⟩
    exact ⟨low, high, same, operands, reaches, unordered⟩
  · rintro ⟨low, high, same, operands, reaches, unordered⟩
    exact ⟨"clamp", operands, reaches, rfl, low, high, same, unordered⟩

/-- Evaluation with the builtin registry breaks off where it comes to a clamping between unordered
bounds, and has a value everywhere else: for expressions in any frame, and for nodes of any
inputs. -/
theorem Registry.builtin_evaluates (expr : Expr) (frame : Frame) (origin : Origin)
    (snapshot : Snapshot) (serial : Nat) (inputs : List (Option Value)) :
    (((∃ value, expr.eval builtin frame origin = .ok value) ↔
        ¬ ∃ low high, (Task.expr Expr.maxCallDepth frame origin expr).Unordered low high) ∧
      ∀ low high, expr.eval builtin frame origin = .error (.unorderedBounds low high) ↔
        (Task.expr Expr.maxCallDepth frame origin expr).Unordered low high) ∧
    ((∃ value, snapshot.evaluate builtin serial inputs = .ok value) ↔
        ¬ ∃ low high, (Task.node snapshot serial inputs).Unordered low high) ∧
      ∀ low high, snapshot.evaluate builtin serial inputs = .error (.unorderedBounds low high) ↔
        (Task.node snapshot serial inputs).Unordered low high := by
  have onExpr := Task.builtin_faults_iff (.expr Expr.maxCallDepth frame origin expr)
  have onNode := Task.builtin_faults_iff (.node snapshot serial inputs)
  exact ⟨returns_iff onExpr, returns_iff onNode⟩

/-- A number between one that is not a number and two is not clamped, and there is no value. -/
theorem Registry.builtin_breaks_off :
    ¬ ∀ (expr : Expr) (frame : Frame) (origin : Origin),
      ∃ value, expr.eval builtin frame origin = .ok value := by
  intro evaluates
  let expr := Expr.primitive "clamp"
    [.constant (.number 1), .constant (.number .nan), .constant (.number 2)]
  have arity : builtin.arity? "clamp" = some 3 := by
    rw [arity?, signature?, builtin_clamping]
    rfl
  have step : Task.Step builtin (.expr Expr.maxCallDepth .empty [] expr)
      (.invocation "clamp" [.number 1, .number .nan, .number 2]) := .primitive arity rfl
  have unordered : Math.Unordered [.number 1, .number .nan, .number 2] .nan 2 :=
    ⟨_, _, _, _, rfl, rfl, rfl, rfl, .inl (by decide +kernel)⟩
  have faulty : expr.eval builtin .empty [] = .error (.unorderedBounds .nan 2) :=
    (Task.builtin_faults_iff _ _).mpr ⟨_, _, rfl, _, .single step, unordered⟩
  obtain ⟨value, evaluated⟩ := evaluates expr .empty []
  rw [faulty] at evaluated
  cases evaluated

end NodeGraph
