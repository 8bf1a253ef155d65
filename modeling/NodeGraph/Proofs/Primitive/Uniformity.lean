import NodeGraph.Proofs.Expr.Renumbering
import NodeGraph.Proofs.Primitive.Viewing

/-!
Builtin primitives and the identity of functions. Equality tells functions apart by where they
arose, so it depends on identity where there are functions in its operands. But it only compares,
and no builtin primitive makes anything of those places themselves.
-/

namespace NodeGraph

section Relocate

variable {place : Origin → Origin}

theorem Callable.same_relocate (different : Function.Injective place)
    (left right : Callable) :
    (left.relocate place).same (right.relocate place) = left.same right := by
  have origins : ∀ first second : Origin,
      (place first == place second) = (first == second) := by
    intro first second
    rw [Bool.eq_iff_iff, beq_iff_eq, beq_iff_eq, different.eq_iff]
  cases left with
  | primitive name => cases right <;> simp only [Callable.relocate, Callable.same]
  | closure origin params body bindings =>
      cases right <;> simp only [Callable.relocate, Callable.same, origins]

namespace Value

mutual

theorem equal_relocate (different : Function.Injective place) (left right : Value) :
    (left.relocate place).equal (right.relocate place) = left.equal right := by
  cases left with
  | array items =>
      cases right with
      | array others =>
          rw [Value.relocate, Value.relocate, equal, equal, equalList_relocate different items others]
      | _ => simp only [Value.relocate, equal]
  | function callable =>
      cases right with
      | function other =>
          rw [Value.relocate, Value.relocate, equal, equal, Callable.same_relocate different]
      | _ => simp only [Value.relocate, equal]
  | _ =>
      rw [Value.relocate]
      exact @read_view (.relocating place) _ _ (fun _ _ => by simp only [equal])
        (fun _ _ => by simp only [equal]) right

theorem equalList_relocate (different : Function.Injective place) (left right : List Value) :
    equalList (relocateList place left) (relocateList place right) = equalList left right := by
  cases left with
  | nil => cases right <;> simp only [relocateList, equalList]
  | cons left lefts =>
      cases right with
      | nil => simp only [relocateList, equalList]
      | cons right rights =>
          rw [relocateList, relocateList, equalList, equalList, equal_relocate different left right,
            equalList_relocate different lefts rights]

end

mutual

theorem numericEqual_relocate (different : Function.Injective place) (left right : Value) :
    (left.relocate place).numericEqual (right.relocate place) = left.numericEqual right := by
  cases left with
  | array items =>
      cases right with
      | array others =>
          rw [Value.relocate, Value.relocate, numericEqual, numericEqual,
            numericEqualList_relocate different items others]
      | _ => simp only [Value.relocate, numericEqual, equal]
  | function callable =>
      cases right with
      | function other =>
          simp only [numericEqual]
          exact equal_relocate different (.function callable) (.function other)
      | _ => simp only [Value.relocate, numericEqual, equal]
  | _ =>
      rw [Value.relocate]
      exact @read_view (.relocating place) _ _ (fun _ _ => by simp only [numericEqual, equal])
        (fun _ _ => by simp only [numericEqual, equal]) right

theorem numericEqualList_relocate (different : Function.Injective place)
    (left right : List Value) :
    numericEqualList (relocateList place left) (relocateList place right) =
      numericEqualList left right := by
  cases left with
  | nil => cases right <;> simp only [relocateList, numericEqualList]
  | cons left lefts =>
      cases right with
      | nil => simp only [relocateList, numericEqualList]
      | cons right rights =>
          rw [relocateList, relocateList, numericEqualList, numericEqualList,
            numericEqual_relocate different left right,
            numericEqualList_relocate different lefts rights]

end

end Value

theorem relocating_shows (called : Callable) :
    (Value.function ((View.relocating place).callable called)).display =
      (Value.function called).display := by
  cases called with
  | primitive name => rfl
  | closure origin params body bindings =>
      simp only [View.relocating, Callable.relocate, Value.display, Expr.lambdaArity_relocate]

theorem Logic.equality_relocates (different : Function.Injective place) :
    equality.Commutes (.relocating place) := by
  refine Primitive.GivesBase.commutes (Primitive.givesBase_binary rfl fun _ _ => .ok rfl) ?_
  refine Primitive.overlooks_binary fun left right => ?_
  exact congrArg (Except.ok ∘ Value.boolean) (Value.numericEqual_relocate different left right)

/-- Where different places stay different, no builtin primitive makes anything of them. -/
theorem Registry.builtin_relocates (different : Function.Injective place) :
    Registry.builtin.Relocates place := by
  intro primitive member
  by_cases compares : primitive = Logic.equality
  · rw [compares]
    exact Logic.equality_relocates different
  · exact builtin_commutes relocating_shows member compares

end Relocate

theorem Registry.builtin_uniform (first : Nat) : Registry.builtin.Uniform first :=
  fun _ renumbers =>
    carries_iff.mpr (builtin_relocates (Origin.renumber_injective renumbers.injective))

theorem anonymous_shows (called : Callable) :
    (Value.function (View.anonymous.callable called)).display =
      (Value.function called).display := by
  cases called with
  | primitive name => rfl
  | closure origin params body bindings =>
      simp only [View.anonymous, Callable.anonymous, Value.display, Expr.lambdaArity_anonymous]

theorem Registry.builtin_respectsAt {application : Application}
    (plain : application.name = "eq" → Value.plainList application.operands = true) :
    View.anonymous.RespectsAt .builtin application := by
  intro others alike
  by_cases compares : application.name = "eq"
  · rw [View.anonymous.map_eq_of_plain (plain compares) alike]
  · refine View.invoke_congr alike fun primitive found => ?_
    have named : primitive.signature.name = application.name := by simpa using List.find?_some found
    have other : primitive ≠ Logic.equality := fun same =>
      compares (named.symm.trans (congrArg (·.signature.name) same))
    exact (builtin_commutes anonymous_shows (List.mem_of_find?_eq_some found) other).congr alike

end NodeGraph
