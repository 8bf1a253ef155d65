import NodeGraph.Proofs.Typing.Unification

/-!
Most general unifiers. Whatever was done to a table before, unification answers for all solutions at
once: those that remain are exactly those that make the types equal, and if it fails there are none.
-/

namespace NodeGraph.VarTable

variable {table : VarTable}

mutual

theorem settled_instantiateWith {table : VarTable} (settled : table.Settled)
    (instances : Instances) (ty : Ty) : (table.instantiateWith instances ty).2.2.Settled := by
  match ty with
  | .base kind => simpa only [instantiateWith] using settled
  | .array element =>
      rw [instantiateWith]
      exact settled_instantiateWith settled instances element
  | .function params result =>
      rw [instantiateWith]
      exact settled_instantiateWith (settled_instantiateListWith settled instances params) _ result
  | .var id => simpa only [instantiateWith] using settled
  | .generic number =>
      rw [instantiateWith]
      split
      · exact settled
      · exact settled_fresh settled

theorem settled_instantiateListWith {table : VarTable} (settled : table.Settled)
    (instances : Instances) (types : List Ty) :
    (table.instantiateListWith instances types).2.2.Settled := by
  match types with
  | [] =>
      rw [instantiateListWith]
      exact settled
  | ty :: rest =>
      rw [instantiateListWith]
      exact settled_instantiateListWith (settled_instantiateWith settled instances ty) _ rest

end

/-- What the operations make of an empty table, accepted or not, on types of its variables. -/
inductive Reachable : VarTable → Prop
  | empty : Reachable .empty
  | fresh {table : VarTable} (before : Reachable table) : Reachable table.fresh.2
  | find {table : VarTable} (before : Reachable table) (id : Nat) : Reachable (table.compress id)
  | head {table : VarTable} (before : Reachable table) (ty : Ty) : Reachable (table.compressHead ty)
  | unify {table : VarTable} (before : Reachable table) {expected found : Ty}
      (expectedSmall : expected.Scoped table.size) (foundSmall : found.Scoped table.size) :
      Reachable (table.unify expected found).1
  | instantiate {table : VarTable} (before : Reachable table) (ty : Ty) :
      Reachable (table.instantiate ty).2
  | instantiateAll {table : VarTable} (before : Reachable table) (types : List Ty) :
      Reachable (table.instantiateAll types).2

theorem Reachable.settled (reachable : table.Reachable) : table.Settled := by
  induction reachable with
  | empty => exact settled_empty
  | fresh before ih => exact settled_fresh ih
  | find before id ih => exact (compress_redirects ih id).settled
  | head before ty ih => exact (compressHead_redirects ih ty).settled
  | unify before expectedSmall foundSmall ih =>
      exact (unify_unifying ih expectedSmall foundSmall).settled
  | instantiate before ty ih => exact settled_instantiateWith ih [] ty
  | instantiateAll before types ih => exact settled_instantiateListWith ih [] types

/-- Unification computes a most general unifier. If it accepts, both types are resolved alike and
the solutions are those from before that make the types equal; if it fails, no solution from before
makes them equal. -/
theorem Reachable.unify_most_general (reachable : table.Reachable) {expected found : Ty}
    (expectedSmall : expected.Scoped table.size) (foundSmall : found.Scoped table.size) :
    (∀ later, table.unify expected found = (later, .ok ()) →
      later.resolve expected = later.resolve found ∧
        ∀ vars : Nat → Ty, later.Solves vars .generic ↔
          table.Solves vars .generic ∧ expected.fill vars .generic = found.fill vars .generic) ∧
    ∀ later error, table.unify expected found = (later, .error error) →
      ∀ vars : Nat → Ty, table.Solves vars .generic →
        expected.fill vars .generic ≠ found.fill vars .generic := by
  have unifying := unify_unifying reachable.settled expectedSmall foundSmall
  constructor
  · intro later run
    rw [run] at unifying
    have solves : ∀ vars : Nat → Ty, later.Solves vars .generic ↔
        table.Solves vars .generic ∧ expected.fill vars .generic = found.fill vars .generic := by
      intro vars
      rw [unifying.accepted rfl, equalizes_singleton]
    obtain ⟨general, solved⟩ := unifying.settled
    refine ⟨?_, solves⟩
    rw [solved.resolve (expectedSmall.mono unifying.extended.size),
      solved.resolve (foundSmall.mono unifying.extended.size)]
    exact ((solves general).mp solved.solves).2
  · intro later error run vars solves equal
    rw [run] at unifying
    exact unifying.rejected rfl vars solves (equalizes_singleton.mpr equal)

/-- Three variables; the first two were joined, and binding the second to an array of the first has
failed. -/
def joined : VarTable :=
  let unbound := empty.fresh.2.fresh.2.fresh.2
  let union := (unbound.unify (.var 0) (.var 1)).1
  (union.unify (.var 1) (.array (.var 0))).1

theorem joined_reachable : joined.Reachable := by
  have unbound : empty.fresh.2.fresh.2.fresh.2.Reachable := .fresh (.fresh (.fresh .empty))
  refine .unify (.unify unbound (Ty.scoped_var.mpr ?_) (Ty.scoped_var.mpr ?_))
    (Ty.scoped_var.mpr ?_) (Ty.scoped_array.mpr (Ty.scoped_var.mpr ?_))
  all_goals decide +kernel

/-- The class cannot be bound to the array after that either, but a function type is unified through
both of its variables. -/
theorem joined_unify_most_general :
    joined.Reachable ∧
      (∃ later, joined.unify (.function [.var 0] (.var 2)) (.function [.number] (.var 1)) =
          (later, .ok ()) ∧ later.resolve (.var 2) = .number ∧
        ∀ vars : Nat → Ty, later.Solves vars .generic ↔ joined.Solves vars .generic ∧
          Ty.function [vars 0] (vars 2) = .function [.number] (vars 1)) ∧
      ∀ vars : Nat → Ty, joined.Solves vars .generic → vars 1 ≠ .array (vars 0) := by
  have inside : ∀ id, id < 3 → (Ty.var id).Scoped joined.size := fun id small =>
    Ty.scoped_var.mpr (Nat.lt_of_lt_of_le small (by decide +kernel))
  have opened : (Ty.function [.var 0] (.var 2)).Scoped joined.size :=
    Ty.scoped_function.mpr
      ⟨List.forall_mem_singleton.mpr (inside 0 (by decide)), inside 2 (by decide)⟩
  have number : (Ty.function [.number] (.var 1)).Scoped joined.size :=
    Ty.scoped_function.mpr
      ⟨List.forall_mem_singleton.mpr (Ty.scoped_base .number), inside 1 (by decide)⟩
  have rejected : (joined.unify (.var 1) (.array (.var 0))).2.isOk = false := rfl
  refine ⟨joined_reachable, ⟨_, rfl, rfl, fun vars => ?_⟩, fun vars solves => ?_⟩
  · have applied := (Reachable.unify_most_general joined_reachable opened number).1 _ rfl
    simpa only [Ty.fill_function, Ty.fill_var, Ty.fill_base, List.map_cons, List.map_nil] using
      applied.2 vars
  · have looped := (Reachable.unify_most_general joined_reachable (inside 1 (by decide))
      (Ty.scoped_array.mpr (inside 0 (by decide)))).2
    rcases run : joined.unify (.var 1) (.array (.var 0)) with ⟨later, outcome⟩
    rw [run] at rejected
    cases outcome with
    | ok _ => cases rejected
    | error error => simpa only [Ty.fill_array, Ty.fill_var] using looped _ _ run vars solves

end NodeGraph.VarTable
