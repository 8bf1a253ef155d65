import NodeGraph.Proofs.Typing.Generalization
import NodeGraph.Proofs.Typing.Renaming

/-!
New variables under other names. Tables of which one stands inside the other get new variables that
correspond, and types are opened with them alike. Names for the variables that are left do not show
which variables they are, so both tables generalize a type to the same one.
-/

namespace NodeGraph.VarTable

variable {place : Nat → Nat} {table other : VarTable} {general : Nat → Ty}

theorem Renames.fresh (renames : table.Renames place other) :
    other.fresh.1 = table.fresh.1.rename place ∧
      table.fresh.2.Renames place other.fresh.2 := by
  have first : place table.size = other.size := renames.next 0
  refine ⟨congrArg Ty.var first.symm, renames.injective, fun ahead => ?_, fun id => ?_⟩
  · rw [fresh_size, fresh_size, Nat.add_assoc, Nat.add_assoc]
    exact renames.next (1 + ahead)
  · simp only [fresh_slots, ← first, renames.injective.eq_iff]
    split
    · rfl
    · exact renames.slots id

theorem freshList_succ (table : VarTable) (count : Nat) :
    table.freshList (count + 1) =
      (table.fresh.1 :: (table.fresh.2.freshList count).1, (table.fresh.2.freshList count).2) :=
  rfl

theorem Renames.freshList (renames : table.Renames place other) (count : Nat) :
    (other.freshList count).1 = (table.freshList count).1.map (Ty.rename place) ∧
      (table.freshList count).2.Renames place (other.freshList count).2 := by
  induction count generalizing table other with
  | zero => exact ⟨rfl, renames⟩
  | succ count ih =>
      obtain ⟨unknown, later⟩ := renames.fresh
      obtain ⟨rest, last⟩ := ih later
      rw [freshList_succ, freshList_succ, List.map_cons, unknown, rest]
      exact ⟨rfl, last⟩

/-- A variable that the smaller table does not know may be added to the larger one: the names of
those still to come move on by one. -/
theorem Renames.skip (renames : table.Renames place other) (settled : table.Settled) :
    table.Renames (fun id => if id < table.size then place id else place id + 1)
      other.fresh.2 := by
  obtain ⟨general, solved⟩ := settled
  have outside : ∀ {id : Nat}, ¬ id < table.size → other.size ≤ place id := by
    intro id beyond
    obtain ⟨ahead, rfl⟩ := Nat.exists_eq_add_of_le (Nat.le_of_not_lt beyond)
    rw [renames.next]
    exact Nat.le_add_right _ _
  refine ⟨fun id there same => ?_, fun ahead => ?_, fun id => ?_⟩
  · have apart := @renames.injective id there
    split at same <;> split at same
    · exact apart same
    · have inside := renames.inside ‹id < table.size›
      have beyond := outside ‹¬ there < table.size›
      omega
    · have inside := renames.inside ‹there < table.size›
      have beyond := outside ‹¬ id < table.size›
      omega
    · exact apart (Nat.add_right_cancel same)
  · simp only [Nat.not_lt.mpr (Nat.le_add_right _ _), if_false, fresh_size, renames.next]
    omega
  · rw [fresh_slots]
    split
    · rename_i bound
      rw [if_neg (Nat.ne_of_lt (renames.inside bound)), renames.slots]
      cases found : table.slots[id]? with
      | none => rfl
      | some slot =>
          cases slot with
          | link parent => simp only [Option.map_some, VarSlot.rename, if_pos (solved.linked found)]
          | root rank binding =>
              cases binding with
              | none => rfl
              | some ty =>
                  refine congrArg (fun ty => some (VarSlot.root rank (some ty))) ?_
                  refine Ty.rename_congr fun id mentioned => (if_pos ?_).symm
                  exact (solved.bound found).1 id mentioned
    · rename_i beyond
      have after := outside beyond
      rw [if_neg (by omega), Array.getElem?_eq_none (Nat.le_of_not_lt beyond), Option.map_none,
        Array.getElem?_eq_none (Nat.le_succ_of_le after)]

def renameInstances (place : Nat → Nat) (instances : Instances) : Instances :=
  instances.map fun entry => (entry.1, entry.2.rename place)

theorem lookup_renameInstances (instances : Instances) (number : Nat) :
    (renameInstances place instances).lookup number =
      (instances.lookup number).map (Ty.rename place) := by
  induction instances with
  | nil => rfl
  | cons entry rest ih =>
      rw [renameInstances, List.map_cons, List.lookup_cons, List.lookup_cons]
      split
      · rfl
      · exact ih

/-- What two instantiations come to. -/
structure OpensAlike {Opened : Type} (place : Nat → Nat) (rename : Opened → Opened)
    (run others : Opened × Instances × VarTable) : Prop where
  opened : others.1 = rename run.1
  instances : others.2.1 = renameInstances place run.2.1
  tables : run.2.2.Renames place others.2.2

theorem instantiateWith_function (table : VarTable) (instances : Instances) (params : List Ty)
    (result : Ty) :
    table.instantiateWith instances (.function params result) =
      let opened := table.instantiateListWith instances params
      let last := opened.2.2.instantiateWith opened.2.1 result
      (.function opened.1 last.1, last.2) := by
  rw [instantiateWith]

theorem instantiateListWith_cons (table : VarTable) (instances : Instances) (ty : Ty)
    (rest : List Ty) :
    table.instantiateListWith instances (ty :: rest) =
      let first := table.instantiateWith instances ty
      let others := first.2.2.instantiateListWith first.2.1 rest
      (first.1 :: others.1, others.2) := by
  rw [instantiateListWith]

mutual

theorem Renames.instantiateWith {table other : VarTable} (renames : table.Renames place other)
    (instances : Instances) (ty : Ty) (closed : ty.vars = []) :
    OpensAlike place (Ty.rename place) (table.instantiateWith instances ty)
      (other.instantiateWith (renameInstances place instances) ty) := by
  match ty with
  | .base kind =>
      rw [VarTable.instantiateWith, VarTable.instantiateWith]
      · exact ⟨rfl, rfl, renames⟩
      all_goals nofun
  | .array element =>
      rw [Ty.vars] at closed
      obtain ⟨opened, kept, tables⟩ := renames.instantiateWith instances element closed
      rw [VarTable.instantiateWith, VarTable.instantiateWith]
      exact ⟨congrArg Ty.array opened, kept, tables⟩
  | .function params result =>
      rw [Ty.vars, List.append_eq_nil_iff] at closed
      obtain ⟨opened, kept, tables⟩ := renames.instantiateListWith instances params closed.1
      obtain ⟨last, further, finished⟩ := tables.instantiateWith _ result closed.2
      rw [instantiateWith_function, instantiateWith_function]
      simp only [kept, opened]
      exact ⟨by rw [last, Ty.rename_function], further, finished⟩
  | .var id => cases closed
  | .generic number =>
      rw [VarTable.instantiateWith, VarTable.instantiateWith, lookup_renameInstances]
      cases instances.lookup number with
      | some unknown => exact ⟨rfl, rfl, renames⟩
      | none =>
          obtain ⟨unknown, tables⟩ := renames.fresh
          refine ⟨unknown, ?_, tables⟩
          exact congrArg (fun ty => (number, ty) :: renameInstances place instances) unknown

theorem Renames.instantiateListWith {table other : VarTable} (renames : table.Renames place other)
    (instances : Instances) (types : List Ty) (closed : Ty.varsList types = []) :
    OpensAlike place (List.map (Ty.rename place)) (table.instantiateListWith instances types)
      (other.instantiateListWith (renameInstances place instances) types) := by
  match types with
  | [] =>
      rw [VarTable.instantiateListWith, VarTable.instantiateListWith]
      exact ⟨rfl, rfl, renames⟩
  | ty :: rest =>
      rw [Ty.varsList, List.append_eq_nil_iff] at closed
      obtain ⟨opened, kept, tables⟩ := renames.instantiateWith instances ty closed.1
      obtain ⟨others, further, finished⟩ := tables.instantiateListWith _ rest closed.2
      rw [instantiateListWith_cons, instantiateListWith_cons]
      simp only [kept, opened]
      exact ⟨by rw [others, List.map_cons], further, finished⟩

end

def Skips (place : Nat → Nat) (table other : VarTable) : Prop :=
  ∃ wider, (∀ id < table.size, wider id = place id) ∧ table.Renames wider other

theorem Skips.fresh (skips : Skips place table other) (settled : table.Settled) :
    Skips place table other.fresh.2 := by
  obtain ⟨wider, agree, renames⟩ := skips
  refine ⟨_, fun id bound => ?_, renames.skip settled⟩
  rw [if_pos bound, agree id bound]

mutual

theorem Skips.instantiateWith {table other : VarTable} (skips : Skips place table other)
    (settled : table.Settled) (instances : Instances) (ty : Ty) :
    Skips place table (other.instantiateWith instances ty).2.2 := by
  match ty with
  | .base kind =>
      rw [VarTable.instantiateWith]
      · exact skips
      all_goals nofun
  | .array element =>
      rw [VarTable.instantiateWith]
      exact skips.instantiateWith settled instances element
  | .function params result =>
      rw [instantiateWith_function]
      exact (skips.instantiateListWith settled instances params).instantiateWith settled _ result
  | .var id =>
      rw [VarTable.instantiateWith]
      · exact skips
      all_goals nofun
  | .generic number =>
      rw [VarTable.instantiateWith]
      split
      · exact skips
      · exact skips.fresh settled

theorem Skips.instantiateListWith {table other : VarTable} (skips : Skips place table other)
    (settled : table.Settled) (instances : Instances) (types : List Ty) :
    Skips place table (other.instantiateListWith instances types).2.2 := by
  match types with
  | [] =>
      rw [VarTable.instantiateListWith]
      exact skips
  | ty :: rest =>
      rw [instantiateListWith_cons]
      exact (skips.instantiateWith settled instances ty).instantiateListWith settled _ rest

end

theorem nameOf_map (injective : Function.Injective place) (names : List Nat) (id : Nat) :
    Ty.nameOf (names.map place) (place id) =
      ((Ty.nameOf names id).1, (Ty.nameOf names id).2.map place) := by
  have same : (names.map place).idxOf? (place id) = names.idxOf? id := by
    rw [List.idxOf?, List.idxOf?, List.findIdx?_map]
    congr 1
    funext other
    simp [injective.eq_iff]
  rw [Ty.nameOf, Ty.nameOf, same]
  cases names.idxOf? id with
  | some number => rfl
  | none => simp

mutual

theorem nameVars_rename (injective : Function.Injective place) (names : List Nat) (ty : Ty) :
    Ty.nameVars (names.map place) (ty.rename place) =
      ((Ty.nameVars names ty).1, (Ty.nameVars names ty).2.map place) := by
  match ty with
  | .base kind => rfl
  | .array element =>
      rw [Ty.rename_array, Ty.nameVars_array, Ty.nameVars_array,
        nameVars_rename injective names element]
  | .function params result =>
      rw [Ty.rename_function, Ty.nameVars_function, Ty.nameVars_function,
        nameVarsList_rename injective names params, nameVars_rename injective _ result]
  | .var id => rw [Ty.rename_var, Ty.nameVars_var, Ty.nameVars_var, nameOf_map injective]
  | .generic number => rfl

theorem nameVarsList_rename (injective : Function.Injective place) (names : List Nat)
    (types : List Ty) :
    Ty.nameVarsList (names.map place) (types.map (Ty.rename place)) =
      ((Ty.nameVarsList names types).1, (Ty.nameVarsList names types).2.map place) := by
  match types with
  | [] => rfl
  | ty :: rest =>
      rw [List.map_cons, Ty.nameVarsList_cons, Ty.nameVarsList_cons,
        nameVars_rename injective names ty, nameVarsList_rename injective _ rest]

end

theorem Renames.generalize (renames : table.Renames place other) (settled : table.Settled) {ty : Ty}
    (small : ty.Scoped table.size) : other.generalize (ty.rename place) = table.generalize ty := by
  rw [VarTable.generalize, VarTable.generalize, renames.resolve settled small]
  rw [← List.map_nil (f := place), nameVars_rename renames.injective, List.map_nil]

theorem Renames.generalizeAll (renames : table.Renames place other) (settled : table.Settled)
    {types : List Ty} (small : ∀ ty ∈ types, ty.Scoped table.size) :
    other.generalizeAll (types.map (Ty.rename place)) = table.generalizeAll types := by
  have resolved : (types.map (Ty.rename place)).map other.resolve =
      (types.map table.resolve).map (Ty.rename place) := by
    rw [List.map_map, List.map_map]
    exact List.map_congr_left fun ty member => renames.resolve settled (small ty member)
  rw [VarTable.generalizeAll, VarTable.generalizeAll, resolved]
  rw [← List.map_nil (f := place), nameVarsList_rename renames.injective, List.map_nil]

end NodeGraph.VarTable
