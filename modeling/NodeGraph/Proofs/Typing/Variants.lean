import NodeGraph.Proofs.Typing.Canonical
import NodeGraph.Proofs.Typing.Inferencers
import NodeGraph.Proofs.Typing.Slots

/-!
Variants. Types that are instances of each other differ in the names of their variables alone, and
generalize to the same. So what inference tells of an expression, with the types of all inputs, is
determined by the types that the rules give it and the inputs that it reads: the order in which
equations are made and solved does not matter.
-/

namespace NodeGraph

namespace Ty

variable {types others : List Ty} {vars more : Nat → Ty}

theorem fill_var_of_fill {ty : Ty} {id : Nat} (mentioned : id ∈ ty.vars)
    (same : (ty.fill vars .generic).fill more .generic = ty) :
    ∃ other, vars id = .var other ∧ more other = .var id := by
  have back : (vars id).fill more .generic = .var id := by
    rw [fill_fill] at same
    exact fill_eq_self same id mentioned
  cases there : vars id with
  | «var» other =>
      rw [there] at back
      exact ⟨other, rfl, back⟩
  | _ =>
      rw [there] at back
      cases back

theorem nameVarsList_of_instances (there : types.map (Ty.fill vars .generic) = others)
    (back : others.map (Ty.fill more .generic) = types) {bound : Nat}
    (small : ∀ ty ∈ others, ty.Scoped bound) :
    (nameVarsList [] types).1 = (nameVarsList [] others).1 := by
  subst there
  have each : ∀ id, (∃ ty ∈ types, id ∈ ty.vars) →
      ∃ other, vars id = .var other ∧ more other = .var id := by
    rintro id ⟨ty, member, mentioned⟩
    rw [List.map_map] at back
    exact fill_var_of_fill mentioned
      (List.map_inj_left.mp (back.trans (List.map_id types).symm) ty member)
  choose! place forth home using each
  have apart : Set.InjOn place {id | ∃ ty ∈ types, id ∈ ty.vars} := by
    intro id member other otherMember same
    have around := home id member
    rw [same, home other otherMember] at around
    exact (Ty.var.inj around).symm
  have below : ∀ id ∈ {id | ∃ ty ∈ types, id ∈ ty.vars}, place id < bound := by
    rintro id ⟨ty, member, mentioned⟩
    refine small _ (List.mem_map_of_mem member) _ ((mem_vars_fill ty).mpr ⟨id, mentioned, ?_⟩)
    rw [forth id ⟨ty, member, mentioned⟩]
    exact mem_vars_var.mpr rfl
  obtain ⟨wide, injective, agree⟩ := VarTable.exists_injective apart below
  have renamed : types.map (Ty.fill vars .generic) = types.map (Ty.rename wide) :=
    List.map_congr_left fun ty member => fill_congr ty fun id mentioned => by
      rw [forth id ⟨ty, member, mentioned⟩, agree id ⟨ty, member, mentioned⟩]
  rw [renamed, ← List.map_nil (f := wide), VarTable.nameVarsList_rename injective, List.map_nil]

end Ty

/-- The type of what was inferred and those of all inputs, generalized with one numbering. -/
def InferState.answer (state : InferState) (ty : Ty) : List Ty :=
  state.table.generalizeAll (ty :: state.inputs.toList)

namespace Infer

section Variants

variable {known : Nat} {context : TypeContext} {state later : InferState} {left right : Expr}
  {ty : Ty}

theorem exprTy_told (closed : context.registry.Closed) (serves : state.Serves known)
    (small : context.Scoped state.table.size) {expr : Expr}
    (inferred : exprTy context expr state = .ok (ty, later)) (slots : Nat → Ty) :
    Told known slots state (fun vars ty => HasType known slots (context.fill vars) expr ty) ty
      later := by
  have decided := @exprTy_decides known slots context closed expr state serves small
  rw [inferred] at decided
  cases decided with
  | found told => exact told

theorem exprTy_none (closed : context.registry.Closed) (serves : state.Serves known)
    (small : context.Scoped state.table.size) {expr : Expr} {error : TypeError}
    (failed : exprTy context expr state = .error error) {slots vars : Nat → Ty}
    (meets : state.Meets slots vars) : ¬ HasType known slots (context.fill vars) expr ty := by
  have decided := @exprTy_decides known slots context closed expr state serves small
  rw [failed] at decided
  cases decided with
  | refuted none => exact none vars meets ty

theorem exprTy_instance (closed : context.registry.Closed) (serves : state.Serves known)
    (small : context.Scoped state.table.size)
    (same : ∀ slots vars ty, HasType known slots (context.fill vars) left ty →
      HasType known slots (context.fill vars) right ty)
    (reads : left.freeNamesUnder (context.scopes.map LambdaScope.bound) =
      right.freeNamesUnder (context.scopes.map LambdaScope.bound))
    (inferred : exprTy context left state = .ok (ty, later)) :
    ∃ other after vars, exprTy context right state = .ok (other, after) ∧
      ((other :: after.inputs.toList).map after.table.resolve).map (Ty.fill vars .generic) =
        (ty :: later.inputs.toList).map later.table.resolve := by
  obtain ⟨general, solved⟩ :=
    (exprTy_told closed serves small inferred fun _ => .number).serves.valid.settled
  let slots : Nat → Ty := fun slot =>
    (later.inputs[slot]?.map (Ty.fill general .generic)).getD .number
  have filledSlot : ∀ {slot : Nat} {ty : Ty}, later.inputs[slot]? = some ty →
      slots slot = ty.fill general .generic := fun found => by simp only [slots, found]; rfl
  have meets : later.Meets slots general :=
    ⟨solved.solves, fun slot ty found => (filledSlot found).symm⟩
  have told := exprTy_told closed serves small inferred slots
  have typed := same slots general _ (told.sound general meets)
  have before := meets.earlier told.extended
  cases outcome : exprTy context right state with
  | error error => exact absurd typed (exprTy_none closed serves small outcome before)
  | ok pair =>
      obtain ⟨other, after⟩ := pair
      have toldRight := exprTy_told closed serves small outcome slots
      obtain ⟨vars, _, met, filled⟩ := toldRight.complete general before _ typed
      obtain ⟨further, solvedAfter⟩ := toldRight.serves.valid.settled
      have resolved : ∀ {mine its : Ty}, mine.Scoped later.table.size →
          its.Scoped after.table.size → its.fill vars .generic = mine.fill general .generic →
            (after.table.resolve its).fill vars .generic = later.table.resolve mine := by
        intro mine its mineSmall itsSmall equal
        rw [solvedAfter.resolve itsSmall, solvedAfter.factors met.solves itsSmall,
          solved.resolve mineSmall, equal]
      have sizes : after.inputs.size = later.inputs.size := by
        rw [exprTy_reads context right state other after outcome,
          exprTy_reads context left state ty later inferred, reads]
      refine ⟨other, after, vars, rfl, ?_⟩
      rw [List.map_map, List.map_cons, List.map_cons]
      refine congrArg₂ _ (resolved told.small toldRight.small filled) (List.ext_getElem ?_ ?_)
      · simp [sizes]
      · intro slot inside alsoInside
        simp only [List.length_map, Array.length_toList] at inside alsoInside
        have here := Array.getElem?_eq_getElem inside
        have there := Array.getElem?_eq_getElem alsoInside
        simp only [List.getElem_map, Array.getElem_toList, Function.comp_apply]
        refine resolved (told.serves.valid.inputs slot _ there)
          (toldRight.serves.valid.inputs slot _ here) ?_
        rw [met.inputs slot _ here, filledSlot there]

theorem exprTy_alike (closed : context.registry.Closed) (serves : state.Serves known)
    (small : context.Scoped state.table.size)
    (same : ∀ slots vars ty, HasType known slots (context.fill vars) left ty ↔
      HasType known slots (context.fill vars) right ty)
    (reads : left.freeNamesUnder (context.scopes.map LambdaScope.bound) =
      right.freeNamesUnder (context.scopes.map LambdaScope.bound)) :
    (exprTy context left state).toOption.map (fun (ty, later) => later.answer ty) =
      (exprTy context right state).toOption.map fun (ty, later) => later.answer ty := by
  cases first : exprTy context left state with
  | error error =>
      cases second : exprTy context right state with
      | error other => rfl
      | ok pair =>
          obtain ⟨_, _, _, impossible, _⟩ := exprTy_instance closed serves small
            (fun slots vars ty => (same slots vars ty).mpr) reads.symm second
          rw [first] at impossible
          cases impossible
  | ok pair =>
      obtain ⟨ty, later⟩ := pair
      obtain ⟨other, after, vars, second, back⟩ := exprTy_instance closed serves small
        (fun slots vars ty => (same slots vars ty).mp) reads first
      obtain ⟨_, _, more, again, there⟩ := exprTy_instance closed serves small
        (fun slots vars ty => (same slots vars ty).mpr) reads.symm second
      cases first.symm.trans again
      have told := exprTy_told closed serves small second fun _ => .number
      have resolvedSmall : ∀ ty ∈ (other :: after.inputs.toList).map after.table.resolve,
          ty.Scoped after.table.size := by
        refine List.forall_mem_map.mpr fun ty member id mentioned => ?_
        refine (told.serves.valid.settled.unbound_resolve ?_ mentioned).lt
        rcases List.mem_cons.mp member with rfl | listed
        · exact told.small
        · obtain ⟨slot, present⟩ := List.getElem?_of_mem listed
          exact told.serves.valid.inputs slot ty (by rwa [← Array.getElem?_toList])
      rw [second]
      exact congrArg some (Ty.nameVarsList_of_instances there back resolvedSmall)

end Variants

end Infer

end NodeGraph
