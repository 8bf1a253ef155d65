import NodeGraph.Proofs.Expr.Scoping
import NodeGraph.Proofs.Primitive.Signatures
import NodeGraph.Proofs.Typing.Principal

/-!
Builtin primitives make no functions, they only pass some of their operands on.
-/

namespace NodeGraph

theorem Value.Closed.flatItems {astray : String → Prop} {value : Value}
    (closed : value.Closed astray) : ∀ leaf ∈ value.flatItems, leaf.Closed astray := by
  induction closed with
  | @simple value noArray noFunction =>
      rw [Value.flatItems_of_flat noArray]
      exact List.forall_mem_singleton.mpr (.simple noArray noFunction)
  | @array items all ih =>
      intro leaf member
      rw [Value.flatItems_array, List.mem_flatMap] at member
      obtain ⟨item, inside, member⟩ := member
      exact ih item inside leaf member
  | primitive name => exact List.forall_mem_singleton.mpr (.primitive name)
  | closure within all _ => exact List.forall_mem_singleton.mpr (.closure within all)

theorem Value.closed_of_kind {astray : String → Prop} {kind : BaseType} {value : Value}
    (admitted : kind.admits value = true) : value.Closed astray := by
  cases value with
  | array items => cases kind <;> cases admitted
  | function callable => cases kind <;> cases admitted
  | _ => exact .simple rfl rfl

namespace Registry

theorem builtin_applyClosed {astray : String → Prop} {primitive : Primitive}
    (member : primitive ∈ builtin.primitives) {operands : List Value} {value : Value}
    (all : ∀ operand ∈ operands, operand.Closed astray)
    (applied : primitive.apply operands = .ok value) : value.Closed astray := by
  rcases builtin_cases member with ⟨_, _, gives⟩ | rfl | rfl | rfl | rfl | rfl
  · exact Value.closed_of_kind (gives operands value applied)
  · obtain ⟨condition, chosen, other, _, rfl, outcome⟩ := Primitive.ternary_ok applied
    rcases Logic.select_ok outcome with rfl | rfl
    · exact all value (by simp)
    · exact all value (by simp)
  · obtain ⟨array, index, _, rfl, outcome⟩ := Primitive.binary_ok applied
    obtain ⟨items, rfl, inside⟩ := Collection.item_ok outcome
    exact (all _ List.mem_cons_self).items value inside
  · obtain ⟨left, right, _, rfl, outcome⟩ := Primitive.binary_ok applied
    obtain ⟨items, others, rfl, rfl, rfl⟩ := Collection.concat_ok outcome
    refine .array fun item inside => ?_
    exact (List.mem_append.mp inside).elim ((all (.array items) (by simp)).items item)
      ((all (.array others) (by simp)).items item)
  · obtain ⟨array, _, rfl, outcome⟩ := Primitive.unary_ok applied
    obtain ⟨_, _, rfl⟩ := Collection.flatten_ok outcome
    exact .array (all array List.mem_cons_self).flatItems
  · obtain ⟨count, _, rfl, outcome⟩ := Primitive.unary_ok applied
    obtain ⟨numbers, rfl⟩ := Collection.range_ok outcome
    refine .array fun item inside => ?_
    obtain ⟨number, _, rfl⟩ := List.mem_map.mp inside
    exact .simple rfl rfl

theorem builtin_keepsClosed {astray : String → Prop} : builtin.KeepsClosed astray := by
  intro name operands value all invoked
  rw [invoke] at invoked
  cases found : builtin.find? name with
  | none =>
      rw [found] at invoked
      obtain rfl := Except.ok.inj invoked
      exact Value.closed_error _
  | some primitive =>
      rw [found] at invoked
      simp only at invoked
      split at invoked
      · obtain rfl := Except.ok.inj invoked
        exact Value.closed_error _
      · split at invoked
        · rename_i error broken
          obtain rfl := Except.ok.inj invoked
          exact Value.closed_of_isError (Value.isError_of_firstError? broken)
        · split at invoked
          · rename_i applied
            obtain rfl := Except.ok.inj invoked
            exact builtin_applyClosed (List.mem_of_find?_eq_some found) all applied
          · obtain rfl := Except.ok.inj invoked
            exact Value.closed_error _
          · cases invoked

theorem builtin_closed : builtin.Closed := by
  intro name signature found
  obtain ⟨primitive, present, rfl⟩ := Option.map_eq_some_iff.mp found
  have all : (builtin.primitives.all fun primitive =>
      primitive.signature.scheme.toTy.vars.isEmpty) = true := by
    decide +kernel
  exact List.isEmpty_iff.mp (List.all_eq_true.mp all primitive (List.mem_of_find?_eq_some present))

end Registry

end NodeGraph
