import NodeGraph.Expr.Free
import NodeGraph.Proofs.Expr.Scoping
import NodeGraph.Proofs.Typing.NodeRules

/-!
What typing tells of scopes. Names that the rules type are bound by a lambda, designate an input or
name a parameter, and arguments are within the frames that calls will make; so an expression that is
typed is in scope wherever the inputs that it reads are connected.
-/

namespace NodeGraph

namespace Expr

/-- A name that designates an input and is not the variable of that input. -/
def Misspelt (name : String) : Prop :=
  ∃ slot, inputSlot? name = some slot ∧ name ≠ inputName slot

theorem inputSlot?_argument (index : UInt64) :
    inputSlot? (inputName index.toNat) = some index.toNat := by
  have digits : (Nat.toDigits 10 index.toNat).any (fun digit => !digit.isDigit) = false := by
    rw [List.any_eq_false]
    intro digit member
    simp [Nat.isDigit_of_mem_toDigits (by decide) (by decide) member]
  have small : index.toNat < UInt64.size := index.toNat_lt
  rw [inputSlot?, toList_inputName]
  simp only [digits, List.isEmpty_eq_false_iff.mpr Nat.toDigits_ne_nil, Bool.or_self,
    Bool.false_eq_true, if_false, Numeral.valueOf_toDigits, small, if_true]

end Expr

def LambdaScope.bound (scope : LambdaScope) : List String := scope.names.map Prod.fst

namespace TypeContext

variable {context : TypeContext}

theorem mem_bound_of_scoped? {name : String} {ty : Ty} (found : context.scoped? name = some ty) :
    name ∈ (context.scopes.map LambdaScope.bound).flatten := by
  obtain ⟨scope, inside, bound⟩ := List.exists_of_findSome?_eq_some found
  obtain ⟨before, after, parts, _⟩ := List.lookup_eq_some_iff.mp bound
  refine List.mem_flatten.mpr ⟨scope.bound, List.mem_map.mpr ⟨scope, inside, rfl⟩, ?_⟩
  refine List.mem_map.mpr ⟨(name, ty), List.mem_reverse.mp ?_, rfl⟩
  rw [parts]
  exact List.mem_append_right _ List.mem_cons_self

theorem not_bound_of_scoped? {name : String} (free : context.scoped? name = none) :
    ((context.scopes.map LambdaScope.bound).any fun scope => scope.contains name) = false := by
  rw [List.any_eq_false]
  intro bound member contained
  obtain ⟨scope, inside, rfl⟩ := List.mem_map.mp member
  obtain ⟨entry, present, rfl⟩ := List.mem_map.mp (List.contains_iff_mem.mp contained)
  have none := List.findSome?_eq_none_iff.mp free scope inside
  have other := List.lookup_eq_none_iff.mp none entry (List.mem_reverse.mpr present)
  simp at other

theorem bound_enter {params : List String} {types : List Ty} {body : Expr}
    (arity : types.length = Expr.lambdaArity params body) :
    ((context.enter params types).scopes.map LambdaScope.bound) =
      params :: context.scopes.map LambdaScope.bound := by
  have lengths : params.length ≤ types.length := by
    cases params with
    | nil => exact Nat.zero_le _
    | cons first rest => exact Nat.le_of_eq arity.symm
  rw [enter, List.map_cons, LambdaScope.bound, List.map_fst_zip lengths]

def readable (context : TypeContext) (connected : Nat → Prop) (index : Nat) : Prop :=
  match context.scopes with
  | [] => connected index
  | scope :: _ => index < scope.arguments.length

end TypeContext

section Scopes

variable {known : Nat} {slots : Nat → Ty} {astray : String → Prop} {connected : Nat → Prop}
  {outer : List String}

/-- The names outside of all lambdas: the parameters so far, and the variables of connected inputs.
-/
structure Surrounds (context : TypeContext) (connected : Nat → Prop) (outer : List String) :
    Prop where
  params : ∀ name ty, context.params.lookup name = some ty → name ∈ outer
  inputs : ∀ slot, connected slot → Expr.inputName slot ∈ outer

/-- The free inputs among names are connected, and those that are misspelt go astray. -/
def Supplied (astray : String → Prop) (connected : Nat → Prop) (names : List String) : Prop :=
  ∀ name ∈ names, ∀ slot, Expr.inputSlot? name = some slot →
    connected slot ∧ (name = Expr.inputName slot ∨ astray name)

theorem Supplied.left {names others : List String}
    (supplied : Supplied astray connected (names ++ others)) :
    Supplied astray connected names :=
  fun name member => supplied name (List.mem_append_left _ member)

theorem Supplied.right {names others : List String}
    (supplied : Supplied astray connected (names ++ others)) :
    Supplied astray connected others :=
  fun name member => supplied name (List.mem_append_right _ member)

mutual

theorem HasType.inScope {context : TypeContext} {expr : Expr} {ty : Ty}
    (typed : HasType known slots context expr ty) (surrounds : Surrounds context connected outer)
    (plain : expr.plain = true)
    (supplied : Supplied astray connected
      (expr.freeNamesUnder (context.scopes.map LambdaScope.bound))) :
    expr.InScope astray ((context.scopes.map LambdaScope.bound).flatten ++ outer)
      (context.readable connected) := by
  match typed with
  | .constant _ => exact plain
  | .bound bound => exact Or.inl (List.mem_append_left _ (TypeContext.mem_bound_of_scoped? bound))
  | @HasType.input _ _ _ name slot free designates _ =>
      have read : name ∈ (Expr.variable name).freeNamesUnder
          (context.scopes.map LambdaScope.bound) := by
        rw [Expr.freeNamesUnder, TypeContext.not_bound_of_scoped? free]
        exact List.mem_singleton_self name
      obtain ⟨isConnected, rfl | goesAstray⟩ := supplied name read slot designates
      · exact Or.inl (List.mem_append_right _ (surrounds.inputs slot isConnected))
      · exact Or.inr goesAstray
  | .param _ _ bound => exact Or.inl (List.mem_append_right _ (surrounds.params _ _ bound))
  | @HasType.outerArgument _ _ _ index outside _ =>
      have read : Expr.inputName index.toNat ∈ (Expr.argument index).freeNamesUnder
          (context.scopes.map LambdaScope.bound) := by
        rw [Expr.freeNamesUnder, outside]
        exact List.mem_singleton_self _
      rw [Expr.InScope, TypeContext.readable, outside]
      exact (supplied _ read _ (Expr.inputSlot?_argument index)).1
  | .argument inside passed =>
      rw [Expr.InScope, TypeContext.readable, inside]
      exact (List.getElem?_eq_some_iff.mp passed).1
  | .nullary _ _ _ => exact trivial
  | .bare _ _ _ => exact trivial
  | .primitive _ _ all => exact all.inScope surrounds plain supplied
  | .apply typed all =>
      rw [Expr.plain, Bool.and_eq_true] at plain
      exact ⟨typed.inScope surrounds plain.1 supplied.left,
        all.inScope surrounds plain.2 supplied.right⟩
  | .map typed called =>
      rw [Expr.plain, Bool.and_eq_true] at plain
      exact ⟨typed.inScope surrounds plain.1 supplied.left,
        called.inScope surrounds plain.2 supplied.right⟩
  | @HasType.lambda _ _ _ params body arguments _ arity _ typed =>
      rw [Expr.freeNamesUnder, ← TypeContext.bound_enter arity] at supplied
      have within := typed.inScope ⟨surrounds.params, surrounds.inputs⟩ plain supplied
      rw [TypeContext.bound_enter arity, List.flatten_cons, List.append_assoc] at within
      rw [Expr.InScope]
      have frame : (context.enter params arguments).readable connected =
          (· < Expr.lambdaArity params body) := by
        funext index
        rw [← arity]
        rfl
      rwa [frame] at within

theorem HasTypes.inScope {context : TypeContext} {exprs : List Expr} {types : List Ty}
    (typed : HasTypes known slots context exprs types)
    (surrounds : Surrounds context connected outer) (plain : Expr.plainList exprs = true)
    (supplied : Supplied astray connected
      (Expr.freeNamesUnderList (context.scopes.map LambdaScope.bound) exprs)) :
    Expr.AllInScope astray ((context.scopes.map LambdaScope.bound).flatten ++ outer)
      (context.readable connected) exprs := by
  match typed with
  | .nil => exact trivial
  | .cons typed all =>
      rw [Expr.plainList, Bool.and_eq_true] at plain
      exact ⟨typed.inScope surrounds plain.1 supplied.left,
        all.inScope surrounds plain.2 supplied.right⟩

end

end Scopes

end NodeGraph
