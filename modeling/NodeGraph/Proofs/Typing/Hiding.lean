import NodeGraph.Proofs.Typing.Opening
import NodeGraph.Proofs.Typing.Scopes

/-!
Hidden inputs. Inference reads the types of inputs only where a name or an argument designates them.
So two runs whose inputs differ elsewhere take the same steps: their tables correspond up to the
names of variables, they find the same types, and they fail alike, blaming no hidden input.
-/

namespace NodeGraph

def Shows (shown : List Nat) (names : List String) : Prop :=
  ∀ name ∈ names, ∀ slot, Expr.inputSlot? name = some slot → slot ∈ shown

theorem shows_append {shown : List Nat} {names others : List String} :
    Shows shown (names ++ others) ↔ Shows shown names ∧ Shows shown others := by
  simp only [Shows, List.mem_append, or_imp, forall_and]

def Filling.rename {Result : Type} [Filling Result] (place : Nat → Nat) (result : Result) :
    Result :=
  Filling.fill (fun id => .var (place id)) result

theorem Filling.rename_ty (place : Nat → Nat) (ty : Ty) :
    Filling.rename place ty = ty.rename place := rfl

namespace TypeContext

def rename (place : Nat → Nat) (context : TypeContext) : TypeContext :=
  context.fill fun id => .var (place id)

variable {place : Nat → Nat} {context : TypeContext}

theorem rename_scoped? (name : String) :
    (context.rename place).scoped? name = (context.scoped? name).map (Ty.rename place) :=
  context.fill_scoped? _ name

theorem rename_enter (params : List String) (types : List Ty) :
    (context.enter params types).rename place =
      (context.rename place).enter params (types.map (Ty.rename place)) :=
  context.fill_enter params types

theorem culprit_rename (site : Expr) :
    (context.rename place).culprit site = context.culprit site := by
  cases site with
  | «variable» name =>
      rw [culprit, culprit, rename_scoped?, Option.isSome_map]
  | argument index =>
      rw [culprit, culprit, rename, fill, List.isEmpty_map]
  | _ => rfl

theorem culprit_shown {shown : List Nat} {site : Expr}
    (shows : Shows shown (site.freeNamesUnder (context.scopes.map LambdaScope.bound)))
    {slot : Nat} (blamed : context.culprit site = .input slot) : slot ∈ shown := by
  cases site with
  | «variable» name =>
      rw [culprit] at blamed
      split at blamed
      · cases blamed
      · rename_i free
        rw [Bool.not_eq_true, Option.isSome_eq_false_iff, Option.isNone_iff_eq_none] at free
        split at blamed
        · rename_i found designates
          cases blamed
          refine shows name ?_ slot designates
          rw [Expr.freeNamesUnder, not_bound_of_scoped? free]
          exact List.mem_singleton_self name
        · cases blamed
  | argument index =>
      rw [culprit] at blamed
      split at blamed
      · rename_i outside
        cases blamed
        refine shows _ ?_ _ (Expr.inputSlot?_argument index)
        rw [Expr.freeNamesUnder, List.isEmpty_map, outside]
        exact List.mem_singleton_self _
      · cases blamed
  | _ => cases blamed

end TypeContext

/-- A state stands inside another one that has the same inputs, but for those that are hidden. -/
structure InferState.Mirrors (place : Nat → Nat) (shown : List Nat) (state other : InferState) :
    Prop where
  valid : state.Valid
  table : state.table.Renames place other.table
  size : other.inputs.size = state.inputs.size
  inputs : ∀ slot ∈ shown, other.inputs[slot]? = state.inputs[slot]?.map (Ty.rename place)

section Mirrored

variable {Result Final : Type} [Filling Result] [Filling Final]

/-- Two runs of a step, from states of which one mirrors the other: both find the same, or both fail
in the same way and blame no hidden input. -/
inductive Mirrored (place : Nat → Nat) (shown : List Nat) (state : InferState) :
    Except TypeError (Result × InferState) → Except TypeError (Result × InferState) → Prop
  | found {found : Result} {later other : InferState} (mirrors : later.Mirrors place shown other)
      (grows : state.table.size ≤ later.table.size)
      (small : Filling.Scoped later.table.size found) :
      Mirrored place shown state (.ok (found, later)) (.ok (Filling.rename place found, other))
  | failed {error : TypeError}
      (blames : ∀ slot, error.culprit? = some (.input slot) → slot ∈ shown) :
      Mirrored place shown state (.error error) (.error error)

variable {place : Nat → Nat} {shown : List Nat} {state other : InferState}

namespace Mirrored

theorem unblamed {error : TypeError} (blameless : error.culprit? = none) :
    @Mirrored Result _ place shown state (.error error) (.error error) := by
  refine .failed fun slot blamed => ?_
  rw [blameless] at blamed
  cases blamed

theorem pure (mirrors : state.Mirrors place shown other) {found : Result}
    (small : Filling.Scoped state.table.size found) :
    Mirrored place shown state ((Pure.pure found : InferM Result) state)
      ((Pure.pure (Filling.rename place found) : InferM Result) other) :=
  .found mirrors (Nat.le_refl _) small

theorem bind {first firstOther : InferM Result} {next nextOther : Result → InferM Final}
    (begins : Mirrored place shown state (first state) (firstOther other))
    (continues : ∀ found middle middleOther, first state = .ok (found, middle) →
      middle.Mirrors place shown middleOther → state.table.size ≤ middle.table.size →
      Filling.Scoped middle.table.size found →
        Mirrored place shown middle (next found middle)
          (nextOther (Filling.rename place found) middleOther)) :
    Mirrored place shown state ((first >>= next) state) ((firstOther >>= nextOther) other) := by
  change Mirrored place shown state ((first state).bind fun pair => next pair.1 pair.2)
    ((firstOther other).bind fun pair => nextOther pair.1 pair.2)
  generalize outcome : first state = run at begins
  generalize firstOther other = others at begins
  cases begins with
  | failed blames => exact .failed blames
  | @found found middle middleOther mirrors grows small =>
      have continued := continues found middle middleOther outcome mirrors grows small
      change Mirrored place shown state (next found middle)
        (nextOther (Filling.rename place found) middleOther)
      generalize next found middle = run at continued
      generalize nextOther (Filling.rename place found) middleOther = others at continued
      cases continued with
      | failed blames => exact .failed blames
      | found last further lastSmall => exact .found last (Nat.le_trans grows further) lastSmall

end Mirrored

end Mirrored

namespace Infer

variable {place : Nat → Nat} {shown : List Nat} {state other : InferState}

theorem mirrors_of_table {table tableOther : VarTable}
    (mirrors : state.Mirrors place shown other) (settled : table.Settled)
    (extended : state.table.Extends table) (renames : table.Renames place tableOther) :
    InferState.Mirrors place shown { state with table } { other with table := tableOther } :=
  ⟨(mirrors.valid.of_table settled extended).valid, renames, mirrors.size, mirrors.inputs⟩

/-! ### Single steps -/

theorem freshTy_mirrored (mirrors : state.Mirrors place shown other) :
    Mirrored place shown state (freshTy state) (freshTy other) := by
  obtain ⟨unknown, renames⟩ := mirrors.table.fresh
  have extended := VarTable.fresh_extends state.table
  have later := mirrors_of_table mirrors (VarTable.settled_fresh mirrors.valid.settled) extended
    renames
  have run : freshTy other = .ok (Filling.rename place state.table.fresh.1,
      { other with table := other.table.fresh.2 }) := congrArg (fun ty => Except.ok (ty, _)) unknown
  rw [run]
  exact .found later extended.size (VarTable.fresh_scoped state.table)

theorem freshTys_mirrored (mirrors : state.Mirrors place shown other) (count : Nat) :
    Mirrored place shown state (freshTys count state) (freshTys count other) := by
  obtain ⟨unknowns, renames⟩ := mirrors.table.freshList count
  obtain ⟨settled, extended, _, small⟩ :=
    VarTable.freshList_spec count mirrors.valid.settled
  have later := mirrors_of_table mirrors settled extended renames
  have run : freshTys count other = .ok (Filling.rename place (state.table.freshList count).1,
      { other with table := (other.table.freshList count).2 }) :=
    congrArg (fun types => Except.ok (types, _)) unknowns
  rw [run]
  exact .found later extended.size small

theorem instantiate_mirrored (mirrors : state.Mirrors place shown other) {scheme : Scheme}
    (closed : scheme.toTy.vars = []) :
    Mirrored place shown state (instantiate scheme state) (instantiate scheme other) := by
  obtain ⟨params, result, after, table, outcome, _, opens⟩ := instantiate_opens state closed
  have small := (opens.small (emptyInstances_scoped _)).2
  rw [Scheme.toTy, Ty.vars, List.append_eq_nil_iff] at closed
  have opened := mirrors.table.instantiateListWith [] scheme.params closed.1
  have last := opened.tables.instantiateWith
    (state.table.instantiateListWith [] scheme.params).2.1 scheme.result closed.2
  rw [← opened.instances] at last
  have runs : instantiate scheme other = .ok (Filling.rename place
      ((state.table.instantiateListWith [] scheme.params).1,
        ((state.table.instantiateListWith [] scheme.params).2.2.instantiateWith
          (state.table.instantiateListWith [] scheme.params).2.1 scheme.result).1), _) :=
    congrArg₂ (fun types ty => Except.ok ((types, ty), _)) opened.opened last.opened
  cases outcome
  rw [runs]
  exact .found (mirrors_of_table mirrors (opens.settled mirrors.valid.settled) opens.extended
    last.tables) opens.extended.size ⟨fun ty member => small ty (List.mem_append_left _ member),
      small _ (List.mem_append_right _ List.mem_cons_self)⟩

theorem head_mirrored (mirrors : state.Mirrors place shown other) {ty : Ty}
    (small : ty.Scoped state.table.size) :
    Mirrored place shown state (head ty state) (head (ty.rename place) other) := by
  have settled := mirrors.valid.settled
  have redirects := VarTable.compressHead_redirects settled ty
  have later := mirrors_of_table mirrors redirects.settled redirects.extends
    (mirrors.table.compressHead settled small)
  have run : head (ty.rename place) other = .ok (Filling.rename place (state.table.head ty),
      { other with table := other.table.compressHead (ty.rename place) }) :=
    congrArg (fun ty => Except.ok (ty, _)) (mirrors.table.head settled small)
  obtain ⟨general, solved⟩ := settled
  rw [run]
  exact .found later redirects.extends.size
    ((solved.head small).1.mono redirects.extends.size)

theorem generalizeAll_pair (table : VarTable) (left right : Ty) :
    ∃ first second, table.generalizeAll [left, right] = [first, second] := by
  rw [VarTable.generalizeAll, List.map_cons, List.map_singleton, Ty.nameVarsList_cons,
    Ty.nameVarsList_cons, Ty.nameVarsList]
  exact ⟨_, _, rfl⟩

theorem blame_culprit (table : VarTable) (culprit : Culprit) (error : UnifyError) :
    (blame table culprit error).culprit? = some culprit := by
  cases error with
  | mismatch expected found =>
      rw [blame]
      split <;> rfl
  | infinite root ty =>
      rw [blame]
      split <;> rfl

theorem blame_rename {table tableOther : VarTable} (renames : table.Renames place tableOther)
    (settled : table.Settled) (culprit : Culprit) (error : UnifyError)
    (small : ∀ ty ∈ error.types, ty.Scoped table.size) :
    blame tableOther culprit (error.rename place) = blame table culprit error := by
  have same := renames.generalizeAll settled small
  cases error with
  | mismatch expected found =>
      obtain ⟨first, second, named⟩ := generalizeAll_pair table expected found
      rw [UnifyError.types, named] at same
      rw [List.map_cons, List.map_singleton] at same
      simp only [UnifyError.rename, blame, named, same]
  | infinite root ty =>
      obtain ⟨first, second, named⟩ := generalizeAll_pair table root ty
      rw [UnifyError.types, named] at same
      rw [List.map_cons, List.map_singleton] at same
      simp only [UnifyError.rename, blame, named, same]

theorem unify_mirrored (mirrors : state.Mirrors place shown other) {expected found : Ty}
    (expectedSmall : expected.Scoped state.table.size) (foundSmall : found.Scoped state.table.size)
    {culprit culpritOther : Unit → Culprit} (same : culpritOther () = culprit ())
    (blames : ∀ slot, culprit () = .input slot → slot ∈ shown) :
    Mirrored place shown state (unify expected found culprit state)
      (unify (expected.rename place) (found.rename place) culpritOther other) := by
  have settled := mirrors.valid.settled
  have unifying := VarTable.unify_unifying settled expectedSmall foundSmall
  obtain ⟨tables, outcomes, small⟩ := mirrors.table.unify settled expectedSmall foundSmall
  rw [unify, unify, same]
  generalize other.table.unify _ _ = others at tables outcomes
  generalize state.table.unify expected found = run at unifying tables outcomes small
  obtain ⟨table, outcome⟩ := run
  obtain ⟨tableOther, outcomeOther⟩ := others
  cases outcomes
  cases outcome with
  | ok _ =>
      exact .found (mirrors_of_table mirrors unifying.settled unifying.extended tables)
        unifying.extended.size trivial
  | error error =>
      simp only [blame_rename tables unifying.settled _ error (small error rfl)]
      refine .failed fun slot blamed => blames slot ?_
      rw [blame_culprit] at blamed
      exact Option.some.inj blamed

theorem addInputs_mirrors (mirrors : state.Mirrors place shown other) (count : Nat) :
    (state.addInputs count).Mirrors place shown (other.addInputs count) := by
  obtain ⟨unknowns, renames⟩ := mirrors.table.freshList count
  have added : ∀ state : InferState, (state.addInputs count).inputs =
      state.inputs ++ (state.table.freshList count).1.toArray := fun _ => rfl
  refine ⟨(addInputs_steps mirrors.valid count).valid, renames, ?_, fun slot visible => ?_⟩
  · simp only [added, Array.size_append, mirrors.size, unknowns, List.size_toArray,
      List.length_map]
  · rw [added, added, Array.getElem?_append, Array.getElem?_append, mirrors.size, unknowns]
    split
    · exact mirrors.inputs slot visible
    · rw [List.getElem?_toArray, List.getElem?_toArray, List.getElem?_map]

theorem input_mirrored (mirrors : state.Mirrors place shown other) {slot : Nat}
    (visible : slot ∈ shown) :
    Mirrored place shown state (input slot state) (input slot other) := by
  rw [input, input, mirrors.inputs slot visible, mirrors.size]
  cases present : state.inputs[slot]? with
  | some ty => exact .found mirrors (Nat.le_refl _) (mirrors.valid.inputs slot ty present)
  | none =>
      simp only [Option.map_none]
      by_cases large : slot ≥ Expr.maxArguments
      · rw [if_pos large, if_pos large]
        exact .unblamed rfl
      · have grown := addInputs_mirrors mirrors (slot + 1 - state.inputs.size)
        have steps := addInputs_steps mirrors.valid (slot + 1 - state.inputs.size)
        rw [if_neg large, if_neg large, grown.inputs slot visible]
        cases added : (state.addInputs (slot + 1 - state.inputs.size)).inputs[slot]? with
        | some ty =>
            exact .found grown steps.extended.table.size (steps.valid.inputs slot ty added)
        | none => exact .unblamed rfl

/-! ### Constants -/

mutual

theorem valueTy_mirrored (value : Value) {state other : InferState}
    (mirrors : state.Mirrors place shown other) :
    Mirrored place shown state (valueTy value state) (valueTy value other) := by
  match value with
  | .number _ | .integer _ | .boolean _ | .text _ | .point _ | .rect _ | .color _ | .image _ =>
      rw [valueTy]
      exact .pure mirrors (Ty.scoped_base _)
  | .error _ | .function _ =>
      rw [valueTy]
      exact freshTy_mirrored mirrors
  | .array items =>
      rw [valueTy]
      refine .bind (freshTy_mirrored mirrors) fun element middle middleOther _ mirrors _ small => ?_
      refine .bind (itemsTy_mirrored items mirrors small nofun)
        fun _ last lastOther _ mirrors grows _ => ?_
      exact .pure mirrors (Ty.scoped_array.mpr (Ty.Scoped.mono small grows))

theorem itemsTy_mirrored (items : List Value) {state other : InferState}
    (mirrors : state.Mirrors place shown other) {element : Ty}
    (small : element.Scoped state.table.size) {culprit : Unit → Culprit}
    (blames : ∀ slot, culprit () = .input slot → slot ∈ shown) :
    Mirrored place shown state (itemsTy culprit element items state)
      (itemsTy culprit (element.rename place) items other) := by
  match items with
  | [] =>
      rw [itemsTy, itemsTy]
      exact .pure mirrors trivial
  | item :: rest =>
      rw [itemsTy, itemsTy]
      refine .bind (valueTy_mirrored item mirrors) fun ty middle middleOther _ mirrors grows
        tySmall => ?_
      have elementSmall := small.mono grows
      refine .bind (unify_mirrored mirrors elementSmall tySmall rfl blames)
        fun _ last lastOther _ mirrors grows _ => ?_
      exact itemsTy_mirrored rest mirrors (elementSmall.mono grows) blames

end

/-! ### Names and arguments -/

variable {context : TypeContext}

theorem variableTy_mirrored (mirrors : state.Mirrors place shown other)
    (small : context.Scoped state.table.size) {name : String}
    (shows : Shows shown
      ((Expr.variable name).freeNamesUnder (context.scopes.map LambdaScope.bound))) :
    Mirrored place shown state (variableTy context name state)
      (variableTy (context.rename place) name other) := by
  rw [variableTy, variableTy, TypeContext.rename_scoped?]
  cases bound : context.scoped? name with
  | some ty => exact .pure mirrors (small.scoped? bound)
  | none =>
      simp only [Option.map_none]
      cases designates : Expr.inputSlot? name with
      | some slot =>
          refine input_mirrored mirrors (shows name ?_ slot designates)
          rw [Expr.freeNamesUnder, TypeContext.not_bound_of_scoped? bound]
          exact List.mem_singleton_self name
      | none =>
          have renamed : (context.rename place).params.lookup name =
              (context.params.lookup name).map (Ty.rename place) :=
            TypeContext.lookup_map _ context.params name
          simp only [renamed]
          cases found : context.params.lookup name with
          | some ty => exact .pure mirrors (small.lookup found)
          | none => exact .unblamed rfl

theorem argumentTy_mirrored (mirrors : state.Mirrors place shown other)
    (small : context.Scoped state.table.size) {index : UInt64}
    (shows : Shows shown
      ((Expr.argument index).freeNamesUnder (context.scopes.map LambdaScope.bound))) :
    Mirrored place shown state (argumentTy context index.toNat state)
      (argumentTy (context.rename place) index.toNat other) := by
  have renamed : (context.rename place).scopes =
      context.scopes.map (LambdaScope.fill fun id => .var (place id)) := rfl
  rw [argumentTy, argumentTy, renamed]
  cases scopes : context.scopes with
  | nil =>
      refine input_mirrored mirrors (shows _ ?_ _ (Expr.inputSlot?_argument index))
      rw [Expr.freeNamesUnder, scopes]
      exact List.mem_singleton_self _
  | cons scope outer =>
      simp only [List.map_cons, LambdaScope.fill, List.getElem?_map, List.length_map]
      cases found : scope.arguments[index.toNat]? with
      | some ty =>
          refine .pure mirrors (small.arguments scope ?_ ty (List.mem_of_getElem? found))
          rw [scopes]
          exact List.mem_cons_self
      | none => exact .unblamed rfl

/-! ### Calls -/

theorem culprit_blames {site : Expr}
    (shows : Shows shown (site.freeNamesUnder (context.scopes.map LambdaScope.bound))) :
    ∀ slot, (fun _ : Unit => context.culprit site) () = .input slot → slot ∈ shown :=
  fun _ blamed => TypeContext.culprit_shown shows blamed

theorem unifyOperands_mirrored {params types : List Ty} {operands : List Expr}
    (mirrors : state.Mirrors place shown other)
    (paramsSmall : ∀ ty ∈ params, ty.Scoped state.table.size)
    (typesSmall : ∀ ty ∈ types, ty.Scoped state.table.size)
    (shows : Shows shown
      (Expr.freeNamesUnderList (context.scopes.map LambdaScope.bound) operands)) :
    Mirrored place shown state (unifyOperands context params types operands state)
      (unifyOperands (context.rename place) (params.map (Ty.rename place))
        (types.map (Ty.rename place)) operands other) := by
  induction operands generalizing params types state other with
  | nil =>
      have none : ∀ (context : TypeContext) (params types : List Ty),
          unifyOperands context params types [] = (return ()) := by
        intro context params types
        rw [unifyOperands]
        simp
      rw [none, none]
      exact .pure mirrors trivial
  | cons operand operands ih =>
      cases params with
      | nil =>
          rw [List.map_nil, unifyOperands, unifyOperands]
          · exact .pure mirrors trivial
          all_goals simp
      | cons param params =>
          cases types with
          | nil =>
              rw [List.map_nil, unifyOperands, unifyOperands]
              · exact .pure mirrors trivial
              all_goals simp
          | cons found types =>
              rw [List.forall_mem_cons] at paramsSmall typesSmall
              rw [Expr.freeNamesUnderList, shows_append] at shows
              rw [List.map_cons, List.map_cons, unifyOperands, unifyOperands]
              refine .bind (unify_mirrored mirrors paramsSmall.1 typesSmall.1
                (TypeContext.culprit_rename operand) (culprit_blames shows.1))
                  fun _ middle middleOther _ mirrors grows _ => ?_
              exact ih mirrors (fun ty member => (paramsSmall.2 ty member).mono grows)
                (fun ty member => (typesSmall.2 ty member).mono grows) shows.2

theorem unifyResult_mirrored {types : List Ty} {callable : Ty} {wrap : Ty → Ty}
    (mirrors : state.Mirrors place shown other)
    (typesSmall : ∀ ty ∈ types, ty.Scoped state.table.size)
    (small : callable.Scoped state.table.size) {site : Expr}
    (shows : Shows shown (site.freeNamesUnder (context.scopes.map LambdaScope.bound)))
    (wrapSmall : ∀ {size : Nat} {ty : Ty}, ty.Scoped size → (wrap ty).Scoped size)
    (wrapRename : ∀ ty : Ty, (wrap ty).rename place = wrap (ty.rename place)) :
    Mirrored place shown state
      ((do
        let result ← freshTy
        unify (.function types result) callable fun _ => context.culprit site
        return wrap result : InferM Ty) state)
      ((do
        let result ← freshTy
        unify (.function (types.map (Ty.rename place)) result) (callable.rename place)
          fun _ => (context.rename place).culprit site
        return wrap result : InferM Ty) other) := by
  refine .bind (freshTy_mirrored mirrors) fun result middle middleOther _ mirrors grows
    resultSmall => ?_
  have applied : (Ty.function types result).Scoped middle.table.size :=
    Ty.scoped_function.mpr ⟨fun ty member => (typesSmall ty member).mono grows, resultSmall⟩
  have unified : Mirrored place shown middle
      (unify (.function types result) callable (fun _ => context.culprit site) middle)
      (unify ((Ty.function types result).rename place) (callable.rename place)
        (fun _ => (context.rename place).culprit site) middleOther) :=
    unify_mirrored mirrors applied (small.mono grows) (TypeContext.culprit_rename site)
      (culprit_blames shows)
  rw [Ty.rename_function] at unified
  refine .bind unified fun _ last lastOther _ mirrors grows _ => ?_
  have wrapped : Filling.Scoped last.table.size (wrap result) :=
    wrapSmall (Ty.Scoped.mono resultSmall grows)
  have found := Mirrored.pure mirrors wrapped
  rwa [Filling.rename_ty, wrapRename] at found

theorem applyTy_mirrored {operator : Expr} {operands : List Expr} {operatorTy : Ty}
    {types : List Ty} (mirrors : state.Mirrors place shown other)
    (small : operatorTy.Scoped state.table.size)
    (typesSmall : ∀ ty ∈ types, ty.Scoped state.table.size)
    (shows : Shows shown
      ((Expr.apply operator operands).freeNamesUnder (context.scopes.map LambdaScope.bound))) :
    Mirrored place shown state (applyTy context operator operands operatorTy types state)
      (applyTy (context.rename place) operator operands (operatorTy.rename place)
        (types.map (Ty.rename place)) other) := by
  rw [Expr.freeNamesUnder, shows_append] at shows
  rw [applyTy, applyTy]
  refine .bind (head_mirrored mirrors small) fun outcome middle middleOther _ mirrors grows
    outcomeSmall => ?_
  have grownTypes := fun ty member => Ty.Scoped.mono (typesSmall ty member) grows
  have unknown := unifyResult_mirrored mirrors grownTypes outcomeSmall shows.1 id fun _ => rfl
  cases outcome with
  | function params result =>
      obtain ⟨paramsSmall, resultSmall⟩ := Ty.scoped_function.mp outcomeSmall
      simp only [Filling.rename_ty, Ty.rename_function, List.length_map]
      by_cases lengths : params.length = types.length
      · rw [if_neg (not_not.mpr lengths), if_neg (not_not.mpr lengths)]
        refine .bind (unifyOperands_mirrored mirrors paramsSmall grownTypes shows.2)
          fun _ last lastOther _ mirrors grows _ => ?_
        exact .pure mirrors (Ty.Scoped.mono resultSmall grows)
      · rw [if_pos lengths, if_pos lengths]
        exact .unblamed rfl
  | _ => exact unknown

theorem mapTy_mirrored {array callable : Expr} {element callableTy : Ty}
    (mirrors : state.Mirrors place shown other) (elementSmall : element.Scoped state.table.size)
    (small : callableTy.Scoped state.table.size)
    (shows : Shows shown
      ((Expr.map array callable).freeNamesUnder (context.scopes.map LambdaScope.bound))) :
    Mirrored place shown state (mapTy context array callable element callableTy state)
      (mapTy (context.rename place) array callable (element.rename place)
        (callableTy.rename place) other) := by
  rw [Expr.freeNamesUnder, shows_append] at shows
  rw [mapTy, mapTy]
  refine .bind (head_mirrored mirrors small) fun outcome middle middleOther _ mirrors grows
    outcomeSmall => ?_
  have grown := elementSmall.mono grows
  have unknown := unifyResult_mirrored mirrors (List.forall_mem_singleton.mpr grown) outcomeSmall
    shows.2 Ty.scoped_array.mpr fun _ => Ty.rename_array _
  cases outcome with
  | function params result =>
      obtain ⟨paramsSmall, resultSmall⟩ := Ty.scoped_function.mp outcomeSmall
      rw [Filling.rename_ty, Ty.rename_function]
      cases params with
      | nil => exact .unblamed rfl
      | cons param others =>
          cases others with
          | nil =>
              refine .bind (unify_mirrored mirrors (paramsSmall param List.mem_cons_self) grown
                (TypeContext.culprit_rename array) (culprit_blames shows.1))
                  fun _ last lastOther _ mirrors grows _ => ?_
              exact .pure mirrors (Ty.scoped_array.mpr (Ty.Scoped.mono resultSmall grows))
          | cons second rest =>
              simp only [List.map_cons, List.length_cons, List.length_map]
              exact .unblamed rfl
  | _ => exact unknown

/-! ### Expressions -/

section Forms

variable (place shown)

/-- Inference of an expression that only names shown inputs takes the same steps in every state that
mirrors another one. -/
def MirrorsExpr (context : TypeContext) (expr : Expr) : Prop :=
  ∀ state other : InferState, state.Mirrors place shown other →
    context.Scoped state.table.size →
    Shows shown (expr.freeNamesUnder (context.scopes.map LambdaScope.bound)) →
      Mirrored place shown state (exprTy context expr state)
        (exprTy (context.rename place) expr other)

def MirrorsExprs (context : TypeContext) (exprs : List Expr) : Prop :=
  ∀ state other : InferState, state.Mirrors place shown other →
    context.Scoped state.table.size →
    Shows shown (Expr.freeNamesUnderList (context.scopes.map LambdaScope.bound) exprs) →
      Mirrored place shown state (exprTys context exprs state)
        (exprTys (context.rename place) exprs other)

def MirrorsOperands (context : TypeContext) (exprs : List Expr) : Prop :=
  ∀ (state other : InferState) (params : List Ty), state.Mirrors place shown other →
    context.Scoped state.table.size → (∀ ty ∈ params, ty.Scoped state.table.size) →
    Shows shown (Expr.freeNamesUnderList (context.scopes.map LambdaScope.bound) exprs) →
      Mirrored place shown state (checkOperands context params exprs state)
        (checkOperands (context.rename place) (params.map (Ty.rename place)) exprs other)

variable {place shown}

theorem primitive_mirrored (closed : context.registry.Closed) {name : String}
    {operands : List Expr} (checks : MirrorsOperands place shown context operands) :
    MirrorsExpr place shown context (.primitive name operands) := by
  intro state other mirrors small shows
  have registry : (context.rename place).registry = context.registry := rfl
  rw [exprTy, exprTy, registry]
  cases found : context.registry.signature? name with
  | none => exact .unblamed rfl
  | some signature =>
      refine .bind (instantiate_mirrored mirrors (closed name signature found))
        fun opened middle middleOther _ mirrors grows openedSmall => ?_
      obtain ⟨params, result⟩ := opened
      obtain ⟨paramsSmall, resultSmall⟩ := openedSmall
      have renamed : Filling.rename place (params, result) =
          (params.map (Ty.rename place), result.rename place) := rfl
      simp only [renamed, List.length_map, List.isEmpty_map]
      cases operands with
      | nil =>
          have bareSmall : Filling.Scoped middle.table.size (bareTy params result) :=
            bareTy_scoped paramsSmall resultSmall
          have bare := Mirrored.pure mirrors bareSmall
          have filled : Filling.rename place (bareTy params result) =
              bareTy (params.map (Ty.rename place)) (result.rename place) :=
            bareTy_fill params result _
          rw [filled, bareTy, bareTy, List.isEmpty_map] at bare
          exact bare
      | cons operand rest =>
          simp only [List.isEmpty_cons, Bool.false_eq_true, if_false]
          by_cases lengths : (operand :: rest).length = params.length
          · rw [if_neg (not_not.mpr lengths), if_neg (not_not.mpr lengths)]
            refine .bind (checks middle middleOther params mirrors (small.mono grows) paramsSmall
              shows) fun _ last lastOther _ mirrors grows _ => ?_
            exact .pure mirrors (Filling.mono resultSmall grows)
          · rw [if_pos lengths, if_pos lengths]
            exact .unblamed rfl

theorem apply_mirrored {operator : Expr} {operands : List Expr}
    (first : MirrorsExpr place shown context operator)
    (others : MirrorsExprs place shown context operands) :
    MirrorsExpr place shown context (.apply operator operands) := by
  intro state other mirrors small shows
  have parts := shows
  rw [Expr.freeNamesUnder, shows_append] at parts
  rw [exprTy_apply, exprTy_apply]
  refine .bind (first state other mirrors small parts.1)
    fun operatorTy middle middleOther _ mirrors grows operatorSmall => ?_
  refine .bind (others middle middleOther mirrors (small.mono grows) parts.2)
    fun types last lastOther _ mirrors grows typesSmall => ?_
  exact applyTy_mirrored mirrors (Ty.Scoped.mono operatorSmall grows) typesSmall shows

theorem map_mirrored {array callable : Expr} (first : MirrorsExpr place shown context array)
    (second : MirrorsExpr place shown context callable) :
    MirrorsExpr place shown context (.map array callable) := by
  intro state other mirrors small shows
  have parts := shows
  rw [Expr.freeNamesUnder, shows_append] at parts
  rw [exprTy_map, exprTy_map]
  refine .bind (first state other mirrors small parts.1)
    fun arrayTy middle middleOther _ mirrors grows arraySmall => ?_
  replace small := small.mono grows
  refine .bind (freshTy_mirrored mirrors)
    fun element middle middleOther _ mirrors grows elementSmall => ?_
  replace small := small.mono grows
  refine .bind (unify_mirrored mirrors (Ty.scoped_array.mpr elementSmall)
    (Ty.Scoped.mono arraySmall grows) (TypeContext.culprit_rename array) (culprit_blames parts.1))
      fun _ middle middleOther _ mirrors grows _ => ?_
  replace elementSmall := Ty.Scoped.mono elementSmall grows
  refine .bind (second middle middleOther mirrors (small.mono grows) parts.2)
    fun callableTy last lastOther _ mirrors grows callableSmall => ?_
  exact mapTy_mirrored mirrors (elementSmall.mono grows) callableSmall shows

theorem lambda_mirrored {params : List String} {body : Expr}
    (inside : ∀ types, MirrorsExpr place shown (context.enter params types) body) :
    MirrorsExpr place shown context (.lambda params body) := by
  intro state other mirrors small shows
  rw [exprTy, exprTy]
  simp only
  by_cases large : Expr.lambdaArity params body > Expr.maxArguments
  · rw [if_pos large, if_pos large]
    exact .unblamed rfl
  · rw [if_neg large, if_neg large]
    refine .bind (freshTys_mirrored mirrors _)
      fun types middle middleOther ran laterMirrors grows typesSmall => ?_
    have arity := (freshTys_steps mirrors.valid ran).2
    rw [Expr.freeNamesUnder, ← TypeContext.bound_enter arity] at shows
    have body := inside types middle middleOther laterMirrors
      ((small.mono grows).enter params typesSmall) shows
    rw [TypeContext.rename_enter] at body
    refine .bind body fun result last lastOther _ mirrors grows resultSmall => ?_
    have found : Filling.Scoped last.table.size (Ty.function types result) :=
      Ty.scoped_function.mpr
        ⟨fun ty member => (typesSmall ty member).mono grows, resultSmall⟩
    have told := Mirrored.pure mirrors found
    rwa [Filling.rename_ty, Ty.rename_function] at told

end Forms

mutual

theorem exprTy_mirrored {context : TypeContext} (closed : context.registry.Closed) (expr : Expr) :
    MirrorsExpr place shown context expr := by
  match expr with
  | .constant value =>
      intro state other mirrors _ _
      rw [exprTy, exprTy]
      exact valueTy_mirrored value mirrors
  | .variable name =>
      intro state other mirrors small shows
      rw [exprTy, exprTy]
      exact variableTy_mirrored mirrors small shows
  | .argument index =>
      intro state other mirrors small shows
      rw [exprTy, exprTy]
      exact argumentTy_mirrored mirrors small shows
  | .primitive name operands =>
      exact primitive_mirrored closed (checkOperands_mirrored closed operands)
  | .apply operator operands =>
      exact apply_mirrored (exprTy_mirrored closed operator) (exprTys_mirrored closed operands)
  | .map array callable =>
      exact map_mirrored (exprTy_mirrored closed array) (exprTy_mirrored closed callable)
  | .lambda params body =>
      exact lambda_mirrored fun types => @exprTy_mirrored (context.enter params types) closed body

theorem exprTys_mirrored {context : TypeContext} (closed : context.registry.Closed)
    (exprs : List Expr) : MirrorsExprs place shown context exprs := by
  match exprs with
  | [] =>
      intro state other mirrors _ _
      have nothing : Filling.Scoped state.table.size ([] : List Ty) :=
        fun _ member => nomatch member
      rw [exprTys, exprTys]
      exact .pure mirrors nothing
  | expr :: rest =>
      intro state other mirrors small shows
      rw [Expr.freeNamesUnderList, shows_append] at shows
      rw [exprTys, exprTys]
      refine .bind (exprTy_mirrored closed expr state other mirrors small shows.1)
        fun ty middle middleOther _ mirrors grows tySmall => ?_
      refine .bind (exprTys_mirrored closed rest middle middleOther mirrors (small.mono grows)
        shows.2) fun types last lastOther _ mirrors grows typesSmall => ?_
      have found : Filling.Scoped last.table.size (ty :: types) :=
        List.forall_mem_cons.mpr ⟨Ty.Scoped.mono tySmall grows, typesSmall⟩
      exact .pure mirrors found

theorem checkOperands_mirrored {context : TypeContext} (closed : context.registry.Closed)
    (exprs : List Expr) : MirrorsOperands place shown context exprs := by
  match exprs with
  | [] =>
      intro state other params mirrors _ _ _
      rw [checkOperands, checkOperands]
      exact .pure mirrors trivial
  | expr :: rest =>
      intro state other params mirrors small paramsSmall shows
      rw [Expr.freeNamesUnderList, shows_append] at shows
      cases params with
      | nil =>
          rw [List.map_nil, checkOperands, checkOperands]
          exact .pure mirrors trivial
      | cons param params =>
          rw [List.forall_mem_cons] at paramsSmall
          rw [List.map_cons, checkOperands, checkOperands]
          refine .bind (exprTy_mirrored closed expr state other mirrors small shows.1)
            fun ty middle middleOther _ mirrors grows tySmall => ?_
          replace small := small.mono grows
          have grownParams := fun ty member => Ty.Scoped.mono (paramsSmall.2 ty member) grows
          refine .bind (unify_mirrored mirrors (paramsSmall.1.mono grows) tySmall
            (TypeContext.culprit_rename expr) (culprit_blames shows.1))
              fun _ last lastOther _ mirrors grows _ => ?_
          exact checkOperands_mirrored closed rest last lastOther params mirrors
            (small.mono grows) (fun ty member => (grownParams ty member).mono grows) shows.2

end

end Infer

end NodeGraph
