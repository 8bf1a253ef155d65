import NodeGraph.Proofs.Typing.Deciding

/-!
Principal types. Inference decides the typing rules, along the expression: what it finds stands for
all types that the rules give, and if it fails they give none.
-/

namespace NodeGraph

theorem BaseType.admits_unique {kind other : BaseType} {value : Value}
    (admitted : kind.admits value = true) (also : other.admits value = true) : other = kind := by
  cases value <;> cases kind <;> simp only [admits, Bool.false_eq_true] at admitted <;>
    cases other <;> simp only [admits, Bool.false_eq_true] at also <;> rfl

theorem Value.hasType_base {value : Value} {kind : BaseType} (admitted : kind.admits value = true)
    {ty : Ty} : value.HasType ty ↔ ty = .base kind := by
  constructor
  · intro typed
    cases typed with
    | base also => rw [BaseType.admits_unique admitted also]
    | error message ty => cases kind <;> cases admitted
    | function callable ty => cases kind <;> cases admitted
    | array typed => cases kind <;> cases admitted
  · rintro rfl
    exact .base admitted

theorem Value.hasType_array {items : List Value} {ty : Ty} :
    (Value.array items).HasType ty ↔
      ∃ element, (∀ item ∈ items, item.HasType element) ∧ ty = .array element := by
  constructor
  · intro typed
    cases typed with
    | @base _ kind admitted => cases kind <;> cases admitted
    | array typed => exact ⟨_, typed, rfl⟩
  · rintro ⟨element, typed, rfl⟩
    exact .array typed

/-- The schemes of primitives have no variables. -/
def Registry.Closed (registry : Registry) : Prop :=
  ∀ name signature, registry.signature? name = some signature → signature.scheme.toTy.vars = []

namespace Infer

variable {known : Nat} {slots : Nat → Ty} {state : InferState} {context : TypeContext}

theorem base_decides (serves : state.Serves known) {value : Value} (kind : BaseType)
    (admitted : kind.admits value = true) :
    Decides known slots state (fun _ ty => value.HasType ty)
      ((pure (.base kind) : InferM Ty) state) :=
  (Decides.pure serves (Ty.scoped_base kind)).of_goal fun _ _ _ => Value.hasType_base admitted

mutual

theorem valueTy_decides (value : Value) {state : InferState} (serves : state.Serves known) :
    Decides known slots state (fun _ ty => value.HasType ty) (valueTy value state) := by
  match value with
  | .number real => rw [valueTy]; exact base_decides serves .number rfl
  | .integer whole => rw [valueTy]; exact base_decides serves .number rfl
  | .boolean truth => rw [valueTy]; exact base_decides serves .boolean rfl
  | .text string => rw [valueTy]; exact base_decides serves .text rfl
  | .point place => rw [valueTy]; exact base_decides serves .point rfl
  | .rect area => rw [valueTy]; exact base_decides serves .rect rfl
  | .color shade => rw [valueTy]; exact base_decides serves .color rfl
  | .image handle => rw [valueTy]; exact base_decides serves .image rfl
  | .error message =>
      rw [valueTy]
      exact (freshTy_decides serves).of_goal fun _ _ ty => iff_true_intro (.error message ty)
  | .function callable =>
      rw [valueTy]
      exact (freshTy_decides serves).of_goal fun _ _ ty => iff_true_intro (.function callable ty)
  | .array items =>
      rw [valueTy]
      refine Decides.of_goal ?_ fun _ _ _ => Value.hasType_array
      refine .bind (fun element vars ty =>
        (∀ item ∈ items, item.HasType (element.fill vars .generic)) ∧
          ty = .array (element.fill vars .generic)) (freshTy_decides serves) ?_ ?_ ?_
      · intro element middle _ told
        refine .bind (fun _ vars ty => ty = .array (element.fill vars .generic))
          (itemsTy_decides items told.serves told.small _) ?_ ?_ ?_
        · intro _ last _ checked
          refine (Decides.pure checked.serves ?_).of_goal fun vars _ ty => ?_
          · exact Ty.scoped_array.mpr (told.small.mono checked.extended.table.size)
          · exact Iff.rfl
        · exact fun _ vars typed ty same => ⟨typed, same⟩
        · rintro vars meets ty ⟨typed, rfl⟩
          refine ⟨(), typed, fun _ other agree _ => ?_⟩
          rw [told.small.fill_eq agree]
      · exact fun element vars _ ty ⟨typed, same⟩ => ⟨_, typed, same⟩
      · rintro vars meets ty ⟨element, typed, rfl⟩
        refine ⟨element, trivial, fun found other agree same => ?_⟩
        change found.fill other .generic = element at same
        rw [same]
        exact ⟨typed, rfl⟩

theorem itemsTy_decides (items : List Value) {state : InferState} (serves : state.Serves known)
    {element : Ty} (small : element.Scoped state.table.size) (culprit : Unit → Culprit) :
    Decides known slots state
      (fun vars _ => ∀ item ∈ items, item.HasType (element.fill vars .generic))
      (itemsTy culprit element items state) := by
  match items with
  | [] =>
      rw [itemsTy]
      exact (Decides.pure serves trivial).of_goal fun _ _ _ => by simp
  | item :: rest =>
      rw [itemsTy]
      refine .bind (fun ty vars _ => element.fill vars .generic = ty.fill vars .generic ∧
        ∀ item ∈ rest, item.HasType (element.fill vars .generic)) (valueTy_decides item serves)
        ?_ ?_ ?_
      · intro ty middle _ told
        have elementSmall := small.mono told.extended.table.size
        refine .bind (fun _ vars _ => ∀ item ∈ rest, item.HasType (element.fill vars .generic))
          (unify_decides told.serves elementSmall told.small culprit) ?_ ?_ ?_
        · intro _ last _ unified
          exact itemsTy_decides rest unified.serves
            (elementSmall.mono unified.extended.table.size) culprit
        · exact fun _ vars equal _ typed => ⟨equal, typed⟩
        · rintro vars meets _ ⟨equal, typed⟩
          refine ⟨(), equal, fun _ other agree _ => ?_⟩
          rw [elementSmall.fill_eq agree]
          exact typed
      · rintro ty vars typed _ ⟨equal, others⟩
        refine List.forall_mem_cons.mpr ⟨?_, others⟩
        rw [equal]
        exact typed
      · intro vars meets _ typed
        obtain ⟨first, others⟩ := List.forall_mem_cons.mp typed
        refine ⟨_, first, fun found other agree same => ?_⟩
        rw [small.fill_eq agree]
        exact ⟨same.symm, others⟩

end

theorem variableTy_decides (serves : state.Serves known) (small : context.Scoped state.table.size)
    (name : String) :
    Decides known slots state
      (fun vars ty => HasType known slots (context.fill vars) (.variable name) ty)
      (variableTy context name state) := by
  rw [variableTy]
  cases bound : context.scoped? name with
  | some ty =>
      have filled : ∀ vars, (context.fill vars).scoped? name = some (ty.fill vars .generic) := by
        intro vars
        rw [context.fill_scoped?, bound, Option.map_some]
      refine (Decides.pure serves (small.scoped? bound)).of_goal fun vars _ outcome => ⟨?_, ?_⟩
      · intro typed
        have shadows := filled vars
        cases typed with
        | bound found => exact Option.some.inj (found.symm.trans shadows)
        | input free => rw [free] at shadows; cases shadows
        | param free => rw [free] at shadows; cases shadows
      · rintro rfl
        exact .bound (filled vars)
  | none =>
      have free : ∀ vars, (context.fill vars).scoped? name = none := by
        intro vars
        rw [context.fill_scoped?, bound, Option.map_none]
      cases designates : Expr.inputSlot? name with
      | some slot =>
          refine (input_decides serves slot).of_goal fun vars _ ty => ⟨?_, ?_⟩
          · intro typed
            have unbound := free vars
            cases typed with
            | bound found => rw [found] at unbound; cases unbound
            | input _ given readable =>
                rw [designates] at given
                cases given
                exact ⟨readable, rfl⟩
            | param _ other => rw [designates] at other; cases other
          · rintro ⟨readable, rfl⟩
            exact .input (free vars) designates readable
      | none =>
          have params : ∀ vars, (context.fill vars).params.lookup name =
              (context.params.lookup name).map (Ty.fill vars .generic) := fun vars =>
            TypeContext.lookup_map _ context.params name
          -- Only a parameter is left, and the context has it or has not.
          have only : ∀ vars ty, HasType known slots (context.fill vars) (.variable name) ty ↔
              (context.fill vars).params.lookup name = some ty := by
            intro vars ty
            constructor
            · intro typed
              have unbound := free vars
              cases typed with
              | bound found => rw [found] at unbound; cases unbound
              | input _ given => rw [designates] at given; cases given
              | param _ _ found => exact found
            · exact .param (free vars) designates
          cases found : context.params.lookup name with
          | some ty =>
              refine (Decides.pure serves (small.lookup found)).of_goal fun vars _ outcome => ?_
              rw [only, params, found, Option.map_some, Option.some.injEq, eq_comm]
              rfl
          | none =>
              refine .refuted fun vars _ ty typed => ?_
              rw [only, params, found] at typed
              cases typed

theorem argumentTy_decides (serves : state.Serves known) (small : context.Scoped state.table.size)
    (index : UInt64) :
    Decides known slots state
      (fun vars ty => HasType known slots (context.fill vars) (.argument index) ty)
      (argumentTy context index.toNat state) := by
  rw [argumentTy]
  cases scopes : context.scopes with
  | nil =>
      have outside : ∀ vars, (context.fill vars).scopes = [] := fun vars => by
        rw [TypeContext.fill, scopes, List.map_nil]
      refine (input_decides serves index.toNat).of_goal fun vars _ ty => ⟨?_, ?_⟩
      · intro typed
        cases typed with
        | outerArgument _ readable => exact ⟨readable, rfl⟩
        | argument inside => rw [outside] at inside; cases inside
      · rintro ⟨readable, rfl⟩
        exact .outerArgument (outside vars) readable
  | cons scope outer =>
      have inside : ∀ vars, (context.fill vars).scopes =
          scope.fill vars :: outer.map (LambdaScope.fill vars) := fun vars => by
        rw [TypeContext.fill, scopes, List.map_cons]
      have passed : ∀ vars, (scope.fill vars).arguments[index.toNat]? =
          scope.arguments[index.toNat]?.map (Ty.fill vars .generic) := fun vars => by
        rw [LambdaScope.fill, List.getElem?_map]
      have only : ∀ vars ty, HasType known slots (context.fill vars) (.argument index) ty ↔
          (scope.fill vars).arguments[index.toNat]? = some ty := by
        intro vars ty
        constructor
        · intro typed
          cases typed with
          | outerArgument outside => rw [inside] at outside; cases outside
          | argument within found =>
              rw [inside] at within
              cases within
              exact found
        · exact .argument (inside vars)
      simp only
      cases found : scope.arguments[index.toNat]? with
      | some ty =>
          have member := List.mem_of_getElem? found
          have tySmall := small.arguments scope (by rw [scopes]; exact List.mem_cons_self) ty member
          refine (Decides.pure serves tySmall).of_goal fun vars _ outcome => ?_
          rw [only, passed, found, Option.map_some, Option.some.injEq, eq_comm]
          rfl
      | none =>
          refine .refuted fun vars _ ty typed => ?_
          rw [only, passed, found] at typed
          cases typed

theorem map_fill_eq {types : List Ty} {size : Nat} {vars other : Nat → Ty}
    (small : ∀ ty ∈ types, ty.Scoped size) (agree : Ty.AgreeBelow size vars other) :
    types.map (Ty.fill other .generic) = types.map (Ty.fill vars .generic) :=
  List.map_congr_left fun ty member => (small ty member).fill_eq agree

theorem unifyOperands_decides {params types : List Ty} {operands : List Expr}
    (serves : state.Serves known) (paramsSmall : ∀ ty ∈ params, ty.Scoped state.table.size)
    (typesSmall : ∀ ty ∈ types, ty.Scoped state.table.size)
    (lengths : params.length = types.length) (many : types.length = operands.length) :
    Decides known slots state
      (fun vars _ => params.map (Ty.fill vars .generic) = types.map (Ty.fill vars .generic))
      (unifyOperands context params types operands state) := by
  induction operands generalizing params types state with
  | nil =>
      obtain rfl := List.length_eq_zero_iff.mp many
      obtain rfl := List.length_eq_zero_iff.mp lengths
      exact (Decides.pure serves trivial).of_goal fun _ _ _ => by simp
  | cons operand operands ih =>
      cases types with
      | nil => cases many
      | cons found types =>
          cases params with
          | nil => cases lengths
          | cons param params =>
              rw [List.forall_mem_cons] at paramsSmall typesSmall
              refine .bind (fun _ vars _ => params.map (Ty.fill vars .generic) =
                types.map (Ty.fill vars .generic))
                (unify_decides serves paramsSmall.1 typesSmall.1 _) ?_ ?_ ?_
              · intro _ middle _ told
                have grows := told.extended.table.size
                exact ih told.serves (fun ty member => (paramsSmall.2 ty member).mono grows)
                  (fun ty member => (typesSmall.2 ty member).mono grows)
                  (Nat.succ_inj.mp lengths) (Nat.succ_inj.mp many)
              · intro _ vars equal _ others
                rw [List.map_cons, List.map_cons, others]
                exact congrArg (· :: _) equal
              · intro vars meets _ equal
                rw [List.map_cons, List.map_cons, List.cons.injEq] at equal
                refine ⟨(), equal.1, fun _ other agree _ => ?_⟩
                rw [map_fill_eq paramsSmall.2 agree, map_fill_eq typesSmall.2 agree]
                exact equal.2

theorem unifyResult_decides {types : List Ty} {callable : Ty} {wrap : Ty → Ty}
    (serves : state.Serves known) (typesSmall : ∀ ty ∈ types, ty.Scoped state.table.size)
    (small : callable.Scoped state.table.size) (culprit : Unit → Culprit)
    (wrapSmall : ∀ {size : Nat} {ty : Ty}, ty.Scoped size → (wrap ty).Scoped size)
    (wrapFill : ∀ (vars : Nat → Ty) (ty : Ty),
      (wrap ty).fill vars .generic = wrap (ty.fill vars .generic)) :
    Decides known slots state
      (fun vars ty => ∃ result, callable.fill vars .generic =
        .function (types.map (Ty.fill vars .generic)) result ∧ ty = wrap result)
      ((do
        let result ← freshTy
        unify (.function types result) callable culprit
        return wrap result : InferM Ty) state) := by
  refine .bind (fun result vars ty => Ty.function (types.map (Ty.fill vars .generic))
      (result.fill vars .generic) = callable.fill vars .generic ∧
        ty = wrap (result.fill vars .generic)) (freshTy_decides serves) ?_ ?_ ?_
  · intro result middle _ told
    have grows := told.extended.table.size
    refine .bind (fun _ vars ty => ty = wrap (result.fill vars .generic))
      (unify_decides told.serves (Ty.scoped_function.mpr
        ⟨fun ty member => (typesSmall ty member).mono grows, told.small⟩) (small.mono grows) _)
      ?_ ?_ ?_
    · intro _ last _ unified
      have resultSmall : result.Scoped last.table.size :=
        Filling.mono told.small unified.extended.table.size
      refine (Decides.pure unified.serves (wrapSmall resultSmall)).of_goal fun vars _ ty => ?_
      rw [← wrapFill]
      rfl
    · intro _ vars equal ty same
      rw [Ty.fill_function] at equal
      exact ⟨equal, same⟩
    · rintro vars meets ty ⟨equal, rfl⟩
      refine ⟨(), by rw [Ty.fill_function, equal], fun _ last agree _ => ?_⟩
      exact congrArg wrap (Filling.fill_eq told.small agree).symm
  · rintro result vars _ ty ⟨equal, rfl⟩
    exact ⟨_, equal.symm, rfl⟩
  · rintro vars meets ty ⟨wanted, equal, rfl⟩
    refine ⟨wanted, trivial, fun result last agree same => ?_⟩
    change result.fill last .generic = wanted at same
    rw [same, small.fill_eq agree, equal, map_fill_eq typesSmall agree]
    exact ⟨rfl, rfl⟩

theorem applyTy_decides {operator : Expr} {operands : List Expr} {operatorTy : Ty}
    {types : List Ty} (serves : state.Serves known) (small : operatorTy.Scoped state.table.size)
    (typesSmall : ∀ ty ∈ types, ty.Scoped state.table.size)
    (many : types.length = operands.length) :
    Decides known slots state
      (fun vars ty => operatorTy.fill vars .generic =
        .function (types.map (Ty.fill vars .generic)) ty)
      (applyTy context operator operands operatorTy types state) := by
  rw [applyTy]
  refine .bind (fun outcome vars ty => outcome.fill vars .generic =
      .function (types.map (Ty.fill vars .generic)) ty) (head_decides serves small) ?_ ?_ ?_
  · intro outcome middle accepted told
    clear accepted
    have grows := told.extended.table.size
    have grownTypes := fun ty member => (typesSmall ty member).mono grows
    have outcomeSmall : outcome.Scoped middle.table.size := told.small
    split
    · rename_i params result
      obtain ⟨paramsSmall, resultSmall⟩ := Ty.scoped_function.mp outcomeSmall
      by_cases lengths : params.length = types.length
      · rw [if_neg (not_not.mpr lengths)]
        refine .bind (fun _ vars ty => ty = result.fill vars .generic)
          (unifyOperands_decides told.serves paramsSmall grownTypes lengths many) ?_ ?_ ?_
        · intro _ last _ unified
          exact Decides.pure unified.serves (resultSmall.mono unified.extended.table.size)
        · rintro _ vars equal ty rfl
          rw [Ty.fill_function, equal]
        · intro vars meets ty equal
          rw [Ty.fill_function, Ty.function.injEq] at equal
          exact ⟨(), equal.1, fun _ last agree _ => by rw [← equal.2, resultSmall.fill_eq agree]⟩
      · rw [if_pos lengths]
        refine .refuted fun vars meets ty equal => lengths ?_
        rw [Ty.fill_function, Ty.function.injEq] at equal
        simpa using congrArg List.length equal.1
    · refine (unifyResult_decides told.serves grownTypes outcomeSmall _ id
        fun _ _ => rfl).of_goal fun vars _ ty => ?_
      simp
  · intro outcome vars same ty equal
    rw [← same]
    exact equal
  · intro vars meets ty equal
    refine ⟨_, rfl, fun outcome last agree same => ?_⟩
    rw [map_fill_eq typesSmall agree, ← equal]
    exact same

theorem mapTy_decides {array callable : Expr} {element callableTy : Ty}
    (serves : state.Serves known) (elementSmall : element.Scoped state.table.size)
    (small : callableTy.Scoped state.table.size) :
    Decides known slots state
      (fun vars ty => ∃ result, callableTy.fill vars .generic =
        .function [element.fill vars .generic] result ∧ ty = .array result)
      (mapTy context array callable element callableTy state) := by
  rw [mapTy]
  refine .bind (fun outcome vars ty => ∃ result, outcome.fill vars .generic =
      .function [element.fill vars .generic] result ∧ ty = .array result)
    (head_decides serves small) ?_ ?_ ?_
  · intro outcome middle accepted told
    clear accepted
    have grown := elementSmall.mono told.extended.table.size
    have outcomeSmall : outcome.Scoped middle.table.size := told.small
    split
    · rename_i param result
      obtain ⟨paramsSmall, resultSmall⟩ := Ty.scoped_function.mp outcomeSmall
      refine .bind (fun _ vars ty => ty = .array (result.fill vars .generic))
        (unify_decides told.serves (paramsSmall param List.mem_cons_self) grown _) ?_ ?_ ?_
      · intro _ last _ unified
        refine (Decides.pure unified.serves
          (Ty.scoped_array.mpr (resultSmall.mono unified.extended.table.size))).of_goal
            fun vars _ ty => ?_
        rw [← Ty.fill_array]
        rfl
      · rintro _ vars equal ty rfl
        exact ⟨_, by rw [Ty.fill_function, List.map_singleton, equal], rfl⟩
      · rintro vars meets ty ⟨wanted, equal, rfl⟩
        simp only [Ty.fill_function, List.map_singleton, Ty.function.injEq, List.cons.injEq,
          and_true] at equal
        exact ⟨(), equal.1, fun _ last agree _ => by rw [← equal.2, resultSmall.fill_eq agree]⟩
    · rename_i params result several
      refine .refuted fun vars meets ty ⟨wanted, equal, _⟩ => ?_
      rw [Ty.fill_function, Ty.function.injEq] at equal
      obtain ⟨param, rfl, _⟩ := List.map_eq_singleton_iff.mp equal.1
      exact several param rfl
    · exact unifyResult_decides told.serves (List.forall_mem_singleton.mpr grown) outcomeSmall _
        Ty.scoped_array.mpr fun _ _ => Ty.fill_array _
  · intro outcome vars same ty equal
    rw [← same]
    exact equal
  · rintro vars meets ty ⟨wanted, equal, rfl⟩
    refine ⟨_, rfl, fun outcome last agree same => ⟨wanted, ?_, rfl⟩⟩
    rw [elementSmall.fill_eq agree, ← equal]
    exact same

theorem exprTys_length {exprs : List Expr} {later : InferState} {types : List Ty}
    (accepted : exprTys context exprs state = .ok (types, later)) :
    types.length = exprs.length := by
  induction exprs generalizing state types with
  | nil =>
      rw [exprTys] at accepted
      cases accepted
      rfl
  | cons expr rest ih =>
      rw [exprTys] at accepted
      obtain ⟨ty, middle, _, accepted⟩ := bind_ok accepted
      obtain ⟨others, last, second, third⟩ := bind_ok accepted
      cases third
      rw [List.length_cons, List.length_cons, ih second]

section Forms

variable (known slots)

/-- Inference of an expression decides the rules for it, in every state that serves it. -/
def DecidesExpr (context : TypeContext) (expr : Expr) : Prop :=
  ∀ state : InferState, state.Serves known → context.Scoped state.table.size →
    Decides known slots state (fun vars ty => HasType known slots (context.fill vars) expr ty)
      (exprTy context expr state)

def DecidesExprs (context : TypeContext) (exprs : List Expr) : Prop :=
  ∀ state : InferState, state.Serves known → context.Scoped state.table.size →
    Decides known slots state
      (fun vars types => HasTypes known slots (context.fill vars) exprs types)
      (exprTys context exprs state)

def DecidesOperands (context : TypeContext) (exprs : List Expr) : Prop :=
  ∀ (state : InferState) (params : List Ty), state.Serves known →
    context.Scoped state.table.size → (∀ ty ∈ params, ty.Scoped state.table.size) →
      exprs.length = params.length →
        Decides known slots state
          (fun vars _ => HasTypes known slots (context.fill vars) exprs
            (params.map (Ty.fill vars .generic)))
          (checkOperands context params exprs state)

variable {known slots}

theorem bareTy_fill (params : List Ty) (result : Ty) (vars : Nat → Ty) :
    (bareTy params result).fill vars .generic =
      bareTy (params.map (Ty.fill vars .generic)) (result.fill vars .generic) := by
  cases params <;> simp [bareTy]

theorem bareTy_scoped {params : List Ty} {result : Ty} {size : Nat}
    (paramsSmall : ∀ ty ∈ params, ty.Scoped size) (resultSmall : result.Scoped size) :
    (bareTy params result).Scoped size := by
  rw [bareTy]
  split
  · exact resultSmall
  · exact Ty.scoped_function.mpr ⟨paramsSmall, resultSmall⟩

theorem primitive_decides (closed : context.registry.Closed) {name : String}
    {operands : List Expr} (checks : DecidesOperands known slots context operands) :
    DecidesExpr known slots context (.primitive name operands) := by
  intro state serves small
  rw [exprTy]
  cases found : context.registry.signature? name with
  | none => exact .refuted fun vars _ ty => not_hasType_unknown found
  | some signature =>
      refine Decides.of_goal ?_ fun vars _ ty => hasType_primitive found
      refine .bind (fun types vars ty =>
          (operands = [] ∧
            ty = bareTy (types.1.map (Ty.fill vars .generic)) (types.2.fill vars .generic)) ∨
          (operands ≠ [] ∧ ty = types.2.fill vars .generic ∧
            HasTypes known slots (context.fill vars) operands
              (types.1.map (Ty.fill vars .generic))))
        (instantiate_decides serves (closed name signature found)) ?_ ?_ ?_
      · rintro ⟨params, result⟩ middle _ told
        obtain ⟨paramsSmall, resultSmall⟩ := told.small
        have grown := small.mono told.extended.table.size
        cases operands with
        | nil =>
            refine (Decides.pure told.serves (bareTy_scoped paramsSmall resultSmall)).of_goal
              fun vars _ ty => ?_
            simp only [true_and, ne_eq, not_true_eq_false, false_and, or_false, ← bareTy_fill]
            rfl
        | cons operand rest =>
            simp only [List.isEmpty_cons, Bool.false_eq_true, if_false]
            by_cases lengths : (operand :: rest).length = params.length
            · rw [if_neg (not_not.mpr lengths)]
              refine .bind (fun _ vars ty => ty = result.fill vars .generic)
                (checks middle params told.serves grown paramsSmall lengths) ?_ ?_ ?_
              · intro _ last _ checked
                exact Decides.pure checked.serves
                  (Filling.mono resultSmall checked.extended.table.size)
              · exact fun _ vars typed ty same => Or.inr ⟨List.cons_ne_nil _ _, same, typed⟩
              · rintro vars meets ty (⟨impossible, _⟩ | ⟨_, rfl, typed⟩)
                · cases impossible
                · exact ⟨(), typed, fun _ other agree _ =>
                    (Filling.fill_eq resultSmall agree).symm⟩
            · rw [if_pos lengths]
              refine .refuted fun vars meets ty reached => lengths ?_
              rcases reached with ⟨impossible, _⟩ | ⟨_, _, typed⟩
              · cases impossible
              · simpa using typed.length.symm
      · rintro ⟨params, result⟩ vars ⟨generics, paramsSame, resultSame⟩ ty reached
        refine ⟨generics, ?_⟩
        rw [← paramsSame, ← resultSame]
        exact reached
      · rintro vars meets ty ⟨generics, reached⟩
        refine ⟨(_, _), ⟨generics, rfl, rfl⟩, fun ⟨params, result⟩ other agree same => ?_⟩
        obtain ⟨paramsSame, resultSame⟩ := Prod.mk.inj same
        change params.map (Ty.fill other .generic) = _ at paramsSame
        change result.fill other .generic = _ at resultSame
        rw [paramsSame, resultSame, small.fill_eq agree]
        exact reached

theorem apply_decides {operator : Expr} {operands : List Expr}
    (decides : DecidesExpr known slots context operator)
    (decidesAll : DecidesExprs known slots context operands) :
    DecidesExpr known slots context (.apply operator operands) := by
  intro state serves small
  refine Decides.of_goal ?_ fun _ _ _ => hasType_apply
  rw [exprTy_apply]
  refine .bind (fun operatorTy vars ty => ∃ types, operatorTy.fill vars .generic =
      .function types ty ∧ HasTypes known slots (context.fill vars) operands types)
    (decides state serves small) ?_ ?_ ?_
  · intro operatorTy middle _ told
    refine .bind (fun types vars ty => operatorTy.fill vars .generic =
        .function (types.map (Ty.fill vars .generic)) ty)
      (decidesAll middle told.serves (small.mono told.extended.table.size)) ?_ ?_ ?_
    · intro types last accepted toldAll
      exact applyTy_decides toldAll.serves
        (Filling.mono told.small toldAll.extended.table.size) toldAll.small
        (exprTys_length accepted)
    · exact fun types vars typed ty equal => ⟨_, equal, typed⟩
    · rintro vars meets ty ⟨types, equal, typed⟩
      refine ⟨types, typed, fun found other agree same => ?_⟩
      change found.map (Ty.fill other .generic) = types at same
      rw [same, ← equal]
      exact Filling.fill_eq told.small agree
  · rintro operatorTy vars typed ty ⟨types, equal, all⟩
    refine ⟨types, ?_, all⟩
    rw [← equal]
    exact typed
  · rintro vars meets ty ⟨types, typed, all⟩
    refine ⟨_, typed, fun found other agree same => ⟨types, same, ?_⟩⟩
    rwa [small.fill_eq agree]

theorem items_decides {array callable : Expr} {arrayTy : Ty}
    (decides : DecidesExpr known slots context callable) (serves : state.Serves known)
    (small : context.Scoped state.table.size) (arraySmall : arrayTy.Scoped state.table.size) :
    Decides known slots state
      (fun vars ty => ∃ element result, arrayTy.fill vars .generic = .array element ∧
        HasType known slots (context.fill vars) callable (.function [element] result) ∧
        ty = .array result)
      ((do
        let element ← freshTy
        unify (.array element) arrayTy fun _ => context.culprit array
        let callableTy ← exprTy context callable
        mapTy context array callable element callableTy : InferM Ty) state) := by
  refine .bind (fun element vars ty =>
      Ty.array (element.fill vars .generic) = arrayTy.fill vars .generic ∧
        ∃ result, HasType known slots (context.fill vars) callable
          (.function [element.fill vars .generic] result) ∧ ty = .array result)
    (freshTy_decides serves) ?_ ?_ ?_
  · intro element middle _ told
    have elementSmall : element.Scoped middle.table.size := told.small
    have grown := small.mono told.extended.table.size
    refine .bind (fun _ vars ty => ∃ result, HasType known slots (context.fill vars) callable
        (.function [element.fill vars .generic] result) ∧ ty = .array result)
      (unify_decides told.serves (Ty.scoped_array.mpr elementSmall)
        (arraySmall.mono told.extended.table.size) _) ?_ ?_ ?_
    · intro _ last _ unified
      have lastSmall := elementSmall.mono unified.extended.table.size
      have lastContext := grown.mono unified.extended.table.size
      refine .bind (fun callableTy vars ty => ∃ result, callableTy.fill vars .generic =
          .function [element.fill vars .generic] result ∧ ty = .array result)
        (decides last unified.serves lastContext) ?_ ?_ ?_
      · intro callableTy final _ called
        exact mapTy_decides called.serves (lastSmall.mono called.extended.table.size) called.small
      · rintro callableTy vars typed ty ⟨result, equal, same⟩
        refine ⟨result, ?_, same⟩
        rw [← equal]
        exact typed
      · rintro vars meets ty ⟨result, typed, same⟩
        refine ⟨_, typed, fun callableTy other agree equal => ⟨result, ?_, same⟩⟩
        rw [lastSmall.fill_eq agree]
        exact equal
    · intro _ vars equal ty reached
      rw [Ty.fill_array] at equal
      exact ⟨equal, reached⟩
    · rintro vars meets ty ⟨equal, result, typed, same⟩
      refine ⟨(), by rw [Ty.fill_array, equal], fun _ other agree _ => ⟨result, ?_, same⟩⟩
      rwa [elementSmall.fill_eq agree, grown.fill_eq agree]
  · rintro element vars _ ty ⟨equal, result, typed, same⟩
    exact ⟨_, result, equal.symm, typed, same⟩
  · rintro vars meets ty ⟨element, result, equal, typed, same⟩
    refine ⟨element, trivial, fun found other agree filled => ?_⟩
    change found.fill other .generic = element at filled
    rw [filled, arraySmall.fill_eq agree, small.fill_eq agree]
    exact ⟨equal.symm, result, typed, same⟩

theorem map_decides {array callable : Expr} (decides : DecidesExpr known slots context array)
    (called : DecidesExpr known slots context callable) :
    DecidesExpr known slots context (.map array callable) := by
  intro state serves small
  refine Decides.of_goal ?_ fun _ _ _ => hasType_map
  rw [exprTy_map]
  refine .bind (fun arrayTy vars ty => ∃ element result, arrayTy.fill vars .generic =
      .array element ∧ HasType known slots (context.fill vars) callable
        (.function [element] result) ∧ ty = .array result) (decides state serves small) ?_ ?_ ?_
  · intro arrayTy middle _ told
    exact items_decides called told.serves (small.mono told.extended.table.size) told.small
  · rintro arrayTy vars typed ty ⟨element, result, equal, reached⟩
    refine ⟨element, result, ?_, reached⟩
    rw [← equal]
    exact typed
  · rintro vars meets ty ⟨element, result, typed, reached⟩
    refine ⟨_, typed, fun found other agree same => ⟨element, result, same, ?_⟩⟩
    rwa [small.fill_eq agree]

theorem lambda_decides {params : List String} {body : Expr}
    (decides : ∀ types, DecidesExpr known slots (context.enter params types) body) :
    DecidesExpr known slots context (.lambda params body) := by
  intro state serves small
  refine Decides.of_goal ?_ fun _ _ _ => hasType_lambda
  rw [exprTy]
  simp only
  by_cases large : Expr.lambdaArity params body > Expr.maxArguments
  · rw [if_pos large]
    refine .refuted fun vars meets ty ⟨arguments, result, arity, bounded, _⟩ => ?_
    omega
  · rw [if_neg large]
    refine .bind (fun arguments vars ty => ∃ result, HasType known slots
        ((context.fill vars).enter params (arguments.map (Ty.fill vars .generic))) body result ∧
          ty = .function (arguments.map (Ty.fill vars .generic)) result)
      (freshTys_decides serves _) ?_ ?_ ?_
    · intro arguments middle _ told
      have argumentsSmall : ∀ ty ∈ arguments, ty.Scoped middle.table.size := told.small
      have inside := (small.mono told.extended.table.size).enter params argumentsSmall
      refine .bind (fun result vars ty => ty =
          .function (arguments.map (Ty.fill vars .generic)) (result.fill vars .generic))
        (decides arguments middle told.serves inside) ?_ ?_ ?_
      · intro result last _ typed
        have grows := typed.extended.table.size
        refine (Decides.pure typed.serves (Ty.scoped_function.mpr
          ⟨fun ty member => (argumentsSmall ty member).mono grows, typed.small⟩)).of_goal
            fun vars _ ty => ?_
        rw [← Ty.fill_function]
        rfl
      · rintro result vars typed ty rfl
        rw [← TypeContext.fill_enter]
        exact ⟨_, typed, rfl⟩
      · rintro vars meets ty ⟨result, typed, rfl⟩
        rw [← TypeContext.fill_enter] at typed
        refine ⟨result, typed, fun found other agree same => ?_⟩
        change found.fill other .generic = result at same
        rw [same, map_fill_eq argumentsSmall agree]
    · rintro arguments vars arity ty ⟨result, typed, rfl⟩
      change (arguments.map (Ty.fill vars .generic)).length = _ at arity
      exact ⟨_, result, arity, by omega, typed, rfl⟩
    · rintro vars meets ty ⟨arguments, result, arity, _, typed, rfl⟩
      refine ⟨arguments, arity, fun found other agree same => ?_⟩
      change found.map (Ty.fill other .generic) = arguments at same
      rw [same, small.fill_eq agree]
      exact ⟨result, typed, rfl⟩

theorem exprs_decide_cons {expr : Expr} {rest : List Expr}
    (decides : DecidesExpr known slots context expr)
    (decidesAll : DecidesExprs known slots context rest) :
    DecidesExprs known slots context (expr :: rest) := by
  intro state serves small
  refine Decides.of_goal ?_ fun _ _ _ => hasTypes_cons
  rw [exprTys]
  refine .bind (fun ty vars types => ∃ others, types = ty.fill vars .generic :: others ∧
      HasTypes known slots (context.fill vars) rest others) (decides state serves small) ?_ ?_ ?_
  · intro ty middle _ told
    refine .bind (fun others vars types => types = ty.fill vars .generic ::
        others.map (Ty.fill vars .generic))
      (decidesAll middle told.serves (small.mono told.extended.table.size)) ?_ ?_ ?_
    · intro others last _ toldAll
      have allSmall : Filling.Scoped last.table.size (ty :: others) :=
        List.forall_mem_cons.mpr
          ⟨Filling.mono told.small toldAll.extended.table.size, toldAll.small⟩
      exact Decides.pure toldAll.serves allSmall
    · exact fun others vars typed types same => ⟨_, same, typed⟩
    · rintro vars meets types ⟨others, rfl, typed⟩
      refine ⟨others, typed, fun found other agree same => ?_⟩
      change found.map (Ty.fill other .generic) = others at same
      rw [same]
      exact congrArg (· :: others) (Filling.fill_eq told.small agree).symm
  · rintro ty vars typed types ⟨others, rfl, all⟩
    exact ⟨_, others, rfl, typed, all⟩
  · rintro vars meets types ⟨first, others, rfl, typed, all⟩
    refine ⟨first, typed, fun found other agree same => ⟨others, ?_, ?_⟩⟩
    · exact congrArg (· :: others) same.symm
    · rwa [small.fill_eq agree]

theorem operands_decide_cons {expr : Expr} {rest : List Expr}
    (decides : DecidesExpr known slots context expr)
    (checks : DecidesOperands known slots context rest) :
    DecidesOperands known slots context (expr :: rest) := by
  intro state params serves small paramsSmall lengths
  cases params with
  | nil => cases lengths
  | cons param params =>
      rw [List.forall_mem_cons] at paramsSmall
      rw [checkOperands]
      refine .bind (fun ty vars _ => param.fill vars .generic = ty.fill vars .generic ∧
          HasTypes known slots (context.fill vars) rest (params.map (Ty.fill vars .generic)))
        (decides state serves small) ?_ ?_ ?_
      · intro ty middle _ told
        have grows := told.extended.table.size
        have grown := small.mono grows
        have grownParams := fun ty member => (paramsSmall.2 ty member).mono grows
        refine .bind (fun _ vars _ => HasTypes known slots (context.fill vars) rest
            (params.map (Ty.fill vars .generic)))
          (unify_decides told.serves (paramsSmall.1.mono grows) told.small _) ?_ ?_ ?_
        · intro _ last _ unified
          have further := unified.extended.table.size
          exact checks last params unified.serves (grown.mono further)
            (fun ty member => (grownParams ty member).mono further) (Nat.succ_inj.mp lengths)
        · exact fun _ vars equal _ typed => ⟨equal, typed⟩
        · rintro vars meets _ ⟨equal, typed⟩
          refine ⟨(), equal, fun _ other agree _ => ?_⟩
          rwa [grown.fill_eq agree, map_fill_eq grownParams agree]
      · rintro ty vars typed _ ⟨equal, all⟩
        rw [List.map_cons, equal]
        exact .cons typed all
      · intro vars meets _ typed
        obtain ⟨first, others, same, typed, all⟩ := hasTypes_cons.mp typed
        rw [List.map_cons, List.cons.injEq] at same
        refine ⟨first, typed, fun found other agree foundSame => ⟨?_, ?_⟩⟩
        · rw [paramsSmall.1.fill_eq agree, same.1]
          exact foundSame.symm
        · rwa [small.fill_eq agree, map_fill_eq paramsSmall.2 agree, same.2]

end Forms

mutual

theorem exprTy_decides {context : TypeContext} (closed : context.registry.Closed) (expr : Expr) :
    DecidesExpr known slots context expr := by
  match expr with
  | .constant value =>
      intro state serves _
      rw [exprTy]
      exact (valueTy_decides value serves).of_goal fun _ _ _ => hasType_constant
  | .variable name =>
      intro state serves small
      rw [exprTy]
      exact variableTy_decides serves small name
  | .argument index =>
      intro state serves small
      rw [exprTy]
      exact argumentTy_decides serves small index
  | .primitive name operands =>
      exact primitive_decides closed (checkOperands_decides closed operands)
  | .apply operator operands =>
      exact apply_decides (exprTy_decides closed operator) (exprTys_decides closed operands)
  | .map array callable =>
      exact map_decides (exprTy_decides closed array) (exprTy_decides closed callable)
  | .lambda params body =>
      exact lambda_decides fun types => @exprTy_decides (context.enter params types) closed body

theorem exprTys_decides {context : TypeContext} (closed : context.registry.Closed)
    (exprs : List Expr) : DecidesExprs known slots context exprs := by
  match exprs with
  | [] =>
      intro state serves _
      have nothing : Filling.Scoped state.table.size ([] : List Ty) :=
        fun _ member => nomatch member
      rw [exprTys]
      exact (Decides.pure serves nothing).of_goal fun _ _ _ => hasTypes_nil
  | expr :: rest =>
      exact exprs_decide_cons (exprTy_decides closed expr) (exprTys_decides closed rest)

theorem checkOperands_decides {context : TypeContext} (closed : context.registry.Closed)
    (exprs : List Expr) : DecidesOperands known slots context exprs := by
  match exprs with
  | [] =>
      intro state params serves _ _ lengths
      obtain rfl := List.length_eq_zero_iff.mp lengths.symm
      rw [checkOperands]
      exact (Decides.pure serves trivial).of_goal fun _ _ _ => iff_of_true .nil rfl
  | expr :: rest =>
      exact operands_decide_cons (exprTy_decides closed expr) (checkOperands_decides closed rest)

end

end Infer

end NodeGraph
