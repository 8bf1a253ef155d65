import NodeGraph.Proofs.Expr.Watching

/-!
Views. A view hides something of the functions in values. If all that two expressions see looks
alike in a view, and the primitives that evaluation applies do not tell apart what looks alike, then
the values of the expressions look alike, however deep calls nest.
-/

namespace NodeGraph

theorem map_eq_map_cases {failure before seen : Type} {view : before → seen}
    {first second : Except failure before} (same : first.map view = second.map view) :
    (∃ left right, first = .ok left ∧ second = .ok right ∧ view left = view right) ∨
      ∃ error, first = .error error ∧ second = .error error := by
  cases first with
  | ok left =>
      cases second with
      | ok right => exact Or.inl ⟨left, right, rfl, rfl, Except.ok.inj same⟩
      | error other => cases same
  | error error =>
      cases second with
      | ok right => cases same
      | error other =>
          cases same
          exact Or.inr ⟨error, rfl, rfl⟩

theorem bind_eq_map_bind {failure before seen after shown : Type} {view : before → seen}
    {final : after → shown} {result : Except failure before} {other : Except failure seen}
    {next : before → Except failure after} {rest : seen → Except failure shown}
    (parts : other = result.map view)
    (same : ∀ value, rest (view value) = (next value).map final) :
    other >>= rest = (result >>= next).map final := by
  subst parts
  cases result with
  | error error => rfl
  | ok value => exact same value

namespace Frame

theorem valueOf_eq (frame : Frame) (name : String) :
    frame.valueOf name =
      (frame.bindings.lookup name).getD (EvalError.unboundVariable name).value := by
  rw [valueOf]
  cases frame.bindings.lookup name <;> rfl

theorem argumentAt_eq (frame : Frame) (index : Nat) :
    frame.argumentAt index = frame.arguments[index]?.getD
      (EvalError.argumentOutOfRange index frame.arguments.length).value := by
  rw [argumentAt]
  cases frame.arguments[index]? <;> rfl

end Frame

mutual

def Value.plain : Value → Bool
  | .function _ => false
  | .array items => Value.plainList items
  | _ => true

def Value.plainList : List Value → Bool
  | [] => true
  | item :: rest => item.plain && Value.plainList rest

end

/-- A way of looking at values that hides something of the functions in them. -/
structure View where
  value : Value → Value
  callable : Callable → Callable
  array : ∀ items, value (.array items) = .array (items.map value)
  function : ∀ called, value (.function called) = .function (callable called)
  simple : ∀ shown : Value, shown.isArray = false → shown.isFunction = false → value shown = shown

namespace View

variable (view : View)

theorem isError (value : Value) : (view.value value).isError = value.isError := by
  cases value with
  | array items => rw [view.array, Value.isError, Value.isError] <;> nofun
  | function called => rw [view.function, Value.isError, Value.isError] <;> nofun
  | _ => rw [view.simple _ rfl rfl]

theorem of_isError {value : Value} (isError : value.isError = true) : view.value value = value := by
  cases value with
  | error message => exact view.simple _ rfl rfl
  | _ => cases isError

theorem firstError? (values : List Value) :
    Value.firstError? (values.map view.value) = Value.firstError? values := by
  induction values with
  | nil => rfl
  | cons value rest ih =>
      simp only [Value.firstError?, List.map_cons, List.find?_cons, view.isError] at ih ⊢
      split
      · rename_i isError
        rw [view.of_isError isError]
      · exact ih

theorem operator (value : Value) :
    (view.value value).operator = value.operator.map view.callable := by
  cases value with
  | array items => rw [view.array]; rfl
  | function called => rw [view.function]; rfl
  | _ => rw [view.simple _ rfl rfl]; rfl

theorem mapped (value : Value) :
    (view.value value).mapped = value.mapped.map (List.map view.value) := by
  cases value with
  | array items => rw [view.array]; rfl
  | function called => rw [view.function]; rfl
  | _ => rw [view.simple _ rfl rfl]; rfl

mutual

theorem plain (value : Value) : (view.value value).plain = value.plain := by
  match value with
  | .array items =>
      rw [view.array, Value.plain, Value.plain]
      exact plainList items
  | .function called => rw [view.function, Value.plain, Value.plain]
  | .number _ | .integer _ | .boolean _ | .text _ | .point _ | .rect _ | .color _ | .image _
  | .error _ => rw [view.simple _ rfl rfl]

theorem plainList (values : List Value) :
    Value.plainList (values.map view.value) = Value.plainList values := by
  match values with
  | [] => rfl
  | value :: rest =>
      rw [List.map_cons, Value.plainList, Value.plainList, plain value, plainList rest]

end

mutual

theorem of_plain (value : Value) (plain : value.plain = true) : view.value value = value := by
  match value with
  | .array items =>
      rw [Value.plain] at plain
      rw [view.array, map_of_plain items plain]
  | .function _ => simp [Value.plain] at plain
  | .number _ | .integer _ | .boolean _ | .text _ | .point _ | .rect _ | .color _ | .image _
  | .error _ => exact view.simple _ rfl rfl

theorem map_of_plain (values : List Value) (plain : Value.plainList values = true) :
    values.map view.value = values := by
  match values with
  | [] => rfl
  | value :: rest =>
      rw [Value.plainList, Bool.and_eq_true] at plain
      rw [List.map_cons, of_plain value plain.1, map_of_plain rest plain.2]

end

theorem eq_of_plain {value other : Value} (plain : value.plain = true)
    (same : view.value value = view.value other) : value = other := by
  have otherPlain : other.plain = true := by
    rw [← view.plain other, ← same, view.plain, plain]
  rwa [view.of_plain value plain, view.of_plain other otherPlain] at same

theorem map_eq_of_plain {values others : List Value} (plain : Value.plainList values = true)
    (same : values.map view.value = others.map view.value) : values = others := by
  have otherPlain : Value.plainList others = true := by
    rw [← view.plainList others, ← same, view.plainList, plain]
  rwa [view.map_of_plain values plain, view.map_of_plain others otherPlain] at same

theorem getD {found other : Option Value} (same : found.map view.value = other.map view.value)
    (missing : Value) : view.value (found.getD missing) = view.value (other.getD missing) := by
  cases found with
  | none => rw [Option.map_eq_none_iff.mp same.symm]
  | some value =>
      obtain ⟨shown, rfl, alike⟩ := Option.map_eq_some_iff.mp same.symm
      exact alike.symm

def operands : Except Value (List Value) → Except Value (List Value)
  | .ok values => .ok (values.map view.value)
  | .error error => .error (view.value error)

theorem operands_cases {left right : Except Value (List Value)}
    (same : view.operands left = view.operands right) :
    (∃ values others, left = .ok values ∧ right = .ok others ∧
      values.map view.value = others.map view.value) ∨
    ∃ error other, left = .error error ∧ right = .error other ∧
      view.value error = view.value other := by
  match left, right with
  | .ok values, .ok others => exact Or.inl ⟨values, others, rfl, rfl, Except.ok.inj same⟩
  | .error error, .error other => exact Or.inr ⟨error, other, rfl, rfl, Except.error.inj same⟩
  | .ok _, .error _ | .error _, .ok _ => cases same

theorem valueOf {frame other : Frame} {name : String}
    (same : (frame.bindings.lookup name).map view.value =
      (other.bindings.lookup name).map view.value) :
    view.value (frame.valueOf name) = view.value (other.valueOf name) := by
  rw [Frame.valueOf_eq, Frame.valueOf_eq]
  exact view.getD same _

theorem argumentAt {frame other : Frame} {index : Nat}
    (lengths : frame.arguments.length = other.arguments.length)
    (same : frame.arguments[index]?.map view.value = other.arguments[index]?.map view.value) :
    view.value (frame.argumentAt index) = view.value (other.argumentAt index) := by
  rw [Frame.argumentAt_eq, Frame.argumentAt_eq, lengths]
  exact view.getD same _

/-- The result looks like the results of operands that look like those of the application. -/
def RespectsAt (registry : Registry) (application : Application) : Prop :=
  ∀ others : List Value, application.operands.map view.value = others.map view.value →
    (registry.invoke application.name application.operands).map view.value =
      (registry.invoke application.name others).map view.value

/-- So it is with everything that is applied on the way. -/
def RespectsAlong (registry : Registry) {result : Type} (watched : Watched result) : Prop :=
  ∀ application ∈ watched.applied, view.RespectsAt registry application

def Respects (registry : Registry) : Prop :=
  ∀ primitive ∈ registry.primitives, ∀ left right : List Value,
    left.map view.value = right.map view.value →
      (primitive.apply left).map view.value = (primitive.apply right).map view.value

variable {view} {registry : Registry}

theorem invoke_congr {name : String} {left right : List Value}
    (alike : left.map view.value = right.map view.value)
    (results : ∀ primitive, registry.find? name = some primitive →
      (primitive.apply left).map view.value = (primitive.apply right).map view.value) :
    (registry.invoke name left).map view.value = (registry.invoke name right).map view.value := by
  have lengths : left.length = right.length := by
    simpa using congrArg List.length alike
  have errors : Value.firstError? left = Value.firstError? right := by
    rw [← view.firstError? left, alike, view.firstError?]
  rw [Registry.invoke, Registry.invoke, lengths, errors]
  cases found : registry.find? name with
  | none => rfl
  | some primitive =>
      simp only
      split
      · rfl
      · split
        · rfl
        · obtain ⟨_, _, given, alsoGiven, same⟩ | ⟨failure, given, alsoGiven⟩ :=
            map_eq_map_cases (results primitive found)
          · rw [given, alsoGiven]
            exact congrArg Except.ok same
          · rw [given, alsoGiven]

theorem Respects.along (respects : view.Respects registry) {result : Type}
    (watched : Watched result) : view.RespectsAlong registry watched :=
  fun application _ others alike => invoke_congr alike fun primitive found =>
    respects primitive (List.mem_of_find?_eq_some found) application.operands others alike

section Steps

variable {before after : Type} {watched : Watched before} {next : before → Watched after}

theorem RespectsAlong.first (along : view.RespectsAlong registry (watched >>= next)) :
    view.RespectsAlong registry watched := by
  obtain ⟨missed, applied, outcome⟩ := watched
  cases outcome with
  | error fault => exact along
  | ok value => exact fun application member => along application (List.mem_append_left _ member)

theorem RespectsAlong.rest (along : view.RespectsAlong registry (watched >>= next)) {value : before}
    (result : watched.outcome = .ok value) : view.RespectsAlong registry (next value) := by
  obtain ⟨missed, applied, outcome⟩ := watched
  cases result
  exact fun application member => along application (List.mem_append_right _ member)

theorem RespectsAlong.bind_congr {shown seen result : Type} {look : before → seen}
    {glance : shown → seen} {final : after → result} {plain : Except Fault shown}
    {other : shown → Except Fault after} (along : view.RespectsAlong registry (watched >>= next))
    (parts : view.RespectsAlong registry watched → watched.outcome.map look = plain.map glance)
    (rest : ∀ left right, look left = glance right → view.RespectsAlong registry (next left) →
      (next left).outcome.map final = (other right).map final) :
    (watched >>= next).outcome.map final = (plain >>= other).map final := by
  have same := parts along.first
  rw [Watched.outcome_bind]
  cases result : watched.outcome with
  | error fault =>
      rw [result] at same
      cases plain with
      | error other =>
          cases same
          rfl
      | ok right => cases same
  | ok left =>
      rw [result] at same
      cases plain with
      | error other => cases same
      | ok right => exact rest left right (Except.ok.inj same) (along.rest result)

end Steps

def CallsAlike (view : View) (registry : Registry) (left : WatchedCall) (right : Call) : Prop :=
  ∀ origin place callable other arguments operands,
    view.callable callable = view.callable other →
      arguments.map view.value = operands.map view.value →
        view.RespectsAlong registry (left origin callable arguments) →
          (left origin callable arguments).outcome.map view.value =
            (right place other operands).map view.value

variable {left : WatchedCall} {right : Call}

theorem CallsAlike.watchEach (calls : view.CallsAlike registry left right) (origin place : Origin)
    {callable other : Callable} (callables : view.callable callable = view.callable other)
    {items others : List Value} (alike : items.map view.value = others.map view.value)
    (along : view.RespectsAlong registry (watchEach left origin callable items)) :
    (watchEach left origin callable items).outcome.map view.value =
      (callEach right place other others).map view.value := by
  have each : ∀ (items others : List Value) (start : Nat),
      items.map view.value = others.map view.value →
        view.RespectsAlong registry ((items.zipIdx start).mapM fun entry =>
          left ((entry.2 + 2) :: origin) callable [entry.1]) →
        ((items.zipIdx start).mapM fun entry =>
          left ((entry.2 + 2) :: origin) callable [entry.1]).outcome.map (List.map view.value) =
        ((others.zipIdx start).mapM fun entry =>
          right ((entry.2 + 2) :: place) other [entry.1]).map (List.map view.value) := by
    intro items
    induction items with
    | nil =>
        intro others start alike _
        cases others with
        | nil => rfl
        | cons other rest => cases alike
    | cons item items ih =>
        intro others start alike along
        cases others with
        | nil => cases alike
        | cons first rest =>
            simp only [List.map_cons, List.cons.injEq] at alike
            simp only [List.zipIdx_cons, List.mapM_cons] at along ⊢
            refine along.bind_congr (calls _ _ _ _ _ _ callables (by simp [alike.1])) ?_
            intro leftValue rightValue values along
            refine along.bind_congr (ih rest (start + 1) alike.2) ?_
            intro leftValues rightValues rests _
            exact congrArg Except.ok (List.cons_eq_cons.mpr ⟨values, rests⟩)
  refine along.bind_congr (each items others 0 alike) ?_
  intro leftValues rightValues values _
  refine congrArg Except.ok ?_
  rw [view.array, view.array, values]

mutual

/-- Two expressions, in frames of their own, see what looks alike. -/
inductive Agrees (view : View) (frame other : Frame) : Expr → Expr → Prop
  | constant {value shown : Value} (same : view.value value = view.value shown) :
      Agrees view frame other (.constant value) (.constant shown)
  | variable {name : String}
      (same : view.value (frame.valueOf name) = view.value (other.valueOf name)) :
      Agrees view frame other (.variable name) (.variable name)
  | argument {index : UInt64}
      (same : view.value (frame.argumentAt index.toNat) =
        view.value (other.argumentAt index.toNat)) :
      Agrees view frame other (.argument index) (.argument index)
  | primitive {name : String} {operands others : List Expr}
      (all : AgreesAll view frame other operands others) :
      Agrees view frame other (.primitive name operands) (.primitive name others)
  | apply {operator shown : Expr} {operands others : List Expr}
      (first : Agrees view frame other operator shown)
      (all : AgreesAll view frame other operands others) :
      Agrees view frame other (.apply operator operands) (.apply shown others)
  | map {array shown callable called : Expr} (first : Agrees view frame other array shown)
      (second : Agrees view frame other callable called) :
      Agrees view frame other (.map array callable) (.map shown called)
  | lambda {params : List String} {body shown : Expr}
      (same : ∀ origin place, view.callable (.closure origin params body frame.bindings) =
        view.callable (.closure place params shown other.bindings)) :
      Agrees view frame other (.lambda params body) (.lambda params shown)

inductive AgreesAll (view : View) (frame other : Frame) : List Expr → List Expr → Prop
  | nil : AgreesAll view frame other [] []
  | cons {expr shown : Expr} {rest others : List Expr}
      (first : Agrees view frame other expr shown)
      (all : AgreesAll view frame other rest others) :
      AgreesAll view frame other (expr :: rest) (shown :: others)

end

/-- Callables look alike only if they are called alike. -/
structure Lawful (view : View) : Prop where
  primitive : ∀ {name : String} {called : Callable},
    view.callable (.primitive name) = view.callable called → called = .primitive name
  closure : ∀ {origin : Origin} {params : List String} {body : Expr} {bindings : Bindings}
    {called : Callable},
    view.callable (.closure origin params body bindings) = view.callable called →
      ∃ place shown others, called = .closure place params shown others ∧
        Expr.lambdaArity params shown = Expr.lambdaArity params body ∧
        ∀ arguments operands : List Value, arguments.map view.value = operands.map view.value →
          arguments.length = Expr.lambdaArity params body →
            view.Agrees (.ofCall bindings params arguments) (.ofCall others params operands)
              body shown

theorem Lawful.callArity? (lawful : view.Lawful) (registry : Registry) {callable other : Callable}
    (callables : view.callable callable = view.callable other) :
    registry.callArity? callable = registry.callArity? other := by
  cases callable with
  | primitive name => rw [lawful.primitive callables]
  | closure origin params body bindings =>
      obtain ⟨place, shown, others, rfl, arity, _⟩ := lawful.closure callables
      rw [Registry.callArity?, Registry.callArity?, arity]

section Evaluation

variable {frame other : Frame}

theorem AgreesAll.length {exprs others : List Expr}
    (all : view.AgreesAll frame other exprs others) : exprs.length = others.length := by
  match all with
  | .nil => rfl
  | .cons _ all => rw [List.length_cons, List.length_cons, all.length]

theorem AgreesAll.isEmpty {exprs others : List Expr}
    (all : view.AgreesAll frame other exprs others) : exprs.isEmpty = others.isEmpty := by
  cases all <;> rfl

theorem Agrees.bareName? {expr shown : Expr} (agrees : view.Agrees frame other expr shown) :
    expr.bareName? = shown.bareName? := by
  cases agrees with
  | primitive all => cases all <;> rfl
  | _ => rfl

theorem Agrees.watchCallable {expr shown : Expr} (agrees : view.Agrees frame other expr shown)
    (place : Origin) {value : Watched Value}
    (values : view.RespectsAlong registry value → value.outcome.map view.value =
      (shown.evalWith registry right other place).map view.value)
    (along : view.RespectsAlong registry (Expr.watchCallable registry expr value)) :
    (Expr.watchCallable registry expr value).outcome.map (Except.map view.callable) =
      (shown.callableWith registry right other place).map (Except.map view.callable) := by
  rw [Expr.watchCallable, agrees.bareName?] at along ⊢
  rw [Expr.callableWith]
  cases bare : shown.bareName? with
  | some name => rfl
  | none =>
      simp only [bare, map_eq_pure_bind] at along ⊢
      refine along.bind_congr values ?_
      intro leftValue rightValue same _
      have operators := congrArg Value.operator same
      rw [view.operator, view.operator] at operators
      exact congrArg Except.ok operators

theorem Lawful.watchMap (lawful : view.Lawful) (calls : view.CallsAlike registry left right)
    (origin place : Origin) {items others : List Value}
    (alike : items.map view.value = others.map view.value)
    {leftCallable rightCallable : Except Value Callable}
    (callables : leftCallable.map view.callable = rightCallable.map view.callable)
    (along : view.RespectsAlong registry (Expr.watchMap registry left origin items leftCallable)) :
    (Expr.watchMap registry left origin items leftCallable).outcome.map view.value =
      (Expr.mapWith registry right place others rightCallable).map view.value := by
  obtain ⟨leftCallable, rightCallable, rfl, rfl, same⟩ | ⟨error, rfl, rfl⟩ :=
    map_eq_map_cases callables
  · simp only [Expr.watchMap, Expr.mapWith, lawful.callArity? registry same] at along ⊢
    generalize registry.callArity? rightCallable = arity at along ⊢
    cases arity with
    | none => rfl
    | some arity =>
        rcases arity with _ | _ | _
        · rfl
        · exact calls.watchEach origin place same alike along
        · rfl
  · rfl

mutual

theorem Agrees.watchWith {expr shown : Expr} (agrees : view.Agrees frame other expr shown)
    (lawful : view.Lawful) (calls : view.CallsAlike registry left right) (vacant : List Nat)
    (origin place : Origin)
    (along : view.RespectsAlong registry (expr.watchWith registry left vacant frame origin)) :
    (expr.watchWith registry left vacant frame origin).outcome.map view.value =
      (shown.evalWith registry right other place).map view.value := by
  match agrees with
  | .constant same | .variable same | .argument same =>
      rw [Expr.watchWith, Expr.evalWith]
      exact congrArg Except.ok same
  | @Agrees.primitive _ _ _ name operands others all =>
      rw [Expr.watchWith, all.isEmpty, all.length] at along ⊢
      rw [Expr.evalWith]
      cases arity : registry.arity? name with
      | none => rfl
      | some arity =>
          simp only [arity] at along ⊢
          split
          · rfl
          · split
            · rfl
            · rename_i notBare fits
              rw [if_neg notBare, if_neg fits] at along
              refine along.bind_congr (all.watchOperands lawful calls vacant origin place 0) ?_
              intro leftValues rightValues values along
              obtain ⟨_, others, rfl, rfl, same⟩ | ⟨_, _, rfl, rfl, same⟩ :=
                view.operands_cases values
              · exact along _ List.mem_cons_self others same
              · exact congrArg Except.ok same
  | .apply first all =>
      rw [Expr.watchWith] at along ⊢
      rw [Expr.evalWith_apply]
      refine along.bind_congr (first.watchCallable _
        (first.watchWith lawful calls vacant (0 :: origin) (0 :: place))) ?_
      intro leftCallable rightCallable callables along
      obtain ⟨_, _, rfl, rfl, called⟩ | ⟨error, rfl, rfl⟩ := map_eq_map_cases callables
      · refine along.bind_congr (all.watchOperands lawful calls vacant origin place 2) ?_
        intro leftValues rightValues values along
        obtain ⟨_, _, rfl, rfl, same⟩ | ⟨_, _, rfl, rfl, same⟩ := view.operands_cases values
        · exact calls _ _ _ _ _ _ called same along
        · exact congrArg Except.ok same
      · rfl
  | .map first second =>
      rw [Expr.watchWith] at along ⊢
      rw [Expr.evalWith_map]
      refine along.bind_congr
        (first.watchWith lawful calls vacant (0 :: origin) (0 :: place)) ?_
      intro leftArray rightArray arrays along
      have mapped := congrArg Value.mapped arrays
      rw [view.mapped, view.mapped] at mapped
      obtain ⟨_, _, given, alsoGiven, items⟩ | ⟨error, given, alsoGiven⟩ := map_eq_map_cases mapped
      · rw [given] at along ⊢
        rw [alsoGiven]
        refine along.bind_congr (second.watchCallable _
          (second.watchWith lawful calls vacant (1 :: origin) (1 :: place))) ?_
        intro leftCallable rightCallable callables along
        exact lawful.watchMap calls origin place items callables along
      · rw [given, alsoGiven]
        rfl
  | .lambda same =>
      simp only [Expr.watchWith, Expr.evalWith, Watched.outcome_pure, Except.map, view.function,
        same origin place]

theorem AgreesAll.watchOperands {exprs others : List Expr}
    (all : view.AgreesAll frame other exprs others) (lawful : view.Lawful)
    (calls : view.CallsAlike registry left right) (vacant : List Nat) (origin place : Origin)
    (position : Nat)
    (along : view.RespectsAlong registry
      (Expr.watchOperands registry left vacant frame origin position exprs)) :
    (Expr.watchOperands registry left vacant frame origin position exprs).outcome.map view.operands =
      (Expr.evalOperands registry right other place position others).map view.operands := by
  match all with
  | .nil => rfl
  | .cons first all =>
      rw [Expr.watchOperands] at along ⊢
      rw [Expr.evalOperands]
      refine along.bind_congr
        (first.watchWith lawful calls vacant (position :: origin) (position :: place)) ?_
      intro leftValue rightValue values along
      have errors : leftValue.isError = rightValue.isError := by
        rw [← view.isError leftValue, values, view.isError]
      rw [errors] at along ⊢
      split
      · exact congrArg (Except.ok ∘ Except.error) values
      · rename_i fine
        rw [if_neg fine] at along
        refine along.bind_congr
          (all.watchOperands lawful calls vacant origin place (position + 1)) ?_
        intro leftValues rightValues rests _
        obtain ⟨_, _, rfl, rfl, same⟩ | ⟨_, _, rfl, rfl, _⟩ := view.operands_cases rests
        · exact congrArg (Except.ok ∘ Except.ok) (List.cons_eq_cons.mpr ⟨values, same⟩)
        · exact congrArg Except.ok rests

end

end Evaluation

theorem Lawful.watchEntering (lawful : view.Lawful) {remaining : Nat} {place : Origin}
    {entering : List String → Expr → Bindings → Watched Value} {arguments operands : List Value}
    (bodies : ∀ {params : List String} {body shown : Expr} {bindings others : Bindings},
      view.Agrees (.ofCall bindings params arguments) (.ofCall others params operands) body shown →
        view.RespectsAlong registry (entering params body bindings) →
          (entering params body bindings).outcome.map view.value =
            (enter registry remaining place params shown others operands).map view.value)
    {callable other : Callable} (callables : view.callable callable = view.callable other)
    (alike : arguments.map view.value = operands.map view.value)
    (along : view.RespectsAlong registry
      (NodeGraph.watchEntering registry entering callable arguments)) :
    (NodeGraph.watchEntering registry entering callable arguments).outcome.map view.value =
      (callWithin registry remaining place other operands).map view.value := by
  have errors : Value.firstError? arguments = Value.firstError? operands := by
    rw [← view.firstError? arguments, alike, view.firstError?]
  have lengths : arguments.length = operands.length := by
    simpa using congrArg List.length alike
  rw [watchEntering.eq_def, errors] at along ⊢
  rw [callWithin_eq]
  cases broken : Value.firstError? operands with
  | some error => rfl
  | none =>
      rw [broken] at along
      cases callable with
      | primitive name =>
          rw [lawful.primitive callables]
          exact along _ List.mem_cons_self operands alike
      | closure _ params body bindings =>
          obtain ⟨_, shown, others, rfl, arity, agrees⟩ := lawful.closure callables
          simp only [arity, ← lengths] at along ⊢
          split
          · rfl
          · rename_i many
            rw [if_neg many] at along
            exact bodies (agrees arguments operands alike (Decidable.not_not.mp many)) along

theorem Lawful.watchCall (lawful : view.Lawful) (remaining : Nat) :
    view.CallsAlike registry (watchCall registry remaining) (callWithin registry remaining) := by
  induction remaining with
  | zero =>
      intro origin place callable other arguments operands callables alike along
      exact lawful.watchEntering (fun _ _ => rfl) callables alike along
  | succ remaining ih =>
      intro origin place callable other arguments operands callables alike along
      refine lawful.watchEntering (fun agrees along => ?_) callables alike along
      exact agrees.watchWith lawful ih [] origin place along

theorem Agrees.watch (lawful : view.Lawful) {frame other : Frame} {expr shown : Expr}
    (agrees : view.Agrees frame other expr shown) (vacant : List Nat) (origin place : Origin)
    (along : view.RespectsAlong registry (expr.watch registry vacant frame origin)) :
    (expr.eval registry frame origin).map view.value =
      (shown.eval registry other place).map view.value := by
  rw [← Expr.watch_outcome vacant]
  exact agrees.watchWith lawful (lawful.watchCall Expr.maxCallDepth) vacant origin place along

theorem Lawful.callWithin (lawful : view.Lawful) (respects : view.Respects registry)
    (remaining : Nat) (origin place : Origin) {callable other : Callable}
    {arguments operands : List Value} (callables : view.callable callable = view.callable other)
    (alike : arguments.map view.value = operands.map view.value) :
    (callWithin registry remaining origin callable arguments).map view.value =
      (callWithin registry remaining place other operands).map view.value := by
  have same := lawful.watchCall remaining origin place callable other arguments operands callables
    alike (respects.along _)
  rw [← same, ← watchCall_unwatched]
  rfl

theorem Agrees.evalWith (lawful : view.Lawful) (respects : view.Respects registry)
    (remaining : Nat) {frame other : Frame} {expr shown : Expr}
    (agrees : view.Agrees frame other expr shown) (origin place : Origin) :
    (expr.evalWith registry (NodeGraph.callWithin registry remaining) frame origin).map view.value =
      (shown.evalWith registry (NodeGraph.callWithin registry remaining) other place).map
        view.value := by
  have same := agrees.watchWith lawful (lawful.watchCall remaining) [] origin place
    (respects.along _)
  rwa [watchWith_outcome, watchCall_unwatched] at same

theorem Agrees.callableWith (respects : view.Respects registry) {call : Call}
    {frame other : Frame} {expr shown : Expr} (agrees : view.Agrees frame other expr shown)
    (origin place : Origin)
    (values : (expr.evalWith registry call frame origin).map view.value =
      (shown.evalWith registry call other place).map view.value) :
    (expr.callableWith registry call frame origin).map (Except.map view.callable) =
      (shown.callableWith registry call other place).map (Except.map view.callable) := by
  have unwatched : expr.callableWith registry call frame origin =
      (expr.watchCallable registry (.lift (expr.evalWith registry call frame origin))).outcome := by
    rw [Expr.callableWith, Expr.watchCallable]
    cases expr.bareName? with
    | some name => rfl
    | none => simp only [Watched.outcome_map, Watched.outcome_lift]
  rw [unwatched]
  exact agrees.watchCallable place (fun _ => values) (respects.along _)

end View

end NodeGraph
