import NodeGraph.Proofs.Expr.Views

/-!
Function identity. A function value knows where it arose, and only that depends on when and under
which serial number an evaluation ran. Without the origins an evaluation is determined by what it
sees, as long as no primitive observes them.
-/

namespace NodeGraph

mutual

/-- The value without the origins of the functions in it. -/
def Value.anonymous : Value → Value
  | .array items => .array (Value.anonymousList items)
  | .function callable => .function callable.anonymous
  | .number real => .number real
  | .integer whole => .integer whole
  | .boolean truth => .boolean truth
  | .point place => .point place
  | .rect area => .rect area
  | .color shade => .color shade
  | .text string => .text string
  | .image handle => .image handle
  | .error message => .error message

def Value.anonymousList : List Value → List Value
  | [] => []
  | value :: rest => value.anonymous :: Value.anonymousList rest

def Value.anonymousBindings : List (String × Value) → List (String × Value)
  | [] => []
  | (name, value) :: rest => (name, value.anonymous) :: Value.anonymousBindings rest

def Callable.anonymous : Callable → Callable
  | .primitive name => .primitive name
  | .closure _ params body bindings =>
      .closure [] params body.anonymous (Value.anonymousBindings bindings)

def Expr.anonymous : Expr → Expr
  | .constant value => .constant value.anonymous
  | .variable name => .variable name
  | .argument index => .argument index
  | .primitive name operands => .primitive name (Expr.anonymousList operands)
  | .apply operator operands => .apply operator.anonymous (Expr.anonymousList operands)
  | .map array callable => .map array.anonymous callable.anonymous
  | .lambda params body => .lambda params body.anonymous

def Expr.anonymousList : List Expr → List Expr
  | [] => []
  | expr :: rest => expr.anonymous :: Expr.anonymousList rest

end

def Bindings.anonymous (bindings : Bindings) : Bindings :=
  bindings.map fun binding => (binding.1, binding.2.anonymous)

theorem anonymousList_eq (values : List Value) :
    Value.anonymousList values = values.map Value.anonymous := by
  induction values with
  | nil => rfl
  | cons value rest ih => rw [Value.anonymousList, ih, List.map_cons]

theorem anonymousBindings_eq (bindings : Bindings) :
    Value.anonymousBindings bindings = bindings.anonymous := by
  induction bindings with
  | nil => rfl
  | cons binding rest ih =>
      obtain ⟨name, value⟩ := binding
      rw [Value.anonymousBindings, ih, Bindings.anonymous, Bindings.anonymous, List.map_cons]

def Value.Alike (left right : Value) : Prop := left.anonymous = right.anonymous

mutual

theorem Expr.argumentArity_anonymous : (expr : Expr) →
    expr.anonymous.argumentArity = expr.argumentArity
  | .constant _ | .variable _ | .argument _ | .lambda _ _ => by
      simp only [Expr.anonymous, Expr.argumentArity]
  | .primitive _ operands => by
      rw [Expr.anonymous, Expr.argumentArity, Expr.argumentArity,
        Expr.argumentArityList_anonymous operands]
  | .apply operator operands => by
      rw [Expr.anonymous, Expr.argumentArity, Expr.argumentArity,
        Expr.argumentArity_anonymous operator, Expr.argumentArityList_anonymous operands]
  | .map array callable => by
      rw [Expr.anonymous, Expr.argumentArity, Expr.argumentArity,
        Expr.argumentArity_anonymous array, Expr.argumentArity_anonymous callable]

theorem Expr.argumentArityList_anonymous : (exprs : List Expr) →
    Expr.argumentArityList (Expr.anonymousList exprs) = Expr.argumentArityList exprs
  | [] => rfl
  | expr :: rest => by
      rw [Expr.anonymousList, Expr.argumentArityList, Expr.argumentArityList,
        Expr.argumentArity_anonymous expr, Expr.argumentArityList_anonymous rest]

end

theorem Expr.lambdaArity_anonymous (params : List String) (body : Expr) :
    Expr.lambdaArity params body.anonymous = Expr.lambdaArity params body := by
  rw [Expr.lambdaArity, Expr.lambdaArity, Expr.argumentArity_anonymous]

def View.anonymous : View where
  value := Value.anonymous
  callable := Callable.anonymous
  array := fun items => by rw [Value.anonymous, anonymousList_eq]
  function := fun called => by rw [Value.anonymous]
  simple := by
    intro shown notArray notFunction
    cases shown with
    | array _ => cases notArray
    | function _ => cases notFunction
    | _ => rfl

theorem Value.isError_anonymous (value : Value) : value.anonymous.isError = value.isError :=
  View.anonymous.isError value

/-- A primitive whose results do not depend on the identity of functions. -/
def Primitive.IgnoresIdentity (primitive : Primitive) : Prop :=
  ∀ left right : List Value, left.map Value.anonymous = right.map Value.anonymous →
    (primitive.apply left).map Value.anonymous = (primitive.apply right).map Value.anonymous

def Registry.IgnoresIdentity (registry : Registry) : Prop :=
  ∀ primitive ∈ registry.primitives, primitive.IgnoresIdentity

namespace Frame

structure Alike (left right : Frame) : Prop where
  bindings : left.bindings.anonymous = right.bindings.anonymous
  arguments : left.arguments.map Value.anonymous = right.arguments.map Value.anonymous

theorem lookup_anonymous (bindings : Bindings) (name : String) :
    bindings.anonymous.lookup name = (bindings.lookup name).map Value.anonymous := by
  induction bindings with
  | nil => rfl
  | cons binding rest ih =>
      obtain ⟨other, value⟩ := binding
      simp only [Bindings.anonymous, List.map_cons, List.lookup_cons] at ih ⊢
      split
      · rfl
      · exact ih

variable {left right : Frame}

theorem Alike.valueOf (alike : Alike left right) (name : String) :
    (left.valueOf name).Alike (right.valueOf name) := by
  have same := congrArg (List.lookup name) alike.bindings
  rw [lookup_anonymous, lookup_anonymous] at same
  exact View.anonymous.valueOf same

theorem Alike.argumentAt (alike : Alike left right) (index : Nat) :
    (left.argumentAt index).Alike (right.argumentAt index) := by
  have lengths : left.arguments.length = right.arguments.length := by
    simpa using congrArg List.length alike.arguments
  have same := congrArg (·[index]?) alike.arguments
  simp only [List.getElem?_map] at same
  exact View.anonymous.argumentAt lengths same

theorem Alike.bind (alike : Alike left right) (name : String) {value other : Value}
    (values : value.Alike other) : Alike (left.bind name value) (right.bind name other) where
  bindings := by
    simp only [Frame.bind, Bindings.anonymous, List.map_cons]
    rw [values]
    exact congrArg _ alike.bindings
  arguments := alike.arguments

theorem alike_ofCall (params : List String) {leftBindings rightBindings : Bindings}
    {leftArguments rightArguments : List Value}
    (bindings : leftBindings.anonymous = rightBindings.anonymous)
    (arguments : leftArguments.map Value.anonymous = rightArguments.map Value.anonymous) :
    Alike (.ofCall leftBindings params leftArguments)
      (.ofCall rightBindings params rightArguments) where
  bindings := by
    have named : ∀ arguments : List Value, Bindings.anonymous (params.zip arguments).reverse =
        (params.zip (arguments.map Value.anonymous)).reverse := by
      intro arguments
      rw [Bindings.anonymous, List.map_reverse, List.zip_map_right]
      rfl
    have split : ∀ first second : Bindings,
        Bindings.anonymous (first ++ second) = first.anonymous ++ second.anonymous :=
      fun _ _ => List.map_append
    simp only [Frame.ofCall]
    rw [split, split, named, named, arguments, bindings]
  arguments := arguments

end Frame

mutual

theorem Frame.Alike.agrees {left right : Frame} (frames : left.Alike right) (expr shown : Expr)
    (same : expr.anonymous = shown.anonymous) : View.anonymous.Agrees left right expr shown := by
  match expr, shown with
  | .constant value, .constant other =>
      simp only [Expr.anonymous, Expr.constant.injEq] at same
      exact .constant same
  | .variable name, .variable other =>
      simp only [Expr.anonymous, Expr.variable.injEq] at same
      subst same
      exact .variable (frames.valueOf name)
  | .argument index, .argument other =>
      simp only [Expr.anonymous, Expr.argument.injEq] at same
      subst same
      exact .argument (frames.argumentAt index.toNat)
  | .primitive name operands, .primitive other others =>
      simp only [Expr.anonymous, Expr.primitive.injEq] at same
      obtain ⟨rfl, operandsSame⟩ := same
      exact .primitive (frames.agreesAll operands others operandsSame)
  | .apply operator operands, .apply other others =>
      simp only [Expr.anonymous, Expr.apply.injEq] at same
      exact .apply (frames.agrees operator other same.1) (frames.agreesAll operands others same.2)
  | .map array callable, .map other called =>
      simp only [Expr.anonymous, Expr.map.injEq] at same
      exact .map (frames.agrees array other same.1) (frames.agrees callable called same.2)
  | .lambda params body, .lambda names inner =>
      simp only [Expr.anonymous, Expr.lambda.injEq] at same
      obtain ⟨rfl, bodies⟩ := same
      refine .lambda fun _ _ => ?_
      simp only [View.anonymous, Callable.anonymous, bodies, anonymousBindings_eq, frames.bindings]

theorem Frame.Alike.agreesAll {left right : Frame} (frames : left.Alike right)
    (exprs others : List Expr) (same : Expr.anonymousList exprs = Expr.anonymousList others) :
    View.anonymous.AgreesAll left right exprs others := by
  match exprs, others with
  | [], [] => exact .nil
  | expr :: rest, other :: others =>
      simp only [Expr.anonymousList, List.cons.injEq] at same
      exact .cons (frames.agrees expr other same.1) (frames.agreesAll rest others same.2)
  | [], _ :: _ | _ :: _, [] => cases same

end

theorem View.anonymous_lawful : View.anonymous.Lawful where
  primitive := by
    intro name called same
    cases called with
    | primitive other =>
        simp only [View.anonymous, Callable.anonymous, Callable.primitive.injEq] at same
        rw [same]
    | closure _ _ _ _ => simp [View.anonymous, Callable.anonymous] at same
  closure := by
    intro _ params body bindings called same
    cases called with
    | primitive _ => simp [View.anonymous, Callable.anonymous] at same
    | closure place otherParams shown others =>
        simp only [View.anonymous, Callable.anonymous, Callable.closure.injEq, true_and,
          anonymousBindings_eq] at same
        obtain ⟨rfl, bodies, bindingsSame⟩ := same
        refine ⟨place, shown, others, rfl, ?_, fun arguments operands alike _ => ?_⟩
        · rw [← Expr.lambdaArity_anonymous params shown, ← bodies, Expr.lambdaArity_anonymous]
        · exact (Frame.alike_ofCall params bindingsSame alike).agrees body shown bodies

def Call.Alike (left right : Call) : Prop :=
  ∀ origin place callable other arguments operands,
    Callable.anonymous callable = Callable.anonymous other →
      arguments.map Value.anonymous = operands.map Value.anonymous →
        (left origin callable arguments).map Value.anonymous =
          (right place other operands).map Value.anonymous

theorem callWithin_alike {registry : Registry} (blind : registry.IgnoresIdentity)
    (remaining : Nat) :
    Call.Alike (callWithin registry remaining) (callWithin registry remaining) :=
  fun origin place _ _ _ _ callables alike =>
    View.anonymous_lawful.callWithin blind remaining origin place callables alike

end NodeGraph
