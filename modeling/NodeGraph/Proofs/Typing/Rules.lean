import NodeGraph.Proofs.Typing.Soundness

/-!
The typing rules. They tell which types an expression may have, with no table and no variables to be
solved: contexts hold types, every slot has one type, a primitive is used at an instance of its
scheme, and a lambda at any types for its arguments.
-/

namespace NodeGraph

/-- The types of a constant; errors and functions have all types. -/
inductive Value.HasType : Value → Ty → Prop
  | base {value : Value} {kind : BaseType} (admitted : kind.admits value = true) :
      HasType value (.base kind)
  | error (message : String) (ty : Ty) : HasType (.error message) ty
  | function (callable : Callable) (ty : Ty) : HasType (.function callable) ty
  | array {items : List Value} {element : Ty} (typed : ∀ item ∈ items, HasType item element) :
      HasType (.array items) (.array element)

def bareTy (params : List Ty) (result : Ty) : Ty :=
  if params.isEmpty then result else .function params result

/-- Slots that may be read: those that are known and all below a bound. -/
def Readable (known slot : Nat) : Prop := slot < known ∨ slot < Expr.maxArguments

def TypeContext.enter (context : TypeContext) (params : List String) (types : List Ty) :
    TypeContext :=
  { context with scopes := ⟨params.zip types, types⟩ :: context.scopes }

section Rules

variable (known : Nat) (slots : Nat → Ty)

mutual

inductive HasType : TypeContext → Expr → Ty → Prop
  | constant {context : TypeContext} {value : Value} {ty : Ty} (typed : value.HasType ty) :
      HasType context (.constant value) ty
  | bound {context : TypeContext} {name : String} {ty : Ty}
      (bound : context.scoped? name = some ty) : HasType context (.variable name) ty
  | input {context : TypeContext} {name : String} {slot : Nat}
      (free : context.scoped? name = none) (designates : Expr.inputSlot? name = some slot)
      (readable : Readable known slot) : HasType context (.variable name) (slots slot)
  | param {context : TypeContext} {name : String} {ty : Ty} (free : context.scoped? name = none)
      (other : Expr.inputSlot? name = none) (bound : context.params.lookup name = some ty) :
      HasType context (.variable name) ty
  | outerArgument {context : TypeContext} {index : UInt64} (outside : context.scopes = [])
      (readable : Readable known index.toNat) :
      HasType context (.argument index) (slots index.toNat)
  | argument {context : TypeContext} {index : UInt64} {scope : LambdaScope}
      {outer : List LambdaScope} {ty : Ty} (inside : context.scopes = scope :: outer)
      (passed : scope.arguments[index.toNat]? = some ty) : HasType context (.argument index) ty
  | nullary {context : TypeContext} {name : String} {signature : Signature}
      (registered : context.registry.signature? name = some signature)
      (none : signature.scheme.params = []) (generics : Nat → Ty) :
      HasType context (.primitive name []) (signature.scheme.result.instanceBy generics)
  | bare {context : TypeContext} {name : String} {signature : Signature}
      (registered : context.registry.signature? name = some signature)
      (some : signature.scheme.params ≠ []) (generics : Nat → Ty) :
      HasType context (.primitive name [])
        (.function (signature.scheme.params.map (Ty.instanceBy generics))
          (signature.scheme.result.instanceBy generics))
  | primitive {context : TypeContext} {name : String} {operands : List Expr}
      {signature : Signature} (registered : context.registry.signature? name = some signature)
      (applied : operands ≠ []) {generics : Nat → Ty}
      (typed : HasTypes context operands
        (signature.scheme.params.map (Ty.instanceBy generics))) :
      HasType context (.primitive name operands) (signature.scheme.result.instanceBy generics)
  | apply {context : TypeContext} {operator : Expr} {operands : List Expr} {types : List Ty}
      {result : Ty} (typed : HasType context operator (.function types result))
      (all : HasTypes context operands types) : HasType context (.apply operator operands) result
  | map {context : TypeContext} {array callable : Expr} {element result : Ty}
      (typed : HasType context array (.array element))
      (called : HasType context callable (.function [element] result)) :
      HasType context (.map array callable) (.array result)
  | lambda {context : TypeContext} {params : List String} {body : Expr} {arguments : List Ty}
      {result : Ty} (arity : arguments.length = Expr.lambdaArity params body)
      (bounded : arguments.length ≤ Expr.maxArguments)
      (typed : HasType (context.enter params arguments) body result) :
      HasType context (.lambda params body) (.function arguments result)

inductive HasTypes : TypeContext → List Expr → List Ty → Prop
  | nil {context : TypeContext} : HasTypes context [] []
  | cons {context : TypeContext} {expr : Expr} {rest : List Expr} {ty : Ty} {types : List Ty}
      (typed : HasType context expr ty) (all : HasTypes context rest types) :
      HasTypes context (expr :: rest) (ty :: types)

end

end Rules

variable {known : Nat} {slots : Nat → Ty} {context : TypeContext} {ty : Ty}

theorem hasType_constant {value : Value} :
    HasType known slots context (.constant value) ty ↔ value.HasType ty :=
  ⟨fun | .constant typed => typed, .constant⟩

theorem not_hasType_unknown {name : String} {operands : List Expr}
    (unknown : context.registry.signature? name = none) :
    ¬ HasType known slots context (.primitive name operands) ty := by
  intro typed
  cases typed with
  | nullary registered => rw [unknown] at registered; cases registered
  | bare registered => rw [unknown] at registered; cases registered
  | primitive registered => rw [unknown] at registered; cases registered

theorem hasType_primitive {name : String} {operands : List Expr} {signature : Signature}
    (registered : context.registry.signature? name = some signature) :
    HasType known slots context (.primitive name operands) ty ↔
      ∃ generics : Nat → Ty,
        (operands = [] ∧ ty = bareTy (signature.scheme.params.map (Ty.instanceBy generics))
          (signature.scheme.result.instanceBy generics)) ∨
        (operands ≠ [] ∧ ty = signature.scheme.result.instanceBy generics ∧
          HasTypes known slots context operands
            (signature.scheme.params.map (Ty.instanceBy generics))) := by
  constructor
  · intro typed
    cases typed with
    | nullary found none generics =>
        cases registered.symm.trans found
        exact ⟨generics, Or.inl ⟨rfl, by simp [bareTy, none]⟩⟩
    | bare found some generics =>
        cases registered.symm.trans found
        exact ⟨generics, Or.inl ⟨rfl, by simp [bareTy, some]⟩⟩
    | primitive found applied typed =>
        cases registered.symm.trans found
        exact ⟨_, Or.inr ⟨applied, rfl, typed⟩⟩
  · rintro ⟨generics, ⟨rfl, rfl⟩ | ⟨applied, rfl, typed⟩⟩
    · by_cases none : signature.scheme.params = []
      · simp only [bareTy, none, List.map_nil, List.isEmpty_nil, if_true]
        exact .nullary registered none generics
      · simp only [bareTy, List.isEmpty_iff, List.map_eq_nil_iff, none, if_false]
        exact .bare registered none generics
    · exact .primitive registered applied typed

theorem hasType_apply {operator : Expr} {operands : List Expr} :
    HasType known slots context (.apply operator operands) ty ↔
      ∃ types, HasType known slots context operator (.function types ty) ∧
        HasTypes known slots context operands types :=
  ⟨fun | .apply typed all => ⟨_, typed, all⟩, fun ⟨_, typed, all⟩ => .apply typed all⟩

theorem hasType_map {array callable : Expr} :
    HasType known slots context (.map array callable) ty ↔
      ∃ element result, HasType known slots context array (.array element) ∧
        HasType known slots context callable (.function [element] result) ∧
        ty = .array result := by
  constructor
  · rintro (_ | _)
    exact ⟨_, _, ‹_›, ‹_›, rfl⟩
  · rintro ⟨element, result, typed, called, rfl⟩
    exact .map typed called

theorem hasType_lambda {params : List String} {body : Expr} :
    HasType known slots context (.lambda params body) ty ↔
      ∃ arguments result, arguments.length = Expr.lambdaArity params body ∧
        arguments.length ≤ Expr.maxArguments ∧
        HasType known slots (context.enter params arguments) body result ∧
        ty = .function arguments result := by
  constructor
  · intro typed
    cases typed with
    | lambda arity bounded typed => exact ⟨_, _, arity, bounded, typed, rfl⟩
  · rintro ⟨arguments, result, arity, bounded, typed, rfl⟩
    exact .lambda arity bounded typed

theorem hasTypes_nil {types : List Ty} :
    HasTypes known slots context [] types ↔ types = [] :=
  ⟨fun | .nil => rfl, fun same => same ▸ .nil⟩

theorem hasTypes_cons {expr : Expr} {rest : List Expr} {types : List Ty} :
    HasTypes known slots context (expr :: rest) types ↔
      ∃ first others, types = first :: others ∧ HasType known slots context expr first ∧
        HasTypes known slots context rest others := by
  constructor
  · intro typed
    cases typed with
    | cons typed all => exact ⟨_, _, rfl, typed, all⟩
  · rintro ⟨first, others, rfl, typed, all⟩
    exact .cons typed all

theorem HasTypes.length {exprs : List Expr} {types : List Ty}
    (typed : HasTypes known slots context exprs types) : types.length = exprs.length := by
  induction exprs generalizing types with
  | nil =>
      rw [hasTypes_nil.mp typed]
      rfl
  | cons expr rest ih =>
      obtain ⟨first, others, rfl, _, all⟩ := hasTypes_cons.mp typed
      rw [List.length_cons, List.length_cons, ih all]

def LambdaScope.fill (vars : Nat → Ty) (scope : LambdaScope) : LambdaScope :=
  ⟨scope.names.map fun entry => (entry.1, entry.2.fill vars .generic),
    scope.arguments.map (Ty.fill vars .generic)⟩

def TypeContext.fill (context : TypeContext) (vars : Nat → Ty) : TypeContext :=
  { context with
    params := context.params.map fun entry => (entry.1, entry.2.fill vars .generic)
    scopes := context.scopes.map (LambdaScope.fill vars) }

namespace TypeContext

variable {vars other : Nat → Ty}

theorem lookup_map (change : Ty → Ty) (entries : List (String × Ty)) (name : String) :
    (entries.map fun entry => (entry.1, change entry.2)).lookup name =
      (entries.lookup name).map change := by
  induction entries with
  | nil => rfl
  | cons entry rest ih =>
      rw [List.map_cons, List.lookup_cons, List.lookup_cons, ih]
      split <;> rfl

theorem Scoped.lookup {size : Nat} (small : context.Scoped size) {name : String}
    (found : context.params.lookup name = some ty) : ty.Scoped size := by
  obtain ⟨before, after, parts, _⟩ := List.lookup_eq_some_iff.mp found
  refine small.params (name, ty) ?_
  rw [parts]
  simp

theorem fill_scoped? (context : TypeContext) (vars : Nat → Ty) (name : String) :
    (context.fill vars).scoped? name =
      (context.scoped? name).map (Ty.fill vars .generic) := by
  have scopes : ∀ scopes : List LambdaScope,
      (scopes.map (LambdaScope.fill vars)).findSome?
          (fun scope => scope.names.reverse.lookup name) =
        (scopes.findSome? fun scope => scope.names.reverse.lookup name).map
          (Ty.fill vars .generic) := by
    intro scopes
    induction scopes with
    | nil => rfl
    | cons scope rest ih =>
        have first : (scope.fill vars).names.reverse.lookup name =
            (scope.names.reverse.lookup name).map (Ty.fill vars .generic) := by
          rw [LambdaScope.fill, ← List.map_reverse, lookup_map]
        rw [List.map_cons, List.findSome?_cons, List.findSome?_cons, first, ih]
        cases scope.names.reverse.lookup name <;> rfl
  exact scopes context.scopes

theorem fill_enter (context : TypeContext) (params : List String) (types : List Ty) :
    (context.enter params types).fill vars =
      (context.fill vars).enter params (types.map (Ty.fill vars .generic)) := by
  simp only [enter, fill, List.map_cons, LambdaScope.fill, List.zip_map_right]
  congr 3

theorem Scoped.fill_eq {size : Nat} (small : context.Scoped size)
    (agree : Ty.AgreeBelow size vars other) : context.fill other = context.fill vars := by
  have entries : ∀ entries : List (String × Ty), (∀ entry ∈ entries, entry.2.Scoped size) →
      entries.map (fun entry => (entry.1, entry.2.fill other .generic)) =
        entries.map fun entry => (entry.1, entry.2.fill vars .generic) := by
    intro entries entriesSmall
    refine List.map_congr_left fun entry member => ?_
    rw [(entriesSmall entry member).fill_eq agree]
  rw [fill, fill, entries _ small.params]
  congr 1
  refine List.map_congr_left fun scope inside => ?_
  rw [LambdaScope.fill, LambdaScope.fill, entries _ (small.names scope inside)]
  congr 1
  exact List.map_congr_left fun ty member => (small.arguments scope inside ty member).fill_eq agree

end TypeContext

end NodeGraph
