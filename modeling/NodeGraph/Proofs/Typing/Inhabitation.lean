import NodeGraph.Proofs.Expr.Evaluation
import NodeGraph.Proofs.Typing.Substitution

/-!
Inhabitants of types. Errors inhabit every type, numbers may be integers, the items of an array
inhabit its element type, and a function maps inhabitants of its parameter types to inhabitants of
its result type, however deep calls may still nest. For each form of expression, its value inhabits
a type when the values of its parts do.
-/

namespace NodeGraph

def BaseType.admits : BaseType → Value → Bool
  | .number, .number _ | .number, .integer _ => true
  | .boolean, .boolean _ => true
  | .text, .text _ => true
  | .point, .point _ => true
  | .rect, .rect _ => true
  | .color, .color _ => true
  | .image, .image _ => true
  | _, _ => false

namespace Ty

mutual

/-- The inhabitants of a type. -/
def Admits (registry : Registry) : Ty → Value → Prop
  | .base kind, value => value.isError = true ∨ kind.admits value = true
  | .array element, value =>
      value.isError = true ∨ ∃ items, value = .array items ∧
        ∀ item ∈ items, element.Admits registry item
  | .function params result, value =>
      value.isError = true ∨ ∃ callable, value = .function callable ∧
        ∀ remaining origin arguments, AdmitsAll registry params arguments →
          ∃ outcome, callWithin registry remaining origin callable arguments = .ok outcome ∧
            result.Admits registry outcome
  | .var _, value | .generic _, value => value.isError = true

def AdmitsAll (registry : Registry) : List Ty → List Value → Prop
  | [], [] => True
  | ty :: types, value :: values => ty.Admits registry value ∧ AdmitsAll registry types values
  | _, _ => False

end

def Yields (registry : Registry) (ty : Ty) (outcome : Except Fault Value) : Prop :=
  ∃ value, outcome = .ok value ∧ ty.Admits registry value

end Ty

/-- A callable maps inhabitants of the parameter types to inhabitants of the result type. -/
def Callable.Maps (registry : Registry) (params : List Ty) (result : Ty) (callable : Callable) :
    Prop :=
  ∀ remaining origin arguments, Ty.AdmitsAll registry params arguments →
    result.Yields registry (callWithin registry remaining origin callable arguments)

/-- Primitives are as good as their signatures: on inhabitants of an instance of the parameter types
they return an inhabitant of the same instance of the result type. Signatures have no variables, and
no constant is a function. -/
structure Registry.Sound (registry : Registry) : Prop where
  closed : ∀ name signature, registry.signature? name = some signature →
    signature.scheme.toTy.vars = []
  constants : ∀ name signature, registry.signature? name = some signature →
    signature.scheme.params = [] → signature.scheme.result.isFunction = false
  results : ∀ name signature, registry.signature? name = some signature →
    ∀ generics operands,
      Ty.AdmitsAll registry (signature.scheme.params.map (Ty.instanceBy generics)) operands →
        (signature.scheme.result.instanceBy generics).Yields registry
          (registry.invoke name operands)

variable {registry : Registry}

namespace Ty

theorem admits_of_error {value : Value} (broken : value.isError = true) (ty : Ty) :
    ty.Admits registry value := by
  cases ty with
  | base kind => exact Or.inl broken
  | array element => exact Or.inl broken
  | function params result => exact Or.inl broken
  | «var» id => exact broken
  | generic number => exact broken

theorem yields_of_error {value : Value} (broken : value.isError = true) (ty : Ty) :
    ty.Yields registry (.ok value) :=
  ⟨value, rfl, admits_of_error broken ty⟩

theorem admits_function {params : List Ty} {result : Ty} {value : Value} :
    (Ty.function params result).Admits registry value ↔
      value.isError = true ∨ ∃ callable, value = .function callable ∧
        callable.Maps registry params result := by
  rw [Admits]
  rfl

theorem admits_array {element : Ty} {value : Value} :
    (Ty.array element).Admits registry value ↔
      value.isError = true ∨ ∃ items, value = .array items ∧
        ∀ item ∈ items, element.Admits registry item := by
  rw [Admits]

theorem admitsAll_cons {ty : Ty} {types : List Ty} {value : Value} {values : List Value} :
    AdmitsAll registry (ty :: types) (value :: values) ↔
      ty.Admits registry value ∧ AdmitsAll registry types values := by
  rw [AdmitsAll]

theorem admitsAll_length {types : List Ty} {values : List Value}
    (admitted : AdmitsAll registry types values) : types.length = values.length := by
  induction types generalizing values with
  | nil =>
      cases values with
      | nil => rfl
      | cons value rest => cases admitted
  | cons ty types ih =>
      cases values with
      | nil => cases admitted
      | cons value rest =>
          rw [List.length_cons, List.length_cons, ih (admitsAll_cons.mp admitted).2]

theorem admitsAll_getElem? {types : List Ty} {values : List Value}
    (admitted : AdmitsAll registry types values) {index : Nat} {ty : Ty}
    (found : types[index]? = some ty) :
    ∃ value, values[index]? = some value ∧ ty.Admits registry value := by
  induction types generalizing values index with
  | nil => cases found
  | cons first types ih =>
      cases values with
      | nil => cases admitted
      | cons value rest =>
          obtain ⟨head, tail⟩ := admitsAll_cons.mp admitted
          cases index with
          | zero =>
              cases found
              exact ⟨value, rfl, head⟩
          | succ index => exact ih tail found

end Ty

theorem Value.isError_of_firstError? {values : List Value} {error : Value}
    (found : Value.firstError? values = some error) : error.isError = true :=
  List.find?_some (p := Value.isError) found

theorem Callable.maps_of_errorless {params : List Ty} {result : Ty} {callable : Callable}
    (maps : ∀ remaining origin arguments, Ty.AdmitsAll registry params arguments →
      Value.firstError? arguments = none →
        result.Yields registry (callWithin registry remaining origin callable arguments)) :
    callable.Maps registry params result := by
  intro remaining origin arguments admitted
  cases found : Value.firstError? arguments with
  | none => exact maps remaining origin arguments admitted found
  | some error =>
      rw [callWithin_eq, found]
      exact Ty.yields_of_error (Value.isError_of_firstError? found) result

theorem Registry.Sound.maps (sound : registry.Sound) {name : String} {signature : Signature}
    (found : registry.signature? name = some signature) (generics : Nat → Ty) :
    Callable.Maps registry (signature.scheme.params.map (Ty.instanceBy generics))
      (signature.scheme.result.instanceBy generics) (.primitive name) := by
  refine Callable.maps_of_errorless fun remaining origin arguments admitted errorless => ?_
  rw [callWithin_eq, errorless]
  exact sound.results name signature found generics arguments admitted

theorem Registry.Sound.maps_constant (sound : registry.Sound) {name : String}
    {signature : Signature} (found : registry.signature? name = some signature)
    (constant : signature.scheme.params = []) {generics : Nat → Ty} {params : List Ty} {result : Ty}
    (function : signature.scheme.result.instanceBy generics = .function params result)
    (others : List Ty) (other : Ty) :
    Callable.Maps registry others other (.primitive name) := by
  have closed := sound.closed name signature found
  have simple := sound.constants name signature found constant
  cases shape : signature.scheme.result with
  | base kind => simp [shape, Ty.instanceBy] at function
  | array element => simp [shape, Ty.instanceBy] at function
  | function inner innerResult => simp [shape, Ty.isFunction] at simple
  | «var» id => simp [Scheme.toTy, shape, Ty.vars] at closed
  | generic number =>
      refine Callable.maps_of_errorless fun remaining origin arguments admitted errorless => ?_
      rw [callWithin_eq, errorless]
      simp only
      cases arguments with
      | nil =>
          have yields := sound.results name signature found (fun _ => other) []
            (by rw [constant]; exact trivial)
          rwa [shape, Ty.instanceBy, Ty.fill_generic] at yields
      | cons argument rest =>
          obtain ⟨primitive, present, rfl⟩ := Option.map_eq_some_iff.mp found
          have arity : primitive.signature.arity = 0 := by
            rw [Signature.arity, Scheme.arity, constant]
            rfl
          rw [Registry.invoke, present]
          simp only [arity, List.length_cons]
          exact Ty.yields_of_error rfl other

theorem Callable.maps_closure {origin : Origin} {params : List String} {body : Expr}
    {bindings : Bindings} {types : List Ty} {result : Ty}
    (arity : types.length = Expr.lambdaArity params body)
    (bodies : ∀ remaining origin arguments, Ty.AdmitsAll registry types arguments →
      result.Yields registry (body.evalWith registry (callWithin registry remaining)
        (.ofCall bindings params arguments) origin)) :
    Callable.Maps registry types result (.closure origin params body bindings) := by
  refine Callable.maps_of_errorless fun remaining place arguments admitted errorless => ?_
  have lengths : arguments.length = Expr.lambdaArity params body := by
    rw [← arity, Ty.admitsAll_length admitted]
  rw [callWithin_eq, errorless]
  simp only [lengths, ne_eq, not_true_eq_false, if_false]
  cases remaining with
  | zero => exact Ty.yields_of_error rfl result
  | succ remaining => exact bodies remaining place arguments admitted

def OperandsYield (registry : Registry) (types : List Ty)
    (outcome : Except Fault (Except Value (List Value))) : Prop :=
  (∃ error, outcome = .ok (.error error) ∧ error.isError = true) ∨
    ∃ values, outcome = .ok (.ok values) ∧ Ty.AdmitsAll registry types values

def OperatorYields (registry : Registry) (params : List Ty) (result : Ty)
    (outcome : Except Fault (Except Value Callable)) : Prop :=
  (∃ error, outcome = .ok (.error error) ∧ error.isError = true) ∨
    ∃ callable, outcome = .ok (.ok callable) ∧ callable.Maps registry params result

namespace Expr

variable {call : Call} {frame : Frame} {origin : Origin}

theorem operands_nil (position : Nat) :
    OperandsYield registry [] (evalOperands registry call frame origin position []) :=
  Or.inr ⟨[], rfl, trivial⟩

theorem operands_cons {position : Nat} {expr : Expr} {rest : List Expr} {ty : Ty} {types : List Ty}
    (first : ty.Yields registry (expr.evalWith registry call frame (position :: origin)))
    (others : OperandsYield registry types
      (evalOperands registry call frame origin (position + 1) rest)) :
    OperandsYield registry (ty :: types)
      (evalOperands registry call frame origin position (expr :: rest)) := by
  obtain ⟨value, evaluated, admitted⟩ := first
  rw [evalOperands, evaluated]
  simp only [bind, Except.bind]
  split
  · rename_i broken
    exact Or.inl ⟨value, rfl, broken⟩
  · rcases others with ⟨error, given, broken⟩ | ⟨values, given, admittedAll⟩
    · rw [given]
      exact Or.inl ⟨error, rfl, broken⟩
    · rw [given]
      exact Or.inr ⟨value :: values, rfl, Ty.admitsAll_cons.mpr ⟨admitted, admittedAll⟩⟩

theorem operator_of_yields {expr : Expr} (composed : expr.bareName? = none) {params : List Ty}
    {result : Ty}
    (yields : (Ty.function params result).Yields registry
      (expr.evalWith registry call frame origin)) :
    OperatorYields registry params result (expr.callableWith registry call frame origin) := by
  obtain ⟨value, evaluated, admitted⟩ := yields
  rw [callableWith, composed, evaluated]
  rcases Ty.admits_function.mp admitted with broken | ⟨callable, rfl, maps⟩
  · cases value with
    | error message => exact Or.inl ⟨.error message, rfl, rfl⟩
    | _ => cases broken
  · exact Or.inr ⟨callable, rfl, maps⟩

theorem operator_of_maps {expr : Expr} {name : String} (bare : expr.bareName? = some name)
    {params : List Ty} {result : Ty} (maps : Callable.Maps registry params result (.primitive name))
    :
    OperatorYields registry params result (expr.callableWith registry call frame origin) := by
  rw [callableWith, bare]
  simp only [Registry.callable?]
  split
  · exact Or.inr ⟨_, rfl, maps⟩
  · exact Or.inl ⟨_, rfl, rfl⟩

theorem apply_yields {remaining : Nat} {operator : Expr} {operands : List Expr} {params : List Ty}
    {result : Ty}
    (operatorYields : OperatorYields registry params result
      (operator.callableWith registry (callWithin registry remaining) frame (0 :: origin)))
    (operandsYield : OperandsYield registry params
      (evalOperands registry (callWithin registry remaining) frame origin 2 operands)) :
    result.Yields registry ((Expr.apply operator operands).evalWith registry
      (callWithin registry remaining) frame origin) := by
  rw [evalWith_apply]
  rcases operatorYields with ⟨error, given, broken⟩ | ⟨callable, given, maps⟩
  · rw [given]
    exact Ty.yields_of_error broken result
  · rcases operandsYield with ⟨error, evaluated, broken⟩ | ⟨values, evaluated, admitted⟩
    · rw [given, evaluated]
      exact Ty.yields_of_error broken result
    · rw [given, evaluated]
      exact maps remaining (1 :: origin) values admitted

theorem callEach_yields {remaining : Nat} {callable : Callable} {element result : Ty}
    (maps : callable.Maps registry [element] result) {items : List Value}
    (admitted : ∀ item ∈ items, element.Admits registry item) :
    (Ty.array result).Yields registry
      (callEach (callWithin registry remaining) origin callable items) := by
  have general : ∀ (rest : List Value) (start : Nat),
      (∀ item ∈ rest, element.Admits registry item) →
        ∃ values, ((rest.zipIdx start).mapM fun item =>
          callWithin registry remaining ((item.2 + 2) :: origin) callable [item.1]) = .ok values ∧
            ∀ value ∈ values, result.Admits registry value := by
    intro rest
    induction rest with
    | nil => exact fun _ _ => ⟨[], rfl, fun _ member => nomatch member⟩
    | cons item rest ih =>
        intro start admitted
        obtain ⟨value, called, inhabits⟩ := maps remaining ((start + 2) :: origin) [item]
          (Ty.admitsAll_cons.mpr ⟨admitted item List.mem_cons_self, trivial⟩)
        obtain ⟨values, others, inhabitAll⟩ :=
          ih (start + 1) fun other member => admitted other (List.mem_cons_of_mem _ member)
        refine ⟨value :: values, ?_, ?_⟩
        · rw [List.zipIdx_cons, List.mapM_cons, others]
          simp only [called]
          rfl
        · intro other member
          rcases List.mem_cons.mp member with same | later
          · exact same ▸ inhabits
          · exact inhabitAll other later
  obtain ⟨values, called, inhabit⟩ := general items 0 admitted
  refine ⟨.array values, ?_, Ty.admits_array.mpr (Or.inr ⟨values, rfl, inhabit⟩)⟩
  change (items.zipIdx.mapM fun item =>
    callWithin registry remaining ((item.2 + 2) :: origin) callable [item.1]).bind _ = _
  rw [called]
  rfl

theorem map_yields {remaining : Nat} {array callable : Expr} {element result : Ty}
    (arrayYields : (Ty.array element).Yields registry
      (array.evalWith registry (callWithin registry remaining) frame (0 :: origin)))
    (operatorYields : OperatorYields registry [element] result
      (callable.callableWith registry (callWithin registry remaining) frame (1 :: origin))) :
    (Ty.array result).Yields registry ((Expr.map array callable).evalWith registry
      (callWithin registry remaining) frame origin) := by
  obtain ⟨value, evaluated, admitted⟩ := arrayYields
  rw [evalWith_map, evaluated]
  rcases Ty.admits_array.mp admitted with broken | ⟨items, rfl, inhabit⟩
  · cases value with
    | error message => exact @Ty.yields_of_error registry (.error message) rfl _
    | _ => cases broken
  · simp only [bind, Except.bind, Value.mapped]
    rcases operatorYields with ⟨error, given, broken⟩ | ⟨callable, given, maps⟩
    · rw [given]
      exact Ty.yields_of_error broken _
    · rw [given]
      simp only [mapWith]
      split
      · exact Ty.yields_of_error rfl _
      · exact callEach_yields maps inhabit
      · exact Ty.yields_of_error rfl _

end Expr

end NodeGraph
