import NodeGraph.Primitive.Builtin
import NodeGraph.Proofs.Expr.Faults
import NodeGraph.Proofs.Typing.Inhabitation

/-!
The signatures of the builtin primitives. Whatever a primitive with a base type as its result gives
is of that type, whatever its operands are; only selection and the operations on arrays pass their
operands on. One of those does not keep to its signature: flattening opens arrays at every depth,
where its type tells of one.
-/

namespace NodeGraph

def Gives {failure : Type} (kind : BaseType) (outcome : Except failure Value) : Prop :=
  ∀ value, outcome = .ok value → kind.admits value = true

namespace Gives

variable {failure middle : Type} {kind : BaseType}

theorem ok {value : Value} (admitted : kind.admits value = true) :
    Gives kind (.ok value : Except failure Value) := by
  intro other same
  cases same
  exact admitted

theorem error (refused : failure) : Gives kind (.error refused) := nofun

theorem bind {first : Except failure middle} {next : middle → Except failure Value}
    (rest : ∀ found, Gives kind (next found)) : Gives kind (first >>= next) := by
  cases first with
  | error refused => exact error refused
  | ok found => exact rest found

theorem ite {condition : Prop} [Decidable condition] {left right : Except failure Value}
    (leftGives : Gives kind left) (rightGives : Gives kind right) :
    Gives kind (if condition then left else right) := by
  split
  · exact leftGives
  · exact rightGives

theorem mapError {other : Type} {outcome : Except failure Value} (gives : Gives kind outcome)
    (wrap : failure → other) : Gives kind (outcome.mapError wrap) := by
  cases outcome with
  | error refused => exact error (wrap refused)
  | ok value => exact ok (gives value rfl)

end Gives

/-! ### Primitives with base types -/

namespace Primitive

/-- The result is of a base type, and whatever the primitive gives is of it. -/
def GivesBase (primitive : Primitive) : Prop :=
  ∃ kind, primitive.signature.scheme.result = .base kind ∧
    ∀ operands, Gives kind (primitive.apply operands)

section Arities

variable {signature : Signature} {kind : BaseType}

theorem givesBase_nullary (result : signature.scheme.result = .base kind) {value : Value}
    (gives : kind.admits value = true) : (nullary signature value).GivesBase :=
  ⟨kind, result, fun _ => .ok gives⟩

theorem givesBase_unary (result : signature.scheme.result = .base kind)
    {body : Value → Except ValueError Value} (gives : ∀ operand, Gives kind (body operand)) :
    (unary signature body).GivesBase := by
  refine ⟨kind, result, fun operands => ?_⟩
  simp only [unary]
  split
  · exact (gives _).mapError _
  · exact .error _

theorem givesBase_binary (result : signature.scheme.result = .base kind)
    {body : Value → Value → Except ValueError Value}
    (gives : ∀ first second, Gives kind (body first second)) :
    (binary signature body).GivesBase := by
  refine ⟨kind, result, fun operands => ?_⟩
  simp only [binary]
  split
  · exact (gives _ _).mapError _
  · exact .error _

theorem givesBase_ternary (result : signature.scheme.result = .base kind)
    {body : Value → Value → Value → Except ValueError Value}
    (gives : ∀ first second third, Gives kind (body first second third)) :
    (ternary signature body).GivesBase := by
  refine ⟨kind, result, fun operands => ?_⟩
  simp only [ternary]
  split
  · exact (gives _ _ _).mapError _
  · exact .error _

theorem givesBase_quaternary (result : signature.scheme.result = .base kind)
    {body : Value → Value → Value → Value → Except ValueError Value}
    (gives : ∀ first second third fourth, Gives kind (body first second third fourth)) :
    (quaternary signature body).GivesBase := by
  refine ⟨kind, result, fun operands => ?_⟩
  simp only [quaternary]
  split
  · exact (gives _ _ _ _).mapError _
  · exact .error _

end Arities

end Primitive

namespace Math

theorem arithmetic_gives (onIntegers : Int → Int → Int) (onFloats : Float → Float → Float)
    (left right : Value) : Gives .number (arithmetic onIntegers onFloats left right) := by
  unfold arithmetic
  simp only
  split
  · exact .ok rfl
  · exact .bind fun _ => .bind fun _ => .ok rfl

theorem signed_gives (onInteger : Int → Int) (onFloat : Float → Float) (operand : Value) :
    Gives .number (signed onInteger onFloat operand) := by
  unfold signed
  simp only
  split
  · exact .ok rfl
  · exact .bind fun _ => .ok rfl

theorem divide_gives (left right : Value) : Gives .number (divide left right) :=
  .bind fun _ => .bind fun _ => .ite (.error _) (.ok rfl)

theorem power_gives (left right : Value) : Gives .number (power left right) :=
  .bind fun _ => .bind fun _ => .ok rfl

theorem squareRoot_gives (operand : Value) : Gives .number (squareRoot operand) :=
  .bind fun _ => .ite (.error _) (.ok rfl)

theorem refused_fault_iff {outcome : Except ValueError Float} {next : Float → Except Failure Value}
    {fault : Fault} :
    (outcome.mapError Failure.refused >>= next) = .error (.fault fault) ↔
      ∃ real, outcome = .ok real ∧ next real = .error (.fault fault) := by
  cases outcome with
  | error error => simp [Except.mapError, bind, Except.bind]
  | ok real => simp [Except.mapError, bind, Except.bind]

theorem clamp_fault {operand lowest highest : Value} {fault : Fault}
    (faulty : clamp operand lowest highest = .error (.fault fault)) :
    ∃ low high, fault = .unorderedBounds low high := by
  obtain ⟨_, _, faulty⟩ := refused_fault_iff.mp faulty
  obtain ⟨low, _, faulty⟩ := refused_fault_iff.mp faulty
  obtain ⟨high, _, faulty⟩ := refused_fault_iff.mp faulty
  split at faulty
  · cases faulty
  · split at faulty
    · cases faulty
    · cases faulty
      exact ⟨low, high, rfl⟩

def clamping : Primitive := ⟨signature "clamp" 3 "Clamp x to [lo, hi]", clampAll⟩

theorem clamping_fault {operands : List Value} (many : operands.length = clamping.signature.arity)
    {fault : Fault} (faulty : clamping.apply operands = .error (.fault fault)) :
    ∃ low high, fault = .unorderedBounds low high := by
  match operands, many with
  | [_, _, _], _ => exact clamp_fault faulty

theorem clampAll_gives (operands : List Value) : Gives .number (clampAll operands) := by
  unfold clampAll
  split
  · exact .bind fun _ => .bind fun _ => .bind fun _ => .ite (.error _) (.ite (.ok rfl) (.error _))
  · exact .error _

theorem primitives_giveBase : ∀ primitive ∈ primitives, primitive.GivesBase := by
  simp only [primitives, List.forall_mem_cons, List.not_mem_nil, false_implies, implies_true,
    and_true]
  exact ⟨Primitive.givesBase_binary rfl (arithmetic_gives _ _),
    Primitive.givesBase_binary rfl (arithmetic_gives _ _),
    Primitive.givesBase_binary rfl (arithmetic_gives _ _),
    Primitive.givesBase_binary rfl divide_gives,
    Primitive.givesBase_binary rfl (arithmetic_gives _ _),
    Primitive.givesBase_binary rfl (arithmetic_gives _ _),
    Primitive.givesBase_binary rfl power_gives,
    Primitive.givesBase_unary rfl (signed_gives _ _),
    Primitive.givesBase_unary rfl (signed_gives _ _),
    Primitive.givesBase_unary rfl squareRoot_gives,
    ⟨.number, rfl, clampAll_gives⟩,
    Primitive.givesBase_nullary rfl rfl⟩

end Math

namespace Geometric

theorem makePoint_gives (x y : Value) : Gives .point (makePoint x y) :=
  .bind fun _ => .bind fun _ => .ok rfl

theorem makeRect_gives (x y width height : Value) : Gives .rect (makeRect x y width height) :=
  .bind fun _ => .bind fun _ => .ite (.error _) (.bind fun _ => .bind fun _ => .ok rfl)

theorem coordinate_gives (read : Point → Float) (operand : Value) :
    Gives .number (coordinate read operand) := .bind fun _ => .ok rfl

theorem extent_gives (read : Rect → Float) (operand : Value) :
    Gives .number (extent read operand) := .bind fun _ => .ok rfl

theorem combine_gives (join : Rect → Rect → Rect) (left right : Value) :
    Gives .rect (combine join left right) := .bind fun _ => .bind fun _ => .ok rfl

theorem fromCorners_gives (first second : Value) : Gives .rect (fromCorners first second) :=
  .bind fun _ => .bind fun _ => .ok rfl

theorem origin_gives (operand : Value) : Gives .point (origin operand) := .bind fun _ => .ok rfl

theorem translate_gives (operand offset : Value) : Gives .rect (translate operand offset) :=
  .bind fun _ => .bind fun _ => .ok rfl

theorem contains_gives (operand point : Value) : Gives .boolean (contains operand point) :=
  .bind fun _ => .bind fun _ => .ok rfl

theorem imageExtent_gives (operand : Value) : Gives .rect (imageExtent operand) := by
  refine .bind fun image => ?_
  split
  · exact .ok rfl
  · exact .error _

theorem primitives_giveBase : ∀ primitive ∈ primitives, primitive.GivesBase := by
  simp only [primitives, List.forall_mem_cons, List.not_mem_nil, false_implies, implies_true,
    and_true]
  exact ⟨Primitive.givesBase_binary rfl makePoint_gives,
    Primitive.givesBase_unary rfl (coordinate_gives _),
    Primitive.givesBase_unary rfl (coordinate_gives _),
    Primitive.givesBase_quaternary rfl makeRect_gives,
    Primitive.givesBase_binary rfl fromCorners_gives,
    Primitive.givesBase_unary rfl origin_gives,
    Primitive.givesBase_unary rfl (extent_gives _),
    Primitive.givesBase_unary rfl (extent_gives _),
    Primitive.givesBase_binary rfl (combine_gives _),
    Primitive.givesBase_binary rfl (combine_gives _),
    Primitive.givesBase_binary rfl translate_gives,
    Primitive.givesBase_binary rfl contains_gives,
    Primitive.givesBase_unary rfl imageExtent_gives⟩

end Geometric

namespace Chromatic

theorem rgba_gives (red green blue alpha : Value) : Gives .color (rgba red green blue alpha) :=
  .bind fun _ => .bind fun _ => .bind fun _ => .bind fun _ => .ok rfl

theorem rgb_gives (red green blue : Value) : Gives .color (rgb red green blue) :=
  .bind fun _ => .bind fun _ => .bind fun _ => .ok rfl

theorem fromHex_gives (operand : Value) : Gives .color (fromHex operand) := by
  refine .bind fun text => ?_
  split
  · exact .ok rfl
  · exact .error _

theorem alpha_gives (operand : Value) : Gives .number (alpha operand) := .bind fun _ => .ok rfl

theorem over_gives (top below : Value) : Gives .color («over» top below) :=
  .bind fun _ => .bind fun _ => .ok rfl

theorem mix_gives (first second amount : Value) : Gives .color (mix first second amount) :=
  .bind fun _ => .bind fun _ => .bind fun _ => .ok rfl

theorem primitives_giveBase : ∀ primitive ∈ primitives, primitive.GivesBase := by
  simp only [primitives, List.forall_mem_cons, List.not_mem_nil, false_implies, implies_true,
    and_true]
  exact ⟨Primitive.givesBase_quaternary rfl rgba_gives,
    Primitive.givesBase_ternary rfl rgb_gives,
    Primitive.givesBase_unary rfl fromHex_gives,
    Primitive.givesBase_unary rfl alpha_gives,
    Primitive.givesBase_binary rfl over_gives,
    Primitive.givesBase_ternary rfl mix_gives⟩

end Chromatic

theorem Ty.admits_base_of_kind {registry : Registry} {kind : BaseType} {value : Value}
    (admitted : kind.admits value = true) : (Ty.base kind).Admits registry value := by
  rw [Admits]
  exact Or.inr admitted

namespace Primitive

variable {registry : Registry}

/-- On operands of an instance of the parameter types, none an error, whatever the primitive gives
is of the same instance of the result type. -/
def Respects (registry : Registry) (primitive : Primitive) : Prop :=
  ∀ generics operands, Ty.AdmitsAll registry
      (primitive.signature.scheme.params.map (Ty.instanceBy generics)) operands →
    Value.firstError? operands = none → ∀ value, primitive.apply operands = .ok value →
      (primitive.signature.scheme.result.instanceBy generics).Admits registry value

theorem GivesBase.respects {primitive : Primitive} (gives : primitive.GivesBase) :
    primitive.Respects registry := by
  obtain ⟨kind, result, gives⟩ := gives
  intro generics operands _ _ value outcome
  rw [result, Ty.instanceBy, Ty.fill_base]
  exact Ty.admits_base_of_kind (gives operands value outcome)

end Primitive

/-! ### Operands -/

theorem Value.firstError?_eq_none {values : List Value} :
    Value.firstError? values = none ↔ ∀ value ∈ values, value.isError = false := by
  rw [Value.firstError?, List.find?_eq_none]
  simp only [Bool.not_eq_true]

theorem Value.asArray_ok {value : Value} {items : List Value} (found : value.asArray = .ok items) :
    value = .array items := by
  cases value with
  | array _ => exact congrArg Value.array (Except.ok.inj found)
  | _ => cases found

theorem mapError_ok {failure other result : Type} {outcome : Except failure result}
    {wrap : failure → other} {value : result} (found : outcome.mapError wrap = .ok value) :
    outcome = .ok value := by
  cases outcome with
  | error refused => cases found
  | ok _ => exact congrArg Except.ok (Except.ok.inj found)

namespace Primitive

variable {signature : Signature} {operands : List Value} {value : Value}

theorem unary_ok {body : Value → Except ValueError Value}
    (applied : (unary signature body).apply operands = .ok value) :
    ∃ operand rest, operands = operand :: rest ∧ body operand = .ok value := by
  simp only [unary] at applied
  split at applied
  · exact ⟨_, _, rfl, mapError_ok applied⟩
  · cases applied

theorem binary_ok {body : Value → Value → Except ValueError Value}
    (applied : (binary signature body).apply operands = .ok value) :
    ∃ first second rest, operands = first :: second :: rest ∧ body first second = .ok value := by
  simp only [binary] at applied
  split at applied
  · exact ⟨_, _, _, rfl, mapError_ok applied⟩
  · cases applied

theorem ternary_ok {body : Value → Value → Value → Except ValueError Value}
    (applied : (ternary signature body).apply operands = .ok value) :
    ∃ first second third rest, operands = first :: second :: third :: rest ∧
      body first second third = .ok value := by
  simp only [ternary] at applied
  split at applied
  · exact ⟨_, _, _, _, rfl, mapError_ok applied⟩
  · cases applied

end Primitive

/-! ### Selection -/

namespace Logic

theorem compare_gives (holds : Float → Float → Bool) (left right : Value) :
    Gives .boolean (compare holds left right) := .bind fun _ => .bind fun _ => .ok rfl

theorem conjunction_gives (left right : Value) : Gives .boolean (conjunction left right) :=
  .bind fun _ => .ite (.bind fun _ => .ok rfl) (.ok rfl)

theorem disjunction_gives (left right : Value) : Gives .boolean (disjunction left right) :=
  .bind fun _ => .ite (.ok rfl) (.bind fun _ => .ok rfl)

theorem negation_gives (operand : Value) : Gives .boolean (negation operand) :=
  .bind fun _ => .ok rfl

theorem select_ok {condition chosen other value : Value}
    (outcome : select condition chosen other = .ok value) : value = chosen ∨ value = other := by
  rw [select] at outcome
  cases found : condition.asBoolean with
  | error refused =>
      rw [found] at outcome
      cases outcome
  | ok holds =>
      rw [found] at outcome
      obtain rfl := Except.ok.inj outcome
      cases holds with
      | true => exact Or.inl rfl
      | false => exact Or.inr rfl

def selection : Primitive :=
  .ternary ⟨"if", .logic, "Select the second operand when the first is true, else the third",
    ⟨[.boolean, .generic 0, .generic 0], .generic 0⟩⟩ select

theorem primitives_giveBase : ∀ primitive ∈ primitives,
    primitive.GivesBase ∨ primitive = selection := by
  simp only [primitives, List.forall_mem_cons, List.not_mem_nil, false_implies, implies_true,
    and_true]
  exact ⟨.inl (Primitive.givesBase_binary rfl (compare_gives _)),
    .inl (Primitive.givesBase_binary rfl (compare_gives _)),
    .inl (Primitive.givesBase_binary rfl (compare_gives _)),
    .inl (Primitive.givesBase_binary rfl (compare_gives _)),
    .inl (Primitive.givesBase_binary rfl fun _ _ => .ok rfl),
    .inl (Primitive.givesBase_binary rfl conjunction_gives),
    .inl (Primitive.givesBase_binary rfl disjunction_gives),
    .inl (Primitive.givesBase_unary rfl negation_gives), .inr rfl⟩

end Logic

/-! ### Arrays -/

namespace Collection

theorem length_gives (array : Value) : Gives .number (length array) := .bind fun _ => .ok rfl

theorem join_gives (left right : Value) : Gives .text (join left right) :=
  .bind fun _ => .bind fun _ => .ok rfl

theorem toText_gives (operand : Value) : Gives .text (toText operand) := by
  unfold toText
  split
  · exact .ok rfl
  · exact .ok rfl

theorem item_ok {array index value : Value} (outcome : item array index = .ok value) :
    ∃ items, array = .array items ∧ value ∈ items := by
  rw [item] at outcome
  cases found : array.asArray with
  | error refused =>
      rw [found] at outcome
      cases outcome
  | ok items =>
      refine ⟨items, Value.asArray_ok found, ?_⟩
      rw [found] at outcome
      cases read : index.asInteger with
      | error refused =>
          rw [read] at outcome
          cases outcome
      | ok position =>
          rw [read] at outcome
          simp only [bind, Except.bind] at outcome
          split at outcome
          · rename_i chosen present
            obtain rfl := Except.ok.inj outcome
            split at present
            · cases present
            · exact List.mem_of_getElem? present
          · cases outcome

theorem concat_ok {left right value : Value} (outcome : concat left right = .ok value) :
    ∃ items others, left = .array items ∧ right = .array others ∧
      value = .array (items ++ others) := by
  rw [concat] at outcome
  cases first : left.asArray with
  | error refused =>
      rw [first] at outcome
      cases outcome
  | ok items =>
      rw [first] at outcome
      cases second : right.asArray with
      | error refused =>
          rw [second] at outcome
          cases outcome
      | ok others =>
          rw [second] at outcome
          exact ⟨items, others, Value.asArray_ok first, Value.asArray_ok second,
            (Except.ok.inj outcome).symm⟩

theorem flatten_ok {array value : Value} (outcome : flatten array = .ok value) :
    ∃ items, array = .array items ∧ value = array.flatten := by
  rw [flatten] at outcome
  cases found : array.asArray with
  | error refused =>
      rw [found] at outcome
      cases outcome
  | ok items =>
      rw [found] at outcome
      exact ⟨items, Value.asArray_ok found, (Except.ok.inj outcome).symm⟩

theorem range_ok {count value : Value} (outcome : range count = .ok value) :
    ∃ numbers : List Int64, value = .array (numbers.map .integer) := by
  rw [range] at outcome
  cases read : count.asInteger with
  | error refused =>
      rw [read] at outcome
      cases outcome
  | ok length =>
      rw [read] at outcome
      simp only [bind, Except.bind] at outcome
      split at outcome
      · cases outcome
      · obtain rfl := Except.ok.inj outcome
        exact ⟨(List.range length.toNatClampNeg).map Int64.ofNat, by rw [List.map_map]; rfl⟩

def indexing : Primitive :=
  .binary (signature "array_get" [.array (.generic 0), .number] (.generic 0)
    "Element at a zero-based index") item

def appending : Primitive :=
  .binary (signature "array_concat" [.array (.generic 0), .array (.generic 0)] (.array (.generic 0))
    "Concatenate two arrays") concat

def flattening : Primitive :=
  .unary (signature "array_flatten" [.array (.array (.generic 0))] (.array (.generic 0))
    "Concatenate nested arrays") flatten

def counting : Primitive :=
  .unary (signature "range" [.number] (.array .number) "Integers from 0 up to (excluding) n") range

theorem primitives_giveBase : ∀ primitive ∈ primitives, primitive.GivesBase ∨
    primitive = indexing ∨ primitive = appending ∨ primitive = flattening ∨
      primitive = counting := by
  simp only [primitives, List.forall_mem_cons, List.not_mem_nil, false_implies, implies_true,
    and_true]
  exact ⟨.inl (Primitive.givesBase_unary rfl length_gives), .inr (.inl rfl), .inr (.inr (.inl rfl)),
    .inr (.inr (.inr (.inl rfl))), .inr (.inr (.inr (.inr rfl))),
    .inl (Primitive.givesBase_binary rfl join_gives),
    .inl (Primitive.givesBase_unary rfl toText_gives)⟩

end Collection

/-! ### The registry -/

namespace Registry

theorem mem_put {primitive other : Primitive} {primitives : List Primitive}
    (member : other ∈ put primitive primitives) : other = primitive ∨ other ∈ primitives := by
  induction primitives with
  | nil => exact Or.inl (List.mem_singleton.mp member)
  | cons first rest ih =>
      rw [put] at member
      split at member
      · rcases List.mem_cons.mp member with same | later
        · exact Or.inl same
        · exact Or.inr (List.mem_cons_of_mem first later)
      · rcases List.mem_cons.mp member with rfl | later
        · exact Or.inr List.mem_cons_self
        · exact (ih later).imp id (List.mem_cons_of_mem first)

theorem mem_registerAll {registry : Registry} {primitives : List Primitive} {other : Primitive}
    (member : other ∈ (registry.registerAll primitives).primitives) :
    other ∈ registry.primitives ∨ other ∈ primitives := by
  induction primitives generalizing registry with
  | nil => exact Or.inl member
  | cons first rest ih =>
      rcases ih member with old | later
      · rcases mem_put old with rfl | older
        · exact Or.inr List.mem_cons_self
        · exact Or.inl older
      · exact Or.inr (List.mem_cons_of_mem first later)

theorem builtin_cases {primitive : Primitive} (member : primitive ∈ builtin.primitives) :
    primitive.GivesBase ∨ primitive = Logic.selection ∨ primitive = Collection.indexing ∨
      primitive = Collection.appending ∨ primitive = Collection.flattening ∨
      primitive = Collection.counting := by
  rcases mem_registerAll member with none | listed
  · cases none
  · simp only [List.mem_append, or_assoc] at listed
    rcases listed with listed | listed | listed | listed | listed
    · exact Or.inl (Math.primitives_giveBase primitive listed)
    · exact (Logic.primitives_giveBase primitive listed).imp id Or.inl
    · exact Or.inl (Geometric.primitives_giveBase primitive listed)
    · exact Or.inl (Chromatic.primitives_giveBase primitive listed)
    · exact (Collection.primitives_giveBase primitive listed).imp id Or.inr

end Registry

/-! ### What flattening leaves -/

namespace Value

mutual

theorem flattenOnto_eq (tail : List Value) (value : Value) :
    flattenOnto tail value = value.flatItems.reverse ++ tail := by
  cases value with
  | array items =>
      rw [flatItems, flattenOnto, flattenOnto, List.reverse_reverse, flattenListOnto_eq tail items,
        flattenListOnto_eq [] items, List.append_nil]
  | _ => rfl

theorem flattenListOnto_eq (tail : List Value) (items : List Value) :
    flattenListOnto tail items = (items.flatMap flatItems).reverse ++ tail := by
  cases items with
  | nil => rfl
  | cons item rest =>
      rw [flattenListOnto, flattenListOnto_eq _ rest, flattenOnto_eq tail item, List.flatMap_cons,
        List.reverse_append, List.append_assoc]

end

theorem flatItems_array (items : List Value) :
    (Value.array items).flatItems = items.flatMap flatItems := by
  rw [flatItems, flattenOnto, flattenListOnto_eq, List.append_nil, List.reverse_reverse]

theorem flat_of_isError {value : Value} (broken : value.isError = true) :
    value.isArray = false := by
  cases value with
  | array items => cases broken
  | _ => rfl

theorem flatItems_of_flat {value : Value} (flat : value.isArray = false) :
    value.flatItems = [value] := by
  cases value with
  | array items => cases flat
  | _ => rfl

mutual

theorem flat_of_mem_flatItems {value leaf : Value} (member : leaf ∈ value.flatItems) :
    leaf.isArray = false := by
  cases value with
  | array items =>
      rw [flatItems_array] at member
      exact flat_of_mem_flatMap member
  | _ =>
      obtain rfl := List.mem_singleton.mp member
      rfl

theorem flat_of_mem_flatMap {items : List Value} {leaf : Value}
    (member : leaf ∈ items.flatMap flatItems) : leaf.isArray = false := by
  cases items with
  | nil => cases member
  | cons item rest =>
      rw [List.flatMap_cons, List.mem_append] at member
      rcases member with first | later
      · exact flat_of_mem_flatItems first
      · exact flat_of_mem_flatMap later

end

end Value

theorem Ty.flat_of_admits {registry : Registry} {ty : Ty} (other : ∀ element, ty ≠ .array element)
    {value : Value} (admitted : ty.Admits registry value) : value.isArray = false := by
  cases ty with
  | base kind =>
      rw [Admits] at admitted
      refine admitted.elim Value.flat_of_isError fun fine => ?_
      cases value with
      | array items => cases kind <;> cases fine
      | _ => rfl
  | array element => exact absurd rfl (other element)
  | function params result =>
      rcases admits_function.mp admitted with broken | ⟨callable, rfl, _⟩
      · exact Value.flat_of_isError broken
      · rfl
  | «var» id => exact Value.flat_of_isError admitted
  | generic number => exact Value.flat_of_isError admitted

theorem Ty.items_admit {registry : Registry} {element : Ty} {items : List Value}
    (admitted : (Ty.array element).Admits registry (.array items)) :
    ∀ item ∈ items, element.Admits registry item := by
  rcases admits_array.mp admitted with broken | ⟨others, same, inhabit⟩
  · cases broken
  · cases same
    exact inhabit

theorem Ty.admitsAll_singleton {registry : Registry} {ty : Ty} {operands : List Value}
    (admitted : AdmitsAll registry [ty] operands) :
    ∃ operand, operands = [operand] ∧ ty.Admits registry operand := by
  cases operands with
  | nil => cases admitted
  | cons operand rest =>
      obtain ⟨inhabits, others⟩ := admitsAll_cons.mp admitted
      cases rest with
      | nil => exact ⟨operand, rfl, inhabits⟩
      | cons other rest => cases others

namespace Collection

variable {registry : Registry} {element : Ty}

/-- The elements are of an array type themselves, and not all that is left when all arrays are
opened is an error. -/
def Overflattens (element : Ty) (operands : List Value) : Prop :=
  (∃ inner, element = .array inner) ∧
    ∃ operand ∈ operands, ∃ leaf ∈ operand.flatItems, leaf.isError = false

theorem leaves_admit (other : ∀ inner, element ≠ .array inner) {items : List Value}
    (admitted : (Ty.array (.array element)).Admits registry (.array items)) :
    ∀ leaf ∈ (Value.array items).flatItems, element.Admits registry leaf := by
  have nested : ∀ {values : List Value}, (Ty.array element).Admits registry (.array values) →
      ∀ leaf ∈ (Value.array values).flatItems, element.Admits registry leaf := by
    intro values inhabits leaf member
    rw [Value.flatItems_array, List.mem_flatMap] at member
    obtain ⟨value, inside, member⟩ := member
    have fits := Ty.items_admit inhabits value inside
    rw [Value.flatItems_of_flat (Ty.flat_of_admits other fits)] at member
    exact List.mem_singleton.mp member ▸ fits
  intro leaf member
  rw [Value.flatItems_array, List.mem_flatMap] at member
  obtain ⟨item, inside, member⟩ := member
  rcases Ty.admits_array.mp (Ty.items_admit admitted item inside) with broken | ⟨values, rfl, _⟩
  · rw [Value.flatItems_of_flat (Value.flat_of_isError broken)] at member
    exact Ty.admits_of_error (List.mem_singleton.mp member ▸ broken) element
  · exact nested (Ty.items_admit admitted _ inside) leaf member

theorem flatten_admits {items : List Value}
    (admitted : (Ty.array (.array element)).Admits registry (.array items)) :
    (Ty.array element).Admits registry (Value.array items).flatten ↔
      ¬ Overflattens element [.array items] := by
  have leaves : (Ty.array element).Admits registry (Value.array items).flatten ↔
      ∀ leaf ∈ (Value.array items).flatItems, element.Admits registry leaf := by
    rw [Ty.admits_array, Value.flatten]
    simp [Value.isError]
  rw [leaves, Overflattens]
  simp only [List.mem_singleton, exists_eq_left]
  constructor
  · rintro all ⟨⟨inner, rfl⟩, leaf, member, fine⟩
    rcases Ty.admits_array.mp (all leaf member) with broken | ⟨others, rfl, _⟩
    · exact Bool.noConfusion (broken.symm.trans fine)
    · cases Value.flat_of_mem_flatItems member
  · intro shallow leaf member
    by_cases nested : ∃ inner, element = .array inner
    · refine Ty.admits_of_error ?_ element
      by_contra fine
      exact shallow ⟨nested, leaf, member, by simpa using fine⟩
    · exact leaves_admit (fun inner same => nested ⟨inner, same⟩) admitted leaf member

theorem flattening_results {generics : Nat → Ty} {operands : List Value}
    (admitted : Ty.AdmitsAll registry
      (flattening.signature.scheme.params.map (Ty.instanceBy generics)) operands)
    (errorless : Value.firstError? operands = none) :
    ∃ value, flattening.apply operands = .ok value ∧
      ((flattening.signature.scheme.result.instanceBy generics).Admits registry value ↔
        ¬ Overflattens (generics 0) operands) := by
  obtain ⟨array, rfl, arrayAdmitted⟩ := Ty.admitsAll_singleton admitted
  have fine := Value.firstError?_eq_none.mp errorless array List.mem_cons_self
  rcases Ty.admits_array.mp arrayAdmitted with broken | ⟨items, rfl, _⟩
  · exact Bool.noConfusion (broken.symm.trans fine)
  · exact ⟨_, rfl, flatten_admits arrayAdmitted⟩

theorem not_overflattens_of_error {element : Ty} {operand : Value}
    (broken : operand.isError = true) : ¬ Overflattens element [operand] := by
  rintro ⟨_, other, member, leaf, inside, fine⟩
  obtain rfl := List.mem_singleton.mp member
  cases other with
  | error message =>
      obtain rfl := List.mem_singleton.mp inside
      cases fine
  | _ => cases broken

end Collection

namespace Registry

theorem builtin_respects {registry : Registry} {primitive : Primitive}
    (member : primitive ∈ builtin.primitives) (other : primitive ≠ Collection.flattening) :
    primitive.Respects registry := by
  rcases builtin_cases member with gives | rfl | rfl | rfl | flat | rfl
  · exact gives.respects
  · intro generics operands admitted _ value applied
    obtain ⟨condition, chosen, left, _, rfl, outcome⟩ := Primitive.ternary_ok applied
    obtain ⟨_, chosenAdmitted, leftAdmitted, _⟩ := admitted
    rcases Logic.select_ok outcome with rfl | rfl
    · exact chosenAdmitted
    · exact leftAdmitted
  · intro generics operands admitted _ value applied
    obtain ⟨array, index, _, rfl, outcome⟩ := Primitive.binary_ok applied
    obtain ⟨items, rfl, inside⟩ := Collection.item_ok outcome
    exact Ty.items_admit admitted.1 value inside
  · intro generics operands admitted _ value applied
    obtain ⟨left, right, _, rfl, outcome⟩ := Primitive.binary_ok applied
    obtain ⟨items, others, rfl, rfl, rfl⟩ := Collection.concat_ok outcome
    refine Ty.admits_array.mpr (Or.inr ⟨_, rfl, fun item inside => ?_⟩)
    exact (List.mem_append.mp inside).elim (Ty.items_admit admitted.1 item)
      (Ty.items_admit admitted.2.1 item)
  · exact absurd flat other
  · intro generics operands _ _ value applied
    obtain ⟨count, _, rfl, outcome⟩ := Primitive.unary_ok applied
    obtain ⟨numbers, rfl⟩ := Collection.range_ok outcome
    refine Ty.admits_array.mpr (Or.inr ⟨_, rfl, fun item inside => ?_⟩)
    obtain ⟨number, _, rfl⟩ := List.mem_map.mp inside
    exact Ty.admits_base_of_kind rfl

theorem builtin_neverFaults {primitive : Primitive} (member : primitive ∈ builtin.primitives)
    (other : primitive ≠ Math.clamping) : primitive.NeverFaults := by
  have all : ∀ primitive ∈ Math.primitives ++ Logic.primitives ++ Geometric.primitives ++
      Chromatic.primitives ++ Collection.primitives,
        primitive.NeverFaults ∨ primitive = Math.clamping := by
    simp only [Math.primitives, Logic.primitives, Geometric.primitives, Chromatic.primitives,
      Collection.primitives, List.cons_append, List.nil_append, List.forall_mem_cons]
    repeat
      first
      | refine ⟨.inl (Primitive.unary_neverFaults rfl), ?_⟩
      | refine ⟨.inl (Primitive.binary_neverFaults rfl), ?_⟩
      | refine ⟨.inl (Primitive.ternary_neverFaults rfl), ?_⟩
      | refine ⟨.inl (Primitive.quaternary_neverFaults rfl), ?_⟩
      | refine ⟨.inl (Primitive.ofRefusing_neverFaults _), ?_⟩
      | refine ⟨.inr rfl, ?_⟩
    exact fun _ member => nomatch member
  rcases mem_registerAll member with none | listed
  · cases none
  · exact (all primitive listed).resolve_right other

theorem builtin_flattening : builtin.find? "array_flatten" = some Collection.flattening := by
  rfl

/-- Builtin primitives keep to their signatures, with one exception. On operands of an instance of
the parameter types, clamping may fault on bounds that are not ordered, and everything else has a
value; the value is of the same instance of the result type, unless it comes from flattening an
array of arrays of arrays that are not all empty. -/
theorem builtin_results {name : String} {signature : Signature}
    (found : builtin.signature? name = some signature) (generics : Nat → Ty)
    {operands : List Value} (admitted : Ty.AdmitsAll builtin
      (signature.scheme.params.map (Ty.instanceBy generics)) operands) :
    (name = "clamp" ∧
        ∃ low high, builtin.invoke name operands = .error (.unorderedBounds low high)) ∨
      ∃ value, builtin.invoke name operands = .ok value ∧
        ((signature.scheme.result.instanceBy generics).Admits builtin value ↔
          ¬ (name = "array_flatten" ∧ Collection.Overflattens (generics 0) operands)) := by
  obtain ⟨primitive, present, rfl⟩ := Option.map_eq_some_iff.mp found
  have member := List.mem_of_find?_eq_some present
  have named : primitive.signature.name = name := beq_iff_eq.mp
    (List.find?_some (p := fun primitive : Primitive => primitive.signature.name == name) present)
  have arity : operands.length = primitive.signature.arity := by
    rw [← Ty.admitsAll_length admitted, List.length_map]
    rfl
  rw [Registry.invoke, present]
  simp only [arity, ne_eq, not_true_eq_false, if_false]
  by_cases flat : name = "array_flatten"
  · subst flat
    cases builtin_flattening.symm.trans present
    cases broken : Value.firstError? operands with
    | some error =>
        have isError := Value.isError_of_firstError? broken
        obtain ⟨operand, rfl, _⟩ := Ty.admitsAll_singleton admitted
        obtain rfl := List.mem_singleton.mp (List.mem_of_find?_eq_some broken)
        exact Or.inr ⟨error, rfl, iff_of_true (Ty.admits_of_error isError _)
          fun flattening => Collection.not_overflattens_of_error isError flattening.2⟩
    | none =>
        obtain ⟨value, applied, inhabits⟩ := Collection.flattening_results admitted broken
        refine Or.inr ⟨value, ?_, ?_⟩
        · simp only [applied]
        · simpa only [true_and] using inhabits
  · have kept : ¬ (name = "array_flatten" ∧ Collection.Overflattens (generics 0) operands) :=
      fun flattening => flat flattening.1
    cases broken : Value.firstError? operands with
    | some error =>
        have isError := Value.isError_of_firstError? broken
        exact Or.inr ⟨error, rfl, iff_of_true (Ty.admits_of_error isError _) kept⟩
    | none =>
        cases outcome : primitive.apply operands with
        | ok value =>
            have respects : primitive.Respects builtin := builtin_respects member fun same =>
              flat (named.symm.trans (congrArg (·.signature.name) same))
            exact Or.inr ⟨value, rfl, iff_of_true
              (respects generics operands admitted broken value outcome) kept⟩
        | error failure =>
            cases failure with
            | refused error =>
                exact Or.inr ⟨_, rfl, iff_of_true (Ty.admits_of_error rfl _) kept⟩
            | fault fault =>
                by_cases clamps : primitive = Math.clamping
                · subst clamps
                  obtain ⟨low, high, rfl⟩ := Math.clamping_fault arity outcome
                  exact Or.inl ⟨named.symm, low, high, rfl⟩
                · exact absurd outcome (builtin_neverFaults member clamps operands arity fault)

theorem ones_admitted {registry : Registry} :
    (Ty.array .number).Admits registry (.array [.integer 1, .integer 1]) := by
  refine Ty.admits_array.mpr (Or.inr ⟨_, rfl, fun item member => ?_⟩)
  rw [Ty.Admits]
  right
  simp only [List.mem_cons, List.not_mem_nil, or_false, or_self] at member
  rw [member]
  rfl

theorem nested_admitted {registry : Registry} {element : Ty} {item : Value}
    (admitted : element.Admits registry item) :
    (Ty.array element).Admits registry (.array [item]) :=
  Ty.admits_array.mpr (Or.inr ⟨_, rfl, fun _ member => List.mem_singleton.mp member ▸ admitted⟩)

/-- Two ones in two arrays are flattened as the signature tells. -/
theorem ones_builtin_results :
    builtin.signature? "array_flatten" = some Collection.flattening.signature ∧
      Ty.AdmitsAll builtin [.array (.array .number)] [.array [.array [.integer 1, .integer 1]]] ∧
      ∃ value, builtin.invoke "array_flatten" [.array [.array [.integer 1, .integer 1]]] =
        .ok value ∧ (Ty.array .number).Admits builtin value := by
  have found : builtin.signature? "array_flatten" = some Collection.flattening.signature := by
    rw [signature?, builtin_flattening, Option.map_some]
  have admitted : Ty.AdmitsAll builtin [.array (.array .number)]
      [.array [.array [.integer 1, .integer 1]]] :=
    Ty.admitsAll_cons.mpr ⟨nested_admitted ones_admitted, trivial⟩
  refine ⟨found, admitted, ?_⟩
  rcases builtin_results found (fun _ => .number) admitted with ⟨clamp, _⟩ | ⟨value, outcome, fits⟩
  · exact absurd clamp (by decide)
  · refine ⟨value, outcome, fits.mpr ?_⟩
    rintro ⟨_, ⟨inner, same⟩, _⟩
    cases same

/-- In three arrays they are not: instead of an array of arrays, an array of numbers remains. -/
theorem array_flatten_breaks_signature :
    ¬ ∀ (name : String) (signature : Signature), builtin.signature? name = some signature →
      ∀ (generics : Nat → Ty) (operands : List Value), Ty.AdmitsAll builtin
          (signature.scheme.params.map (Ty.instanceBy generics)) operands →
        ∀ value, builtin.invoke name operands = .ok value →
          (signature.scheme.result.instanceBy generics).Admits builtin value := by
  intro claimed
  have found : builtin.signature? "array_flatten" = some Collection.flattening.signature := by
    rw [signature?, builtin_flattening, Option.map_some]
  have admitted : Ty.AdmitsAll builtin [.array (.array (.array .number))]
      [.array [.array [.array [.integer 1, .integer 1]]]] :=
    Ty.admitsAll_cons.mpr ⟨nested_admitted (nested_admitted ones_admitted), trivial⟩
  have outcome : builtin.invoke "array_flatten"
      [.array [.array [.array [.integer 1, .integer 1]]]] =
      .ok (.array [.integer 1, .integer 1]) := by
    rw [invoke, builtin_flattening]
    rfl
  have inhabits : (Ty.array (.array .number)).Admits builtin (.array [.integer 1, .integer 1]) :=
    claimed _ _ found (fun _ => .array .number) _ admitted _ outcome
  rcases Ty.admits_array.mp inhabits with broken | ⟨items, same, each⟩
  · cases broken
  · cases same
    rcases Ty.admits_array.mp (each _ List.mem_cons_self) with broken | ⟨others, same, _⟩
    · cases broken
    · cases same

end Registry

end NodeGraph
