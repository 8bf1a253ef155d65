import NodeGraph.Proofs.Expr.Views
import NodeGraph.Proofs.Primitive.Signatures

/-!
Builtin primitives in a view. Equality looks into functions; no other builtin primitive does, so
whatever a view hides of functions makes no difference to what they compute, and the operands that
they pass on look as before.
-/

namespace NodeGraph

section Views

variable {view : View}

namespace Value

theorem read_view {result : Type} {read : Value → result}
    (arrays : ∀ items others, read (.array items) = read (.array others))
    (functions : ∀ callable other, read (.function callable) = read (.function other))
    (value : Value) : read (view.value value) = read value := by
  cases value with
  | array items =>
      rw [view.array]
      exact arrays _ _
  | function callable =>
      rw [view.function]
      exact functions _ _
  | _ => rw [view.simple _ rfl rfl]

@[simp] theorem asNumber_view (value : Value) : (view.value value).asNumber = value.asNumber :=
  read_view (fun _ _ => rfl) (fun _ _ => rfl) value

@[simp] theorem asInteger_view (value : Value) : (view.value value).asInteger = value.asInteger :=
  read_view (fun _ _ => rfl) (fun _ _ => rfl) value

@[simp] theorem asBoolean_view (value : Value) : (view.value value).asBoolean = value.asBoolean :=
  read_view (fun _ _ => rfl) (fun _ _ => rfl) value

@[simp] theorem asPoint_view (value : Value) : (view.value value).asPoint = value.asPoint :=
  read_view (fun _ _ => rfl) (fun _ _ => rfl) value

@[simp] theorem asRect_view (value : Value) : (view.value value).asRect = value.asRect :=
  read_view (fun _ _ => rfl) (fun _ _ => rfl) value

@[simp] theorem asColor_view (value : Value) : (view.value value).asColor = value.asColor :=
  read_view (fun _ _ => rfl) (fun _ _ => rfl) value

@[simp] theorem asText_view (value : Value) : (view.value value).asText = value.asText :=
  read_view (fun _ _ => rfl) (fun _ _ => rfl) value

theorem asArray_view (value : Value) :
    (view.value value).asArray = value.asArray.map (List.map view.value) := by
  cases value with
  | array items => rw [view.array]; rfl
  | function callable => rw [view.function]; rfl
  | _ => rw [view.simple _ rfl rfl]; rfl

theorem view_of_admits {kind : BaseType} {value : Value} (admitted : kind.admits value = true) :
    view.value value = value := by
  cases value with
  | array items => cases kind <;> cases admitted
  | function callable => cases kind <;> cases admitted
  | _ => exact view.simple _ rfl rfl

end Value

namespace Primitive

/-- What is hidden of the operands makes no difference. -/
def Overlooks (view : View) (primitive : Primitive) : Prop :=
  ∀ operands : List Value, primitive.apply (operands.map view.value) = primitive.apply operands

/-- What is hidden of the operands is hidden of the result. -/
def Commutes (view : View) (primitive : Primitive) : Prop :=
  ∀ operands : List Value,
    primitive.apply (operands.map view.value) = (primitive.apply operands).map view.value

theorem Commutes.congr {primitive : Primitive} (commutes : primitive.Commutes view)
    {left right : List Value} (alike : left.map view.value = right.map view.value) :
    (primitive.apply left).map view.value = (primitive.apply right).map view.value := by
  rw [← commutes, alike, commutes]

theorem GivesBase.commutes {primitive : Primitive} (gives : primitive.GivesBase)
    (overlooks : primitive.Overlooks view) : primitive.Commutes view := by
  obtain ⟨kind, _, gives⟩ := gives
  intro operands
  rw [overlooks]
  cases outcome : primitive.apply operands with
  | error failure => rfl
  | ok value => exact congrArg Except.ok (Value.view_of_admits (gives operands value outcome)).symm

variable {signature : Signature}

theorem overlooks_unary {body : Value → Except ValueError Value}
    (same : ∀ operand : Value, body (view.value operand) = body operand) :
    (unary signature body).Overlooks view := by
  intro operands
  rcases operands with _ | ⟨first, rest⟩
  · rfl
  · exact congrArg (Except.mapError Failure.refused) (same first)

theorem overlooks_reading {body : Value → Except ValueError Value}
    (arrays : ∀ items others, body (.array items) = body (.array others))
    (functions : ∀ callable other, body (.function callable) = body (.function other)) :
    (unary signature body).Overlooks view :=
  overlooks_unary (Value.read_view arrays functions)

theorem overlooks_binary {body : Value → Value → Except ValueError Value}
    (same : ∀ first second : Value,
      body (view.value first) (view.value second) = body first second) :
    (binary signature body).Overlooks view := by
  intro operands
  rcases operands with _ | ⟨first, _ | ⟨second, rest⟩⟩
  · rfl
  · rfl
  · exact congrArg (Except.mapError Failure.refused) (same first second)

theorem overlooks_ternary {body : Value → Value → Value → Except ValueError Value}
    (same : ∀ first second third : Value, body (view.value first) (view.value second)
      (view.value third) = body first second third) :
    (ternary signature body).Overlooks view := by
  intro operands
  rcases operands with _ | ⟨first, _ | ⟨second, _ | ⟨third, rest⟩⟩⟩
  · rfl
  · rfl
  · rfl
  · exact congrArg (Except.mapError Failure.refused) (same first second third)

theorem overlooks_quaternary {body : Value → Value → Value → Value → Except ValueError Value}
    (same : ∀ first second third fourth : Value, body (view.value first) (view.value second)
      (view.value third) (view.value fourth) = body first second third fourth) :
    (quaternary signature body).Overlooks view := by
  intro operands
  rcases operands with _ | ⟨first, _ | ⟨second, _ | ⟨third, _ | ⟨fourth, rest⟩⟩⟩⟩
  · rfl
  · rfl
  · rfl
  · rfl
  · exact congrArg (Except.mapError Failure.refused) (same first second third fourth)

end Primitive

namespace Math

theorem arithmetic_view (onIntegers : Int → Int → Int) (onFloats : Float → Float → Float)
    (left right : Value) :
    arithmetic onIntegers onFloats (view.value left) (view.value right) =
      arithmetic onIntegers onFloats left right := by
  have first := fun other => @Value.read_view view _
    (arithmetic onIntegers onFloats · other) (fun _ _ => rfl) (fun _ _ => rfl) left
  refine (first _).trans (Value.read_view (fun _ _ => ?_) (fun _ _ => ?_) right)
  · cases left <;> rfl
  · cases left <;> rfl

theorem divide_view (left right : Value) :
    divide (view.value left) (view.value right) = divide left right := by
  simp only [divide, Value.asNumber_view]

theorem power_view (left right : Value) :
    power (view.value left) (view.value right) = power left right := by
  simp only [power, Value.asNumber_view]

theorem clamping_overlooks : clamping.Overlooks view := by
  intro operands
  rcases operands with _ | ⟨first, _ | ⟨second, _ | ⟨third, rest⟩⟩⟩
  · rfl
  · rfl
  · rfl
  · simp only [List.map_cons, clamping, clampAll, clamp, Value.asNumber_view]

theorem primitives_overlook : ∀ primitive ∈ primitives, primitive.Overlooks view := by
  simp only [primitives, List.forall_mem_cons, List.not_mem_nil, false_implies, implies_true,
    and_true]
  exact ⟨Primitive.overlooks_binary (arithmetic_view _ _),
    Primitive.overlooks_binary (arithmetic_view _ _),
    Primitive.overlooks_binary (arithmetic_view _ _),
    Primitive.overlooks_binary divide_view,
    Primitive.overlooks_binary (arithmetic_view _ _),
    Primitive.overlooks_binary (arithmetic_view _ _),
    Primitive.overlooks_binary power_view,
    Primitive.overlooks_reading (fun _ _ => rfl) fun _ _ => rfl,
    Primitive.overlooks_reading (fun _ _ => rfl) fun _ _ => rfl,
    Primitive.overlooks_reading (fun _ _ => rfl) fun _ _ => rfl,
    clamping_overlooks,
    fun _ => rfl⟩

end Math

namespace Geometric

theorem primitives_overlook : ∀ primitive ∈ primitives, primitive.Overlooks view := by
  simp only [primitives, List.forall_mem_cons, List.not_mem_nil, false_implies, implies_true,
    and_true]
  refine ⟨Primitive.overlooks_binary fun x y => ?_,
    Primitive.overlooks_reading (fun _ _ => rfl) fun _ _ => rfl,
    Primitive.overlooks_reading (fun _ _ => rfl) fun _ _ => rfl,
    Primitive.overlooks_quaternary fun x y width height => ?_,
    Primitive.overlooks_binary fun first second => ?_,
    Primitive.overlooks_reading (fun _ _ => rfl) fun _ _ => rfl,
    Primitive.overlooks_reading (fun _ _ => rfl) fun _ _ => rfl,
    Primitive.overlooks_reading (fun _ _ => rfl) fun _ _ => rfl,
    Primitive.overlooks_binary fun left right => ?_,
    Primitive.overlooks_binary fun left right => ?_,
    Primitive.overlooks_binary fun operand offset => ?_,
    Primitive.overlooks_binary fun operand point => ?_,
    Primitive.overlooks_reading (fun _ _ => rfl) fun _ _ => rfl⟩
  · simp only [makePoint, Value.asNumber_view]
  · simp only [makeRect, Value.asNumber_view]
  · simp only [fromCorners, Value.asPoint_view]
  · simp only [combine, Value.asRect_view]
  · simp only [combine, Value.asRect_view]
  · simp only [translate, Value.asRect_view, Value.asPoint_view]
  · simp only [contains, Value.asRect_view, Value.asPoint_view]

end Geometric

namespace Chromatic

theorem component_view (operand : Value) :
    component (view.value operand) = component operand := by
  rw [component, component, Value.asNumber_view]

theorem primitives_overlook : ∀ primitive ∈ primitives, primitive.Overlooks view := by
  simp only [primitives, List.forall_mem_cons, List.not_mem_nil, false_implies, implies_true,
    and_true]
  refine ⟨Primitive.overlooks_quaternary fun red green blue alpha => ?_,
    Primitive.overlooks_ternary fun red green blue => ?_,
    Primitive.overlooks_reading (fun _ _ => rfl) fun _ _ => rfl,
    Primitive.overlooks_reading (fun _ _ => rfl) fun _ _ => rfl,
    Primitive.overlooks_binary fun top below => ?_,
    Primitive.overlooks_ternary fun first second amount => ?_⟩
  · simp only [rgba, component_view]
  · simp only [rgb, component_view]
  · simp only [«over», Value.asColor_view]
  · simp only [mix, Value.asColor_view, component_view]

end Chromatic

mutual

theorem View.display (shows : ∀ called,
    (Value.function (view.callable called)).display = (Value.function called).display)
    (value : Value) : (view.value value).display = value.display := by
  match value with
  | .array [] => rw [view.array]; rfl
  | .array (item :: rest) =>
      rw [view.array, List.map_cons, Value.display, Value.display, View.display shows item,
        View.displayRest shows _ rest]
  | .function called => rw [view.function, shows]
  | .number _ | .integer _ | .boolean _ | .text _ | .point _ | .rect _ | .color _ | .image _
  | .error _ => rw [view.simple _ rfl rfl]

theorem View.displayRest (shows : ∀ called,
    (Value.function (view.callable called)).display = (Value.function called).display)
    (shown : String) (values : List Value) :
    Value.displayRest shown (values.map view.value) = Value.displayRest shown values := by
  match values with
  | [] => rfl
  | value :: rest =>
      rw [List.map_cons, Value.displayRest, Value.displayRest, View.display shows value,
        View.displayRest shows _ rest]

end

namespace Primitive

variable {signature : Signature}

theorem mapError_map (outcome : Except ValueError Value) :
    (outcome.map view.value).mapError Failure.refused =
      (outcome.mapError Failure.refused).map view.value := by
  cases outcome <;> rfl

theorem commutes_unary {body : Value → Except ValueError Value}
    (same : ∀ operand : Value, body (view.value operand) = (body operand).map view.value) :
    (unary signature body).Commutes view := by
  intro operands
  rcases operands with _ | ⟨first, rest⟩
  · rfl
  · exact (congrArg (Except.mapError Failure.refused) (same first)).trans (mapError_map _)

theorem commutes_binary {body : Value → Value → Except ValueError Value}
    (same : ∀ first second : Value, body (view.value first) (view.value second) =
      (body first second).map view.value) :
    (binary signature body).Commutes view := by
  intro operands
  rcases operands with _ | ⟨first, _ | ⟨second, rest⟩⟩
  · rfl
  · rfl
  · exact (congrArg (Except.mapError Failure.refused) (same first second)).trans (mapError_map _)

theorem commutes_ternary {body : Value → Value → Value → Except ValueError Value}
    (same : ∀ first second third : Value, body (view.value first) (view.value second)
      (view.value third) = (body first second third).map view.value) :
    (ternary signature body).Commutes view := by
  intro operands
  rcases operands with _ | ⟨first, _ | ⟨second, _ | ⟨third, rest⟩⟩⟩
  · rfl
  · rfl
  · rfl
  · exact (congrArg (Except.mapError Failure.refused) (same first second third)).trans
      (mapError_map _)

end Primitive

namespace Logic

theorem compare_view (holds : Float → Float → Bool) (left right : Value) :
    compare holds (view.value left) (view.value right) = compare holds left right := by
  simp only [compare, Value.asNumber_view]

theorem select_view (condition chosen other : Value) :
    select (view.value condition) (view.value chosen) (view.value other) =
      (select condition chosen other).map view.value := by
  rw [select, select, Value.asBoolean_view]
  cases condition.asBoolean with
  | error refused => rfl
  | ok holds => cases holds <;> rfl

def equality : Primitive :=
  .binary ⟨"eq", .logic, "Equality of two values of the same type",
      ⟨[.generic 0, .generic 0], .boolean⟩⟩
    fun left right => .ok (.boolean (left.numericEqual right))

theorem primitives_overlook : ∀ primitive ∈ primitives,
    primitive.Overlooks view ∨ primitive = equality ∨ primitive = selection := by
  simp only [primitives, List.forall_mem_cons, List.not_mem_nil, false_implies, implies_true,
    and_true]
  refine ⟨.inl (Primitive.overlooks_binary (compare_view _)),
    .inl (Primitive.overlooks_binary (compare_view _)),
    .inl (Primitive.overlooks_binary (compare_view _)),
    .inl (Primitive.overlooks_binary (compare_view _)), .inr (.inl rfl),
    .inl (Primitive.overlooks_binary fun left right => ?_),
    .inl (Primitive.overlooks_binary fun left right => ?_),
    .inl (Primitive.overlooks_reading (fun _ _ => rfl) fun _ _ => rfl), .inr (.inr rfl)⟩
  · simp only [conjunction, Value.asBoolean_view]
  · simp only [disjunction, Value.asBoolean_view]

theorem primitives_commute {primitive : Primitive} (member : primitive ∈ primitives)
    (other : primitive ≠ equality) : primitive.Commutes view := by
  rcases primitives_overlook primitive member with overlooks | same | rfl
  · rcases primitives_giveBase primitive member with gives | rfl
    · exact gives.commutes overlooks
    · exact Primitive.commutes_ternary select_view
  · exact absurd same other
  · exact Primitive.commutes_ternary select_view

end Logic

namespace Collection

theorem length_view (array : Value) : length (view.value array) = length array := by
  rw [length, length, Value.asArray_view]
  cases array.asArray with
  | error refused => rfl
  | ok items => simp only [Except.map, bind, Except.bind, List.length_map]

theorem toText_view (shows : ∀ called,
    (Value.function (view.callable called)).display = (Value.function called).display)
    (operand : Value) : toText (view.value operand) = toText operand := by
  have same := View.display shows operand
  cases operand with
  | array items =>
      rw [view.array] at same ⊢
      exact congrArg (fun shown => Except.ok (Value.text shown)) same
  | function callable =>
      rw [view.function] at same ⊢
      exact congrArg (fun shown => Except.ok (Value.text shown)) same
  | _ => rw [view.simple _ rfl rfl]

theorem item_view (array index : Value) :
    item (view.value array) (view.value index) = (item array index).map view.value := by
  rw [item, item, Value.asInteger_view]
  refine bind_eq_map_bind (Value.asArray_view array) fun items => ?_
  cases index.asInteger with
  | error refused => rfl
  | ok position =>
      simp only [bind, Except.bind, List.getElem?_map, List.length_map]
      by_cases before : position < 0
      · simp only [before, if_true]
        rfl
      · simp only [before, if_false]
        cases items[position.toNatClampNeg]? <;> rfl

theorem concat_view (left right : Value) :
    concat (view.value left) (view.value right) = (concat left right).map view.value := by
  refine bind_eq_map_bind (Value.asArray_view left) fun items => ?_
  refine bind_eq_map_bind (Value.asArray_view right) fun others => ?_
  rw [← List.map_append]
  exact congrArg Except.ok (view.array _).symm

mutual

theorem flatItems_view (value : Value) :
    (view.value value).flatItems = value.flatItems.map view.value := by
  match value with
  | .array items =>
      rw [view.array, Value.flatItems_array, Value.flatItems_array, flatMap_view items]
  | .function callable =>
      rw [view.function, Value.flatItems_of_flat rfl, Value.flatItems_of_flat rfl, List.map_cons,
        view.function, List.map_nil]
  | .number _ | .integer _ | .boolean _ | .text _ | .point _ | .rect _ | .color _ | .image _
  | .error _ =>
      rw [view.simple _ rfl rfl, Value.flatItems_of_flat rfl, List.map_cons,
        view.simple _ rfl rfl, List.map_nil]

theorem flatMap_view (items : List Value) :
    (items.map view.value).flatMap Value.flatItems =
      (items.flatMap Value.flatItems).map view.value := by
  match items with
  | [] => rfl
  | item :: rest =>
      rw [List.map_cons, List.flatMap_cons, List.flatMap_cons, List.map_append,
        flatItems_view item, flatMap_view rest]

end

theorem flatten_view (array : Value) :
    flatten (view.value array) = (flatten array).map view.value := by
  refine bind_eq_map_bind (Value.asArray_view array) fun items => ?_
  simp only [pure, Except.pure, Except.map, Value.flatten, flatItems_view]
  exact congrArg Except.ok (view.array _).symm

theorem range_view (count : Value) :
    range (view.value count) = (range count).map view.value := by
  have same : range (view.value count) = range count := by
    rw [range, range, Value.asInteger_view]
  rw [same]
  cases outcome : range count with
  | error refused => rfl
  | ok value =>
      obtain ⟨numbers, rfl⟩ := range_ok outcome
      refine congrArg Except.ok ?_
      rw [view.array, List.map_map]
      exact congrArg Value.array (List.map_congr_left fun number _ => (view.simple _ rfl rfl).symm)

variable (shows : ∀ called,
  (Value.function (view.callable called)).display = (Value.function called).display)

include shows

theorem primitives_overlook : ∀ primitive ∈ primitives, primitive.Overlooks view ∨
    primitive = indexing ∨ primitive = appending ∨ primitive = flattening ∨
      primitive = counting := by
  simp only [primitives, List.forall_mem_cons, List.not_mem_nil, false_implies, implies_true,
    and_true]
  refine ⟨.inl (Primitive.overlooks_unary length_view), .inr (.inl rfl),
    .inr (.inr (.inl rfl)), .inr (.inr (.inr (.inl rfl))), .inr (.inr (.inr (.inr rfl))),
    .inl (Primitive.overlooks_binary fun left right => ?_),
    .inl (Primitive.overlooks_unary (toText_view shows))⟩
  simp only [join, Value.asText_view]

theorem primitives_commute : ∀ primitive ∈ primitives, primitive.Commutes view := by
  intro primitive member
  have passing : primitive = indexing ∨ primitive = appending ∨ primitive = flattening ∨
      primitive = counting → primitive.Commutes view := by
    rintro (rfl | rfl | rfl | rfl)
    · exact Primitive.commutes_binary item_view
    · exact Primitive.commutes_binary concat_view
    · exact Primitive.commutes_unary flatten_view
    · exact Primitive.commutes_unary range_view
  rcases primitives_giveBase primitive member with gives | passes
  · exact (primitives_overlook shows primitive member).elim gives.commutes passing
  · exact passing passes

end Collection

theorem Registry.builtin_commutes (shows : ∀ called,
    (Value.function (view.callable called)).display = (Value.function called).display)
    {primitive : Primitive} (member : primitive ∈ builtin.primitives)
    (other : primitive ≠ Logic.equality) : primitive.Commutes view := by
  rcases mem_registerAll member with none | listed
  · cases none
  · simp only [List.mem_append, or_assoc] at listed
    rcases listed with listed | listed | listed | listed | listed
    · exact (Math.primitives_giveBase primitive listed).commutes
        (Math.primitives_overlook primitive listed)
    · exact Logic.primitives_commute listed other
    · exact (Geometric.primitives_giveBase primitive listed).commutes
        (Geometric.primitives_overlook primitive listed)
    · exact (Chromatic.primitives_giveBase primitive listed).commutes
        (Chromatic.primitives_overlook primitive listed)
    · exact Collection.primitives_commute shows primitive listed

end Views

end NodeGraph
