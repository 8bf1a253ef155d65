import NodeGraph.Foreign.Value
import NodeGraph.Proofs.Primitive.Signatures

/-!
Values that cross to a foreign runtime and back. A value goes unless an error or a function is in
it, and comes back as it went unless it holds a rectangle or a color that is refused on the way
back; in both cases the first such part, in the order of reading, is what the failure tells of.
Whatever has come from the runtime goes there again and comes back the same.
-/

namespace NodeGraph

namespace Value

def homebound? : Value → Option ValueKind
  | .error _ => some .error
  | .function _ => some .function
  | _ => none

/-- The fault for which the foreign form of a value is refused. -/
def flaw? : Value → Option (UInt8 × BlockFault)
  | .rect area =>
      if area.size.width < 0 ∨ area.size.height < 0 then some (Foreign.rectTag, .negativeSize)
      else none
  | .color shade =>
      if ∀ part ∈ shade.components, 0 ≤ part ∧ part ≤ 1 then none
      else some (Foreign.colorTag, .componentRange)
  | _ => none

end Value

namespace Foreign

def returned {result : Type} (parts : List Value) (whole : result) : Except BridgeError result :=
  (parts.findSome? Value.flaw?).elim (.ok whole) fun flaw => .error (.malformed flaw.1 flaw.2)

section Returned

variable {result : Type}

theorem returned_of_none {parts : List Value} (none : parts.findSome? Value.flaw? = none)
    (whole : result) : returned parts whole = .ok whole := by
  rw [returned, none]
  rfl

theorem returned_singleton (part : Value) (whole : result) :
    returned [part] whole =
      part.flaw?.elim (.ok whole) fun flaw => .error (.malformed flaw.1 flaw.2) := by
  rw [returned, List.findSome?_cons]
  cases part.flaw? <;> rfl

theorem map_returned {other : Type} (change : result → other) (parts : List Value)
    (whole : result) : change <$> returned parts whole = returned parts (change whole) := by
  rw [returned, returned]
  cases parts.findSome? Value.flaw? <;> rfl

theorem returned_append (parts more : List Value) (value : Value) (values : List Value) :
    (do
      let first ← returned parts value
      let rest ← returned more values
      return first :: rest) = returned (parts ++ more) (value :: values) := by
  simp only [returned, List.findSome?_append]
  cases parts.findSome? Value.flaw? with
  | some flaw => rfl
  | none => cases more.findSome? Value.flaw? <;> rfl

end Returned

theorem floatFields_floats (tag : UInt8) (reals : List Float) :
    floatFields tag reals.length (reals.map Foreign.float) = .ok reals := by
  have numeric : (reals.map Foreign.float).mapM asFloat? = some reals := by
    induction reals with
    | nil => rfl
    | cons first rest ih => simp [asFloat?, ih]
  rw [floatFields, if_neg (by simp), numeric]

theorem toPoint_floats (place : Point) :
    toPoint ([place.x, place.y].map .float) = .ok (.point place) := by
  rw [toPoint, show floatFields pointTag 2 _ = _ from floatFields_floats pointTag [_, _]]
  rfl

theorem toRect_floats (area : Rect) :
    toRect ([area.origin.x, area.origin.y, area.size.width, area.size.height].map .float) =
      returned [.rect area] (.rect area) := by
  rw [toRect, show floatFields rectTag 4 _ = _ from floatFields_floats rectTag [_, _, _, _],
    returned_singleton, Value.flaw?]
  simp only [Bool.or_eq_true, decide_eq_true_eq]
  by_cases negative : area.size.width < 0 ∨ area.size.height < 0
  · rw [if_pos negative]
    exact if_pos negative
  · rw [if_neg negative]
    exact if_neg negative

theorem any_outside_iff (reals : List Float) :
    (reals.any fun real => !(0 ≤ real && real ≤ 1)) = true ↔
      ¬ ∀ real ∈ reals, 0 ≤ real ∧ real ≤ 1 := by
  simp [imp_iff_not_or]

theorem toColor_floats (shade : Color) :
    toColor (shade.components.map .float) = returned [.color shade] (.color shade) := by
  rw [toColor, show floatFields colorTag 4 _ = _ from floatFields_floats colorTag shade.components,
    returned_singleton, Value.flaw?]
  by_cases inside : ∀ part ∈ shade.components, 0 ≤ part ∧ part ≤ 1
  · rw [if_pos inside]
    exact if_neg fun outside => (any_outside_iff _).mp outside inside
  · rw [if_neg inside]
    exact if_pos ((any_outside_iff _).mpr inside)

theorem numbers?_eq_some {items : List Value} {reals : List Float}
    (known : numbers? items = some reals) : items = reals.map Value.number := by
  induction items generalizing reals with
  | nil =>
      cases known
      rfl
  | cons item rest ih =>
      cases item with
      | number real =>
          obtain ⟨others, found, same⟩ := Option.map_eq_some_iff.mp known
          rw [← same, ih found]
          rfl
      | _ => cases known

theorem ofValue_unboxed {items : List Value} {reals : List Float} (nonempty : items ≠ [])
    (known : numbers? items = some reals) : ofValue (.array items) = .ok (.floats reals) := by
  cases items with
  | nil => exact absurd rfl nonempty
  | cons item rest => rw [ofValue, known]

theorem ofValue_boxed {items : List Value} (mixed : numbers? items = none) :
    ofValue (.array items) = Foreign.block arrayTag <$> ofValues items := by
  cases items with
  | nil => cases mixed
  | cons item rest =>
      rw [ofValue, mixed, ofValues]
      cases ofValue item with
      | error error => rfl
      | ok first => cases ofValues rest <;> rfl

theorem toValue_array (fields : List Foreign) :
    toValue (.block arrayTag fields) = Value.array <$> toValues fields := by
  rw [toValue, if_neg (by decide), if_neg (by decide), if_neg (by decide), if_pos rfl]
  cases toValues fields <;> rfl

theorem findSome?_numbers {result : Type} {look : Value → Option result}
    (blind : ∀ real, look (.number real) = none) (reals : List Float) :
    ((Value.array (reals.map .number)).flatItems).findSome? look = none := by
  rw [Value.flatItems_array, List.findSome?_eq_none_iff]
  intro leaf member
  obtain ⟨item, inside, within⟩ := List.mem_flatMap.mp member
  obtain ⟨real, _, rfl⟩ := List.mem_map.mp inside
  obtain rfl := List.mem_singleton.mp within
  exact blind real

mutual

theorem ofValue_returned {value : Value}
    (free : value.flatItems.findSome? Value.homebound? = none) :
    ∃ foreign, ofValue value = .ok foreign ∧
      foreign.toValue = returned value.flatItems value := by
  cases value with
  | array items =>
      cases known : numbers? items with
      | some reals =>
          have shape := numbers?_eq_some known
          subst shape
          have whole : (Value.array (reals.map .number)).flatItems.findSome? Value.flaw? = none :=
            findSome?_numbers (fun _ => rfl) reals
          by_cases empty : reals.map Value.number = []
          · rw [empty] at whole ⊢
            exact ⟨_, ofValue.eq_8, (returned_of_none whole _).symm⟩
          · exact ⟨_, ofValue_unboxed empty known, (returned_of_none whole _).symm⟩
      | none =>
          rw [Value.flatItems_array] at free ⊢
          obtain ⟨fields, sent, back⟩ := ofValues_returned free
          refine ⟨.block arrayTag fields, ?_, ?_⟩
          · rw [ofValue_boxed known, sent]
            rfl
          · rw [toValue_array, back, map_returned]
  | point place => exact ⟨_, rfl, toPoint_floats place⟩
  | rect area => exact ⟨_, rfl, toRect_floats area⟩
  | color shade => exact ⟨_, rfl, toColor_floats shade⟩
  | error message => cases free
  | function callable => cases free
  | number real => exact ⟨_, rfl, rfl⟩
  | integer whole => exact ⟨_, rfl, rfl⟩
  | boolean truth => exact ⟨_, rfl, rfl⟩
  | text characters => exact ⟨_, rfl, rfl⟩
  | image image => exact ⟨_, rfl, rfl⟩

theorem ofValues_returned {values : List Value}
    (free : (values.flatMap Value.flatItems).findSome? Value.homebound? = none) :
    ∃ foreigns, ofValues values = .ok foreigns ∧
      toValues foreigns = returned (values.flatMap Value.flatItems) values := by
  cases values with
  | nil => exact ⟨[], rfl, rfl⟩
  | cons value rest =>
      rw [List.flatMap_cons, List.findSome?_append, Option.or_eq_none_iff] at free
      obtain ⟨first, sent, back⟩ := ofValue_returned free.1
      obtain ⟨others, allSent, allBack⟩ := ofValues_returned free.2
      refine ⟨first :: others, ?_, ?_⟩
      · rw [ofValues, sent, allSent]
        rfl
      · rw [toValues, back, allBack, List.flatMap_cons]
        exact returned_append _ _ _ _

end

mutual

theorem ofValue_refused {value : Value} {kind : ValueKind}
    (first : value.flatItems.findSome? Value.homebound? = some kind) :
    ofValue value = .error (.unrepresentable kind) := by
  cases value with
  | array items =>
      cases known : numbers? items with
      | some reals =>
          rw [numbers?_eq_some known, findSome?_numbers fun _ => rfl] at first
          cases first
      | none =>
          rw [Value.flatItems_array] at first
          rw [ofValue_boxed known, ofValues_refused first]
          rfl
  | error message =>
      cases first
      rfl
  | function callable =>
      cases first
      rfl
  | _ => cases first

theorem ofValues_refused {values : List Value} {kind : ValueKind}
    (first : (values.flatMap Value.flatItems).findSome? Value.homebound? = some kind) :
    ofValues values = .error (.unrepresentable kind) := by
  cases values with
  | nil => cases first
  | cons value rest =>
      rw [List.flatMap_cons, List.findSome?_append] at first
      rw [ofValues]
      cases here : value.flatItems.findSome? Value.homebound? with
      | some other =>
          rw [here] at first
          cases first
          rw [ofValue_refused here]
          rfl
      | none =>
          rw [here] at first
          obtain ⟨foreign, sent, _⟩ := ofValue_returned here
          rw [sent, ofValues_refused first]
          rfl

end

/-- Values that go to the runtime and come back. -/
def Crosses (leaves : List Value) : Prop :=
  leaves.findSome? Value.homebound? = none ∧ leaves.findSome? Value.flaw? = none

theorem crosses_append {leaves more : List Value} :
    Crosses (leaves ++ more) ↔ Crosses leaves ∧ Crosses more := by
  simp only [Crosses, List.findSome?_append, Option.or_eq_none_iff]
  exact and_and_and_comm

theorem crosses_of_flaw {value : Value} (flat : value.flatItems = [value])
    (home : value.homebound? = none) (whole : value.flaw? = none) : Crosses value.flatItems := by
  rw [flat]
  simp [Crosses, home, whole]

theorem read_of_floatFields {tag : UInt8} {count : Nat} {fields : List Foreign} {value : Value}
    {read : List Float → Except BridgeError Value}
    (whole : floatFields tag count fields >>= read = .ok value) :
    ∃ reals, read reals = .ok value := by
  cases numbers : floatFields tag count fields with
  | error error =>
      rw [numbers] at whole
      cases whole
  | ok reals => exact ⟨reals, by rwa [numbers] at whole⟩

theorem toPoint_crosses {fields : List Foreign} {value : Value}
    (read : toPoint fields = .ok value) : Crosses value.flatItems := by
  obtain ⟨reals, read⟩ := read_of_floatFields read
  split at read
  · cases read
    exact ⟨rfl, rfl⟩
  · cases read

theorem toRect_crosses {fields : List Foreign} {value : Value}
    (read : toRect fields = .ok value) : Crosses value.flatItems := by
  obtain ⟨reals, read⟩ := read_of_floatFields read
  split at read
  · split at read
    · cases read
    · rename_i proper
      cases read
      refine crosses_of_flaw rfl rfl (if_neg fun negative => proper ?_)
      simpa [Rect.of] using negative
  · cases read

theorem toColor_crosses {fields : List Foreign} {value : Value}
    (read : toColor fields = .ok value) : Crosses value.flatItems := by
  obtain ⟨reals, read⟩ := read_of_floatFields read
  split at read
  · cases read
  · rename_i inside
    rw [any_outside_iff, not_not] at inside
    split at read
    · cases read
      exact crosses_of_flaw rfl rfl (if_pos inside)
    · cases read

mutual

theorem toValue_crosses {foreign : Foreign} {value : Value} (read : foreign.toValue = .ok value) :
    Crosses value.flatItems := by
  cases foreign with
  | block tag fields =>
      rw [toValue] at read
      split at read
      · exact toPoint_crosses read
      · split at read
        · exact toRect_crosses read
        · split at read
          · exact toColor_crosses read
          · split at read
            · cases items : toValues fields with
              | error error =>
                  rw [items] at read
                  cases read
              | ok values =>
                  rw [items] at read
                  cases read
                  rw [Value.flatItems_array]
                  exact toValues_cross items
            · cases read
  | floats reals =>
      cases read
      exact ⟨findSome?_numbers (fun _ => rfl) reals, findSome?_numbers (fun _ => rfl) reals⟩
  | _ =>
      cases read
      exact ⟨rfl, rfl⟩

theorem toValues_cross {foreigns : List Foreign} {values : List Value}
    (read : toValues foreigns = .ok values) : Crosses (values.flatMap Value.flatItems) := by
  cases foreigns with
  | nil =>
      cases read
      exact ⟨rfl, rfl⟩
  | cons foreign rest =>
      rw [toValues] at read
      cases here : foreign.toValue with
      | error error =>
          rw [here] at read
          cases read
      | ok first =>
          cases there : toValues rest with
          | error error =>
              rw [here, there] at read
              cases read
          | ok others =>
              rw [here, there] at read
              cases read
              rw [List.flatMap_cons, crosses_append]
              exact ⟨toValue_crosses here, toValues_cross there⟩

end

/-- The bridge is exact. A value is refused for the first error or function in it, and otherwise
goes; it comes back as it went, or is refused for the first rectangle of negative size or color
with a component outside [0, 1]. What comes from the runtime goes back there and comes again. -/
theorem bridge_exact :
    (∀ value : Value,
      (∀ kind, value.flatItems.findSome? Value.homebound? = some kind →
        ofValue value = .error (.unrepresentable kind)) ∧
      (value.flatItems.findSome? Value.homebound? = none → ∃ foreign, ofValue value = .ok foreign ∧
        (∀ tag fault, value.flatItems.findSome? Value.flaw? = some (tag, fault) →
          foreign.toValue = .error (.malformed tag fault)) ∧
        (value.flatItems.findSome? Value.flaw? = none → foreign.toValue = .ok value))) ∧
    ∀ (foreign : Foreign) (value : Value), foreign.toValue = .ok value →
      ∃ again, ofValue value = .ok again ∧ again.toValue = .ok value := by
  refine ⟨fun value => ⟨fun kind first => ofValue_refused first, fun free => ?_⟩, ?_⟩
  · obtain ⟨foreign, sent, back⟩ := ofValue_returned free
    refine ⟨foreign, sent, fun tag fault first => ?_, fun whole => ?_⟩
    · rw [back, returned, first]
      rfl
    · rw [back, returned_of_none whole]
  · intro foreign value read
    obtain ⟨free, whole⟩ := toValue_crosses read
    obtain ⟨again, sent, back⟩ := ofValue_returned free
    exact ⟨again, sent, by rw [back, returned_of_none whole]⟩

/-- A function stops an array before the error that follows it; a rectangle of negative width goes
and is refused on its way back; boxed integers come, go and come again. -/
theorem mixed_bridge_exact :
    ofValue (.array [.integer 1, .array [.function (.primitive "add")], .error "late"]) =
        .error (.unrepresentable .function) ∧
      (∃ foreign, ofValue (.array [.text "a", .rect (.of 0 0 (-1) 1)]) = .ok foreign ∧
        foreign.toValue = .error (.malformed rectTag .negativeSize)) ∧
      (∃ foreign, ofValue (.array [.number 1, .array []]) = .ok foreign ∧
        foreign.toValue = .ok (.array [.number 1, .array []])) ∧
      ∃ again, ofValue (.array [.integer 1, .boolean true]) = .ok again ∧
        again.toValue = .ok (.array [.integer 1, .boolean true]) := by
  refine ⟨(bridge_exact.1 _).1 _ rfl, ?_, ?_, ?_⟩
  · obtain ⟨foreign, sent, refused, _⟩ :=
      (bridge_exact.1 (.array [.text "a", .rect (.of 0 0 (-1) 1)])).2 rfl
    exact ⟨foreign, sent, refused _ _ (by decide +kernel)⟩
  · obtain ⟨foreign, sent, _, back⟩ := (bridge_exact.1 (.array [.number 1, .array []])).2 rfl
    exact ⟨foreign, sent, back rfl⟩
  · exact bridge_exact.2 (.block arrayTag [.int 1, .bool true]) _ rfl

end Foreign

end NodeGraph
