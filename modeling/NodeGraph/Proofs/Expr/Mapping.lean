import NodeGraph.Proofs.Execution.Coherence
import NodeGraph.Proofs.Expr.Evaluators

/-!
Maps item by item. A map finds its callable once and calls it on every item in the state in which
the map began, so every result is what applying the same expression to the item gives there.
-/

namespace NodeGraph

theorem mapM_ok {item result : Type} {each : item → Except Fault result} {items : List item}
    {results : List result} (done : items.mapM each = .ok results) :
    results.length = items.length ∧ ∀ (index : Nat) (item : item), items[index]? = some item →
      ∃ result, results[index]? = some result ∧ each item = .ok result := by
  induction items generalizing results with
  | nil =>
      cases done
      exact ⟨rfl, fun _ _ found => by cases found⟩
  | cons first rest ih =>
      rw [List.mapM_cons] at done
      obtain ⟨value, here, continued⟩ := Graph.bind_ok_iff.mp done
      obtain ⟨values, there, kept⟩ := Graph.bind_ok_iff.mp continued
      cases kept
      obtain ⟨length, others⟩ := ih there
      refine ⟨congrArg (· + 1) length, fun index item found => ?_⟩
      cases index with
      | zero =>
          cases found
          exact ⟨value, rfl, here⟩
      | succ index => exact others index item found

theorem callEach_ok {call : Call} {origin : Origin} {callable : Callable} {items results : List Value}
    (done : callEach call origin callable items = .ok (.array results)) :
    results.length = items.length ∧ ∀ (index : Nat) (item : Value), items[index]? = some item →
      ∃ result, results[index]? = some result ∧
        call ((index + 2) :: origin) callable [item] = .ok result := by
  rw [callEach] at done
  obtain ⟨values, each, kept⟩ := Graph.bind_ok_iff.mp done
  cases kept
  obtain ⟨length, found⟩ := mapM_ok each
  rw [List.length_zipIdx] at length
  refine ⟨length, fun index item there => found index (item, index) ?_⟩
  rw [List.getElem?_zipIdx, there, Nat.zero_add]
  rfl

theorem callableWith_error {registry : Registry} {call : Call} {frame : Frame} {origin : Origin}
    {expr : Expr} {error : Value}
    (absent : expr.callableWith registry call frame origin = .ok (.error error)) :
    error.isError = true := by
  have operator : ∀ value : Value, value.operator = .error error → error.isError = true := by
    intro value failed
    cases value <;> cases failed <;> rfl
  rw [Expr.callableWith] at absent
  cases bare : expr.bareName? with
  | some name =>
      rw [bare] at absent
      simp only [Registry.callable?] at absent
      split at absent
      · cases absent
      · cases absent
        rfl
  | none =>
      rw [bare] at absent
      cases value : expr.evalWith registry call frame origin with
      | error fault =>
          rw [value] at absent
          cases absent
      | ok value' =>
          rw [value] at absent
          exact operator value' (Except.ok.inj absent)

theorem evalWith_map_ok {registry : Registry} {call : Call} {frame : Frame} {origin : Origin}
    {array callable : Expr} {results : List Value}
    (maps : (Expr.map array callable).evalWith registry call frame origin =
      .ok (.array results)) :
    ∃ items called, array.evalWith registry call frame (0 :: origin) = .ok (.array items) ∧
      callable.callableWith registry call frame (1 :: origin) = .ok (.ok called) ∧
      callEach call origin called items = .ok (.array results) := by
  rw [Expr.evalWith_map] at maps
  obtain ⟨value, first, maps⟩ := Graph.bind_ok_iff.mp maps
  cases value with
  | array items =>
      obtain ⟨either, found, maps⟩ := Graph.bind_ok_iff.mp maps
      cases either with
      | error error =>
          have isError := callableWith_error found
          cases maps
          cases isError
      | ok called =>
          refine ⟨items, called, first, found, ?_⟩
          simp only [Expr.mapWith] at maps
          split at maps
          · cases maps
          · exact maps
          · cases maps
  | _ => cases maps

theorem evalWith_apply_constant {registry : Registry} {remaining : Nat} {frame : Frame}
    {origin : Origin} {callable : Expr} {called : Callable}
    (found : callable.callableWith registry (callWithin registry remaining) frame (0 :: origin) =
      .ok (.ok called)) (item : Value) :
    (Expr.apply callable [.constant item]).evalWith registry (callWithin registry remaining) frame
        origin =
      callWithin registry remaining (1 :: origin) called [item] := by
  rw [Expr.evalWith_apply, found]
  cases isError : item.isError with
  | true =>
      have first : Value.firstError? [item] = some item := by
        rw [Value.firstError?, List.find?_cons_of_pos isError]
      rw [callWithin_eq, first]
      simp only [Expr.evalOperands, Expr.evalWith, bind, Except.bind, isError, if_true]
      rfl
  | false =>
      simp only [Expr.evalOperands, Expr.evalWith, bind, Except.bind, isError]
      rfl

section Pointwise

variable {registry : Registry} {remaining : Nat} {frame : Frame}

theorem evalWith_alike (blind : registry.IgnoresIdentity) (remaining : Nat) (frame : Frame)
    (expr : Expr) (origin place : Origin) :
    (expr.evalWith registry (callWithin registry remaining) frame origin).map Value.anonymous =
      (expr.evalWith registry (callWithin registry remaining) frame place).map Value.anonymous :=
  (Frame.Alike.agrees ⟨rfl, rfl⟩ expr expr rfl).evalWith View.anonymous_lawful blind remaining
    origin place

theorem callableWith_alike (blind : registry.IgnoresIdentity) {expr : Expr} {called : Callable}
    {origin : Origin} (found : expr.callableWith registry (callWithin registry remaining) frame
      origin = .ok (.ok called)) (place : Origin) :
    ∃ other, expr.callableWith registry (callWithin registry remaining) frame place =
      .ok (.ok other) ∧ called.anonymous = other.anonymous := by
  have agrees : View.anonymous.Agrees frame frame expr expr :=
    Frame.Alike.agrees ⟨rfl, rfl⟩ expr expr rfl
  have respects : View.anonymous.Respects registry := blind
  have callables := agrees.callableWith respects origin place
    (evalWith_alike blind remaining frame expr origin place)
  rw [found] at callables
  obtain ⟨_, either, same, elsewhere, alike⟩ | ⟨_, impossible, _⟩ := map_eq_map_cases callables
  · cases same
    cases either with
    | error error => cases alike
    | ok other => exact ⟨other, elsewhere, Except.ok.inj alike⟩
  · cases impossible

theorem items_alike (blind : registry.IgnoresIdentity) {array : Expr} {items others : List Value}
    {origin place : Origin} (found : array.evalWith registry (callWithin registry remaining) frame
      origin = .ok (.array items))
    (elsewhere : array.evalWith registry (callWithin registry remaining) frame place =
      .ok (.array others)) :
    items.map Value.anonymous = others.map Value.anonymous := by
  have arrays := evalWith_alike blind remaining frame array origin place
  rw [found, elsewhere] at arrays
  simpa only [Except.map, Value.anonymous, anonymousList_eq, Except.ok.injEq, Value.array.injEq]
    using arrays

/-- Every result of a map is that of the callable applied to the item, wherever the items, the map
and the application are evaluated. -/
theorem evalWith_map_pointwise (blind : registry.IgnoresIdentity) {array callable : Expr}
    {items results : List Value} {origin mapOrigin : Origin}
    (evaluates : array.evalWith registry (callWithin registry remaining) frame origin =
      .ok (.array items))
    (maps : (Expr.map array callable).evalWith registry (callWithin registry remaining) frame
      mapOrigin = .ok (.array results)) (place : Origin) :
    results.length = items.length ∧ ∀ (index : Nat) (item : Value), items[index]? = some item →
      ∃ result value, results[index]? = some result ∧
        (Expr.apply callable [.constant item]).evalWith registry (callWithin registry remaining)
          frame place = .ok value ∧
        result.Alike value ∧ (item.isError = true → result = item) := by
  obtain ⟨mapped, called, first, found, each⟩ := evalWith_map_ok maps
  have alike := items_alike blind evaluates first
  obtain ⟨called', applied, sameCallable⟩ := callableWith_alike blind found (0 :: place)
  obtain ⟨length, each⟩ := callEach_ok each
  have lengths := congrArg List.length alike
  rw [List.length_map, List.length_map] at lengths
  refine ⟨length.trans lengths.symm, fun index item there => ?_⟩
  have sameItems := congrArg (·[index]?) alike
  simp only [List.getElem?_map, there, Option.map_some] at sameItems
  obtain ⟨item', there', sameItem⟩ := Option.map_eq_some_iff.mp sameItems.symm
  obtain ⟨result, at', done⟩ := each index item' there'
  have calls := callWithin_alike blind remaining ((index + 2) :: mapOrigin) (1 :: place) called
    called' [item'] [item] sameCallable (by rw [List.map_singleton, List.map_singleton, sameItem])
  rw [done, ← evalWith_apply_constant applied] at calls
  obtain ⟨_, value, same, evaluated, sameValue⟩ | ⟨_, impossible, _⟩ := map_eq_map_cases calls
  · cases same
    refine ⟨result, value, at', evaluated, sameValue, fun isError => ?_⟩
    -- An error is called with nothing, and has no identity.
    have isError' : item'.isError = true := by
      rw [← Value.isError_anonymous, sameItem, Value.isError_anonymous, isError]
    have whole : item' = item :=
      (View.anonymous.of_isError isError').symm.trans
        (sameItem.trans (View.anonymous.of_isError isError))
    have first : Value.firstError? [item'] = some item' := by
      rw [Value.firstError?, List.find?_cons_of_pos isError']
    rw [callWithin_eq, first] at done
    cases done
    exact whole
  · cases impossible

end Pointwise

/-- Evaluation in place. It gives the value that the expression has in the frame of the evaluator,
with as many nested calls as the depth leaves, and leaves the evaluator as it was. If primitives do
not observe the identity of functions, a map over an array has as many results as there are items,
in their order: each is the value of the callable applied to the item in the same evaluator, and an
error among the items is its own result. -/
theorem Evaluator.maps_pointwise (registry : Registry) (evaluator : Evaluator) :
    (∀ origin expr, (evaluate registry origin expr).run evaluator =
      (expr.evalWith registry (callWithin registry evaluator.remaining) evaluator.frame origin).map
        fun value => (value, evaluator)) ∧
    (registry.IgnoresIdentity → ∀ (array callable : Expr) (origin mapOrigin place : Origin)
      (items results : List Value) (after mapAfter : Evaluator),
        (evaluate registry origin array).run evaluator = .ok (.array items, after) →
        (evaluate registry mapOrigin (.map array callable)).run evaluator =
          .ok (.array results, mapAfter) →
        results.length = items.length ∧ ∀ (index : Nat) (item : Value), items[index]? = some item →
          ∃ result value, results[index]? = some result ∧
            (evaluate registry place (.apply callable [.constant item])).run evaluator =
              .ok (value, evaluator) ∧
            result.Alike value ∧ (item.isError = true → result = item)) := by
  have settles := @evaluate_settles evaluator registry
  refine ⟨fun origin expr => settles origin expr, ?_⟩
  intro blind array callable origin mapOrigin place items results after mapAfter evaluates maps
  obtain ⟨evaluated, _⟩ := (settles origin array).of_run evaluates
  obtain ⟨mapped, _⟩ := (settles mapOrigin (.map array callable)).of_run maps
  obtain ⟨length, each⟩ := evalWith_map_pointwise blind evaluated mapped place
  refine ⟨length, fun index item there => ?_⟩
  obtain ⟨result, value, at', applied, alike, kept⟩ := each index item there
  refine ⟨result, value, at', ?_, alike, kept⟩
  rw [settles place, applied]
  rfl

/-- Negations in the last call that may be opened: an error among the items and one from the body
stay in their places. -/
theorem Evaluator.negations_map_pointwise :
    let registry := Registry.empty.register Session.negation
    let evaluator : Evaluator := ⟨[("t", .boolean true)], [], 255⟩
    let callable : Expr := .lambda ["x"] (.primitive "not" [.variable "x"])
    let items : List Value := [.boolean true, .error "late", .integer 1]
    let results : List Value := [.boolean false, .error "late",
      .error "type mismatch: expected Boolean, found Integer"]
    registry.IgnoresIdentity ∧
      (evaluate registry [] (.constant (.array items))).run evaluator =
        .ok (.array items, evaluator) ∧
      (evaluate registry [] (.map (.constant (.array items)) callable)).run evaluator =
        .ok (.array results, evaluator) ∧
      ∃ result value, results[2]? = some result ∧
        (evaluate registry [] (.apply callable [.constant (.integer 1)])).run evaluator =
          .ok (value, evaluator) ∧
        result.Alike value := by
  intro registry evaluator callable items results
  have blind : registry.IgnoresIdentity := by
    intro primitive member
    rw [List.mem_singleton.mp member]
    exact Session.negation_ignoresIdentity
  have evaluates : (evaluate registry [] (.constant (.array items))).run evaluator =
      .ok (.array items, evaluator) := rfl
  have maps : (evaluate registry [] (.map (.constant (.array items)) callable)).run evaluator =
      .ok (.array results, evaluator) := by
    rfl
  obtain ⟨result, value, at', applied, alike, _⟩ := ((maps_pointwise registry evaluator).2 blind
    (.constant (.array items)) callable [] [] [] items results evaluator evaluator evaluates
    maps).2 2 (.integer 1) rfl
  exact ⟨blind, evaluates, maps, result, value, at', applied, alike⟩

end NodeGraph
