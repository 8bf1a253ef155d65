import NodeGraph.Proofs.Expr.Exposure
import NodeGraph.Proofs.Typing.Masking

/-!
What a node depends on. Its expressions name the slots that they read, with the free names of all of
them. Inputs at other slots change neither its type, nor why it has none, nor a value of it that
holds no function; closures keep them, but nothing ever reads them there.
-/

namespace NodeGraph

namespace Frame

variable {inputs others : List (Option Value)}

theorem lookup_ofInputs (inputs : List (Option Value)) {name : String} {slot : Nat}
    (designates : Expr.inputSlot? name = some slot) :
    (ofInputs inputs).bindings.lookup name =
      if name = Expr.inputName slot then inputs[slot]?.join else none := by
  induction inputs using List.reverseRecOn with
  | nil => simp [ofInputs, empty]
  | append_singleton inputs input ih =>
      rw [ofInputs_concat]
      cases input with
      | none =>
          rw [addInput, ih]
          by_cases inside : slot < inputs.length
          · rw [List.getElem?_append_left inside]
          · have missing := List.getElem?_eq_none (Nat.le_of_not_lt inside)
            rw [List.getElem?_append_right (Nat.le_of_not_lt inside), missing]
            cases slot - inputs.length <;> simp
      | some last =>
          rw [addInput, List.lookup_cons]
          by_cases same : name = Expr.inputName inputs.length
          · have here : slot = inputs.length := by
              subst same
              exact Expr.inputSlot?_inputName designates
            simp [same, here]
          · rw [beq_eq_false_iff_ne.mpr same, ih]
            by_cases named : name = Expr.inputName slot
            · have apart : slot ≠ inputs.length := fun equal => same (equal ▸ named)
              rcases Nat.lt_or_gt_of_ne apart with inside | beyond
              · rw [List.getElem?_append_left inside]
              · rw [List.getElem?_eq_none (Nat.le_of_lt beyond),
                  List.getElem?_eq_none (by simp; omega)]
            · rw [if_neg named, if_neg named]

theorem lookup_ofInputs_none (bounded : inputs.length ≤ UInt64.size) {name : String}
    (designates : Expr.inputSlot? name = none) :
    (ofInputs inputs).bindings.lookup name = none := by
  rw [Option.eq_none_iff_forall_ne_some]
  intro value found
  obtain ⟨slot, rfl, given⟩ := ofInputs_named found
  have inside := (List.getElem?_eq_some_iff.mp given).1
  have word := Expr.inputSlot?_argument (UInt64.ofNat slot)
  rw [UInt64.toNat_ofNat_of_lt' (Nat.lt_of_lt_of_le inside bounded), designates] at word
  cases word

theorem shares_ofInputs {names : List String} (lengths : inputs.length = others.length)
    (bounded : inputs.length ≤ UInt64.size)
    (agree : ∀ name ∈ names, ∀ slot, Expr.inputSlot? name = some slot →
      inputs[slot]? = others[slot]?) :
    Shares [] names (ofInputs inputs) (ofInputs others) where
  named := by
    intro name read
    rw [Bindings.shown, Bindings.shown]
    cases designates : Expr.inputSlot? name with
    | none =>
        rw [lookup_ofInputs_none bounded designates,
          lookup_ofInputs_none (lengths ▸ bounded) designates]
    | some slot =>
        rw [lookup_ofInputs inputs designates, lookup_ofInputs others designates,
          agree name read slot designates]
  argued := by
    intro index read
    have same := agree _ (read rfl) _ (Expr.inputSlot?_argument index)
    refine congrArg Value.exposed ?_
    rw [argumentAt_eq, argumentAt_eq, ofInputs_arguments, ofInputs_arguments,
      List.getElem?_mapIdx, List.getElem?_mapIdx, same, List.length_mapIdx, List.length_mapIdx,
      lengths]

end Frame

theorem Snapshot.evaluate_exposed {registry : Registry} (blind : registry.IgnoresCaptures)
    (snapshot : Snapshot) (serial place : Nat) {inputs others : List (Option Value)}
    (lengths : inputs.length = others.length) (bounded : inputs.length ≤ UInt64.size)
    (agree : ∀ slot ∈ Params.slotsRead snapshot.params, inputs[slot]? = others[slot]?) :
    (snapshot.evaluate registry serial inputs).map Value.exposed =
      (snapshot.evaluate registry place others).map Value.exposed := by
  let names := snapshot.params.flatMap fun param => param.2.freeNames
  have frames : Frame.Shares [] names (.ofInputs inputs) (.ofInputs others) :=
    Frame.shares_ofInputs lengths bounded fun name read slot designates =>
      agree slot (List.mem_filterMap.mpr ⟨name, read, designates⟩)
  refine @evaluate_view .exposed registry (Frame.Shares [] names) View.exposed_lawful snapshot
    (fun left right frames param member => ?_)
    (fun _ _ frames name _ _ values => frames.bind name values) serial place _ _ frames
    (@View.Respects.along .exposed _ blind _ _)
  refine frames.agrees (fun _ => rfl) param.2 fun name free => ?_
  exact List.mem_flatMap.mpr ⟨param, member, free⟩

/-- A node depends on the slots that its expressions read, and on no others. Where inputs agree at
these, its value is the same if it holds no function, as long as primitives observe neither the
identity of functions nor bindings that functions keep without reading them; and its type is the
same, or why it has none. Inputs are as many as a machine word can count; known types are
generalized, so at the slots that are read they have no variables. -/
theorem Params.depends_on_slotsRead {registry : Registry} (closed : registry.Closed)
    (params : Params) :
    (registry.IgnoresCaptures → ∀ snapshot : Snapshot, snapshot.params = params →
      ∀ (serial place : Nat) (inputs others : List (Option Value)),
        inputs.length = others.length → inputs.length ≤ UInt64.size →
        (∀ slot ∈ params.slotsRead, inputs[slot]? = others[slot]?) →
          ∀ value : Value, value.plain = true →
            (snapshot.evaluate registry serial inputs = .ok value ↔
              snapshot.evaluate registry place others = .ok value)) ∧
    ∀ (node : Nat) (inputs others : List InputType), inputs.length = others.length →
      (∀ slot ∈ params.slotsRead, inputs[slot]? = others[slot]?) →
      (∀ slot ∈ params.slotsRead, ∀ input ty, inputs[slot]? = some input → input.ty = some ty →
        ty.vars = []) →
          inferNode registry node params inputs = inferNode registry node params others := by
  refine ⟨?_, fun node inputs others lengths agree known =>
    inferNode_congr closed node lengths agree known⟩
  rintro blind snapshot rfl serial place inputs others lengths bounded agree value plain
  have same := snapshot.evaluate_exposed blind serial place lengths bounded agree
  have onward : ∀ {outcome final : Except Fault Value},
      outcome.map Value.exposed = final.map Value.exposed → outcome = .ok value →
        final = .ok value := by
    rintro outcome final same rfl
    cases final with
    | error fault => cases same
    | ok other => rw [View.exposed.eq_of_plain plain (Except.ok.inj same)]
  exact ⟨onward same, onward same.symm⟩

/-- A function that keeps the second input and negates the first one. -/
def keepsSecond : Params :=
  [(Expr.outputName, .apply (.lambda ["x"] (.primitive "not" [.variable "x"])) [.argument 0])]

theorem negation_closed : (Registry.empty.register Session.negation).Closed := by
  intro name signature found
  obtain ⟨primitive, present, rfl⟩ := Option.map_eq_some_iff.mp found
  have member : primitive ∈ [Session.negation] := List.mem_of_find?_eq_some present
  rw [List.mem_singleton.mp member]
  rfl

theorem negation_ignoresCaptures :
    (Registry.empty.register Session.negation).IgnoresCaptures := by
  intro primitive member
  have only : primitive ∈ [Session.negation] := member
  rw [List.mem_singleton.mp only]
  exact Session.negation_respects .exposed

/-- The second input is kept but not read, so it may be anything, even a type with a variable. -/
theorem keepsSecond_depends :
    keepsSecond.slotsRead = [0] ∧
    Snapshot.evaluate ⟨0, 1, keepsSecond, []⟩ (Registry.empty.register Session.negation) 0
        [some (.boolean true), some (.text "kept")] = .ok (.boolean false) ∧
    Snapshot.evaluate ⟨0, 1, keepsSecond, []⟩ (Registry.empty.register Session.negation) 1
        [some (.boolean true), none] = .ok (.boolean false) ∧
    inferNode (Registry.empty.register Session.negation) 0 keepsSecond
        [⟨none, some .boolean⟩, ⟨none, none⟩] = .ok .boolean ∧
    inferNode (Registry.empty.register Session.negation) 0 keepsSecond
        [⟨none, some .boolean⟩, ⟨some 3, some (.var 7)⟩] = .ok .boolean := by
  have read : keepsSecond.slotsRead = [0] := by decide +kernel
  have value : Snapshot.evaluate ⟨0, 1, keepsSecond, []⟩
      (Registry.empty.register Session.negation) 0
      [some (.boolean true), some (.text "kept")] = .ok (.boolean false) := rfl
  have typed : inferNode (Registry.empty.register Session.negation) 0 keepsSecond
      [⟨none, some .boolean⟩, ⟨none, none⟩] = .ok .boolean := rfl
  obtain ⟨values, types⟩ := Params.depends_on_slotsRead negation_closed keepsSecond
  refine ⟨read, value, ?_, typed, ?_⟩
  · have few : [some (Value.boolean true), some (.text "kept")].length ≤ UInt64.size := by decide
    have same := values negation_ignoresCaptures ⟨0, 1, keepsSecond, []⟩ rfl 0 1
      [some (.boolean true), some (.text "kept")] [some (.boolean true), none] rfl few
      (by simp [read]) (.boolean false) rfl
    exact same.mp value
  · refine (types 0 _ _ rfl ?_ ?_).symm.trans typed
    · simp [read]
    · simp only [read, List.mem_singleton]
      rintro slot rfl input ty ⟨⟩ ⟨⟩
      rfl

def appliesSecond : Params := [(Expr.outputName, .apply (.argument 1) [.argument 2])]

def variableAfter (first : Option Ty) : List InputType :=
  [⟨none, first⟩, ⟨none, some (.var 0)⟩, ⟨none, none⟩]

/-- Known types that have variables are out of this. A variable is taken as it is, so it may be the
one that stands for an unknown input, and for which of these depends on the inputs before. -/
theorem variableAfter_depends :
    ¬ ∀ registry : Registry, registry.Closed → ∀ (params : Params) (node : Nat)
      (inputs others : List InputType), inputs.length = others.length →
        (∀ slot ∈ params.slotsRead, inputs[slot]? = others[slot]?) →
          inferNode registry node params inputs = inferNode registry node params others := by
  intro depends
  have read : appliesSecond.slotsRead = [1, 2] := by decide +kernel
  have applied : inferNode .empty 0 appliesSecond (variableAfter none) = .ok (.generic 0) := rfl
  have endless : inferNode .empty 0 appliesSecond (variableAfter (some .number)) =
      .error ⟨0, 0, Expr.outputName, .infinite (.generic 0)
        (.function [.generic 0] (.generic 1)) (.input 1)⟩ := rfl
  have same := depends .empty (fun _ _ found => nomatch found) appliesSecond 0
    (variableAfter none) (variableAfter (some .number)) rfl (by simp [read, variableAfter])
  rw [applied, endless] at same
  cases same

end NodeGraph
