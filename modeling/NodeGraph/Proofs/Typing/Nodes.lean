import NodeGraph.Proofs.Execution.Coherence
import NodeGraph.Proofs.Graph.Typing
import NodeGraph.Proofs.Text.Numerals
import NodeGraph.Proofs.Typing.Soundness

/-!
Soundness at nodes. Inputs get an instance of their type each, parameters see those before them, and
the type of the output is generalized. So where all nodes of a cone have types, the value of its
root inhabits every instance of its type, and so does what sessions evaluate, whatever is cached.
-/

namespace NodeGraph

theorem Expr.toList_inputName (slot : Nat) :
    (inputName slot).toList = 'i' :: 'n' :: Nat.toDigits 10 slot := by
  simp [inputName, toList_natText, Numeral.digitsOf]

theorem Expr.inputSlot?_inputName {slot other : Nat}
    (designates : inputSlot? (inputName slot) = some other) : other = slot := by
  rw [inputSlot?, toList_inputName] at designates
  simp only [Numeral.valueOf_toDigits] at designates
  split at designates
  · cases designates
  · split at designates
    · exact (Option.some.inj designates).symm
    · cases designates

namespace Frame

theorem ofInputs_concat (inputs : List (Option Value)) (input : Option Value) :
    ofInputs (inputs ++ [input]) = (ofInputs inputs).addInput inputs.length input := by
  rw [ofInputs, List.zipIdx_append, List.foldl_append, Nat.zero_add]
  rfl

theorem addInput_arguments (frame : Frame) (slot : Nat) (input : Option Value) :
    (frame.addInput slot input).arguments = frame.arguments ++
      [input.getD (EvalError.unboundVariable (Expr.inputName slot)).value] := by
  cases input with
  | none => rfl
  | some value => rfl

theorem ofInputs_arguments (inputs : List (Option Value)) :
    (ofInputs inputs).arguments = inputs.mapIdx fun slot input =>
      input.getD (EvalError.unboundVariable (Expr.inputName slot)).value := by
  induction inputs using List.reverseRecOn with
  | nil => rfl
  | append_singleton inputs input ih =>
      rw [ofInputs_concat, addInput_arguments, List.mapIdx_concat, ih]

theorem argumentAt_ofInputs (inputs : List (Option Value)) (slot : Nat) :
    ((ofInputs inputs).argumentAt slot).isError = true ∨
      inputs[slot]? = some (some ((ofInputs inputs).argumentAt slot)) := by
  rw [argumentAt, ofInputs_arguments, List.getElem?_mapIdx]
  cases inputs[slot]? with
  | none => exact Or.inl rfl
  | some input =>
      cases input with
      | none => exact Or.inl rfl
      | some value => exact Or.inr rfl

theorem ofInputs_named {inputs : List (Option Value)} {name : String} {value : Value}
    (found : (ofInputs inputs).bindings.lookup name = some value) :
    ∃ slot, name = Expr.inputName slot ∧ inputs[slot]? = some (some value) := by
  induction inputs using List.reverseRecOn with
  | nil => cases found
  | append_singleton inputs input ih =>
      have earlier : (ofInputs inputs).bindings.lookup name = some value →
          ∃ slot, name = Expr.inputName slot ∧ (inputs ++ [input])[slot]? = some (some value) := by
        intro found
        obtain ⟨slot, same, given⟩ := ih found
        refine ⟨slot, same, ?_⟩
        rw [List.getElem?_append_left (List.getElem?_eq_some_iff.mp given).1, given]
      rw [ofInputs_concat] at found
      cases input with
      | none => exact earlier found
      | some last =>
          rw [addInput, List.lookup_cons] at found
          split at found
          · rename_i same
            cases found
            exact ⟨inputs.length, beq_iff_eq.mp same, by simp⟩
          · exact earlier found

theorem valueOf_ofInputs (inputs : List (Option Value)) {name : String} {slot : Nat}
    (designates : Expr.inputSlot? name = some slot) :
    ((ofInputs inputs).valueOf name).isError = true ∨
      inputs[slot]? = some (some ((ofInputs inputs).valueOf name)) := by
  rw [valueOf]
  cases found : (ofInputs inputs).bindings.lookup name with
  | none => exact Or.inl rfl
  | some value =>
      obtain ⟨other, rfl, given⟩ := ofInputs_named found
      rw [Expr.inputSlot?_inputName designates]
      exact Or.inr given

end Frame

namespace InferState

/-- Every input has a type, an instance of the one that is known of it. -/
structure Opened (inputs : List InputType) (state : InferState) : Prop where
  valid : state.Valid
  size : state.inputs.size = inputs.length
  instances : ∀ (slot : Nat) (input : InputType) (known ty : Ty), inputs[slot]? = some input →
    input.ty = some known → state.inputs[slot]? = some ty → ∀ vars generics : Nat → Ty,
      ∃ instances : Nat → Ty, ty.fill vars generics = known.instanceBy instances

variable {inputs : List InputType} {state : InferState}

theorem Opened.push (opened : state.Opened inputs) {table : VarTable} (settled : table.Settled)
    (extended : state.table.Extends table) {input : InputType} {ty : Ty}
    (small : ty.Scoped table.size) (instances : ∀ known, input.ty = some known →
      ∀ vars generics, ∃ instances : Nat → Ty,
        ty.fill vars generics = known.instanceBy instances) :
    Opened (inputs ++ [input]) ⟨table, state.inputs.push ty⟩ where
  valid := by
    refine ⟨settled, fun slot other found => ?_⟩
    rw [Array.getElem?_push] at found
    split at found
    · cases found
      exact small
    · exact (opened.valid.inputs slot other found).mono extended.size
  size := by simp [opened.size]
  instances := by
    intro slot other known given present typed found
    rw [Array.getElem?_push, opened.size] at found
    split at found
    · rename_i last
      cases found
      rw [last, List.getElem?_concat_length] at present
      cases present
      exact instances known typed
    · rename_i different
      refine opened.instances slot other known given ?_ typed found
      rwa [List.getElem?_append_left ?_] at present
      have bound := (List.getElem?_eq_some_iff.mp present).1
      rw [List.length_append, List.length_singleton] at bound
      omega

theorem ofInputs_known (inputs : List InputType) {input : InputType} {ty : Ty}
    (known : input.ty = some ty) :
    ofInputs (inputs ++ [input]) = ⟨((ofInputs inputs).table.instantiate ty).2,
      (ofInputs inputs).inputs.push ((ofInputs inputs).table.instantiate ty).1⟩ := by
  rw [ofInputs, List.foldl_append, List.foldl_cons, List.foldl_nil, known]
  rfl

theorem ofInputs_unknown (inputs : List InputType) {input : InputType}
    (unknown : input.ty = none) :
    ofInputs (inputs ++ [input]) = ⟨(ofInputs inputs).table.fresh.2,
      (ofInputs inputs).inputs.push (ofInputs inputs).table.fresh.1⟩ := by
  rw [ofInputs, List.foldl_append, List.foldl_cons, List.foldl_nil, unknown]
  rfl

theorem ofInputs_opened (inputs : List InputType)
    (closed : ∀ input ∈ inputs, ∀ ty, input.ty = some ty → ty.vars = []) :
    (ofInputs inputs).Opened inputs := by
  induction inputs using List.reverseRecOn with
  | nil =>
      refine ⟨⟨VarTable.settled_empty, fun slot ty found => ?_⟩, rfl,
        fun slot input known ty present => ?_⟩
      · cases found
      · cases present
  | append_singleton inputs input ih =>
      have opened := ih fun input member => closed input (List.mem_append_left _ member)
      cases known : input.ty with
      | none =>
          rw [ofInputs_unknown inputs known]
          obtain ⟨general, solved⟩ := opened.valid.settled
          refine opened.push ⟨general, solved.fresh⟩ (VarTable.fresh_extends _)
            (VarTable.fresh_scoped _) fun given impossible => ?_
          rw [known] at impossible
          cases impossible
      | some ty =>
          rw [ofInputs_known inputs known]
          have opens := VarTable.opens_instantiateWith (ofInputs inputs).table [] ty
            (closed input (by simp) ty known)
          refine opened.push (opens.settled opened.valid.settled) opens.extended
            ((opens.small fun _ _ impossible => nomatch impossible).2 _ List.mem_cons_self) ?_
          intro given same vars generics
          rw [known] at same
          cases same
          have filled := opens.filled (fun _ _ found => found) vars generics
          exact ⟨_, (List.cons.inj filled).1⟩

end InferState

/-- What the slots hold inhabits every instance of the types that the inputs have. -/
def Feeds (registry : Registry) (inputs : List InputType) (values : List (Option Value)) : Prop :=
  ∀ (slot : Nat) (value : Value), values[slot]? = some (some value) →
    ∃ input ty, inputs[slot]? = some input ∧ input.ty = some ty ∧
      ∀ generics : Nat → Ty, (ty.instanceBy generics).Admits registry value

variable {registry : Registry}

theorem Feeds.fits {inputs : List InputType} {values : List (Option Value)}
    (feeds : Feeds registry inputs values) {state later : InferState}
    (opened : state.Opened inputs) (extended : state.Extends later) (vars generics : Nat → Ty) :
    (Frame.ofInputs values).Fits registry (.ofRegistry registry) later.inputs vars generics := by
  have held : ∀ (slot : Nat) (value : Value) (ty : Ty), values[slot]? = some (some value) →
      later.inputs[slot]? = some ty → (ty.fill vars generics).Admits registry value := by
    intro slot value ty given found
    obtain ⟨input, known, present, typed, inhabits⟩ := feeds slot value given
    have inside : slot < state.inputs.size := by
      rw [opened.size]
      exact (List.getElem?_eq_some_iff.mp present).1
    have first := Array.getElem?_eq_getElem inside
    have same := extended.inputs slot _ first
    rw [found] at same
    cases same
    obtain ⟨instances, filled⟩ :=
      opened.instances slot input known _ present typed first vars generics
    rw [filled]
    exact inhabits instances
  constructor
  · intro name ty found
    rw [TypeContext.nameTy?] at found
    simp only [TypeContext.scoped?, TypeContext.ofRegistry, List.findSome?_nil] at found
    split at found
    · rename_i slot designates
      rcases Frame.valueOf_ofInputs values designates with broken | given
      · exact Ty.admits_of_error broken _
      · exact held slot _ ty given found
    · cases found
  · intro index ty found
    rcases Frame.argumentAt_ofInputs values index with broken | given
    · exact Ty.admits_of_error broken _
    · exact held index _ ty given found

theorem Frame.Fits.bind {context : TypeContext} {inputs : Array Ty} {vars generics : Nat → Ty}
    {frame : Frame} (fits : frame.Fits registry context inputs vars generics)
    (outer : context.scopes = []) {name : String} (free : Expr.inputSlot? name = none)
    {ty : Ty} {value : Value} (inhabits : (ty.fill vars generics).Admits registry value) :
    (frame.bind name value).Fits registry (context.bind name ty) inputs vars generics where
  named := by
    intro other given found
    have unscoped : context.scoped? other = none := by
      rw [TypeContext.scoped?, outer, List.findSome?_nil]
    have before := fits.named other given
    rw [TypeContext.nameTy?, unscoped, Frame.valueOf] at before
    rw [TypeContext.nameTy?,
      show (context.bind name ty).scoped? other = none from unscoped] at found
    rw [Frame.valueOf, Frame.bind, List.lookup_cons]
    cases same : other == name with
    | true =>
        rw [beq_iff_eq.mp same, free] at found
        simp only [TypeContext.bind, List.lookup_cons_self, Option.some.injEq] at found
        rw [← found]
        exact inhabits
    | false =>
        simp only [TypeContext.bind, List.lookup_cons, same] at found
        exact before found
  argued := fits.argued

/-- Parameters have types: binding them to a frame that fits makes it fit what sees them all. -/
structure Binds (context : TypeContext) (params : Params) (after : TypeContext)
    (later : InferState) : Prop where
  small : after.Scoped later.table.size
  outer : after.scopes = []
  registry : after.registry = context.registry
  fits : ∀ {last : InferState} {vars generics : Nat → Ty}, later.Extends last →
    last.table.Solves vars generics → ∀ {frame : Frame},
      frame.Fits context.registry context last.inputs vars generics → ∀ serial position,
        ∃ bound, Snapshot.bindParams context.registry serial position frame params = .ok bound ∧
          bound.Fits context.registry after last.inputs vars generics

theorem inferParams_steps {node : Nat} {inputs : List InputType} {params : Params}
    {context after : TypeContext} {state later : InferState} (sound : context.registry.Sound)
    (free : ∀ param ∈ params, Expr.inputSlot? param.1 = none)
    (plain : ∀ param ∈ params, param.2.plain = true) (outer : context.scopes = [])
    (valid : state.Valid) (small : context.Scoped state.table.size)
    (accepted : inferParams node inputs context state params = .ok (after, later)) :
    state.Steps [] later ∧ Binds context params after later := by
  induction params generalizing context state with
  | nil =>
      cases accepted
      exact ⟨.refl valid, small, outer, rfl, fun _ _ frame fits _ _ => ⟨frame, rfl, fits⟩⟩
  | cons param rest ih =>
      obtain ⟨name, expr⟩ := param
      rw [inferParams] at accepted
      split at accepted
      · rename_i ty middle first
        have typed := Infer.exprTy_types sound expr (plain _ List.mem_cons_self) valid small first
        have boundSmall : (context.bind name ty).Scoped middle.table.size := by
          have grown := small.mono typed.steps.extended.table.size
          refine ⟨fun entry member => ?_, grown.names, grown.arguments⟩
          rcases List.mem_cons.mp member with same | earlier
          · rw [same]
            exact typed.steps.small ty List.mem_cons_self
          · exact grown.params entry earlier
        obtain ⟨steps, binds⟩ := @ih (context.bind name ty) middle sound
          (fun param member => free param (List.mem_cons_of_mem _ member))
          (fun param member => plain param (List.mem_cons_of_mem _ member)) outer
          typed.steps.valid boundSmall accepted
        refine ⟨(typed.steps.trans steps).of_subset (List.nil_subset _), binds.small, binds.outer,
          binds.registry, fun extended solves frame fits serial position => ?_⟩
        have since := steps.extended.trans extended
        obtain ⟨value, evaluated, inhabits⟩ := typed.means (since.table.solves solves)
          (fits.earlier since) Expr.maxCallDepth [position, serial]
        rw [Snapshot.bindParams, Expr.eval, evaluated]
        exact binds.fits extended solves
          (fits.bind outer (free _ List.mem_cons_self) inhabits) serial (position + 1)
      · cases accepted

def Ty.YieldsEach (registry : Registry) (ty : Ty) (outcome : Except Fault Value) : Prop :=
  ∃ value, outcome = .ok value ∧
    ∀ generics : Nat → Ty, (ty.instanceBy generics).Admits registry value

theorem Ty.yieldsEach {ty : Ty} {outcome : Except Fault Value}
    (each : ∀ generics : Nat → Ty, (ty.instanceBy generics).Yields registry outcome) :
    ty.YieldsEach registry outcome := by
  -- Each instance speaks of one value, the one the evaluation returns.
  obtain ⟨value, evaluated, _⟩ := each .generic
  refine ⟨value, evaluated, fun generics => ?_⟩
  obtain ⟨other, again, admits⟩ := each generics
  rw [evaluated] at again
  cases again
  exact admits

theorem TypeContext.ofRegistry_scoped (registry : Registry) (size : Nat) :
    (TypeContext.ofRegistry registry).Scoped size :=
  ⟨fun _ member => (nomatch member), fun _ member => (nomatch member),
    fun _ member => (nomatch member)⟩

theorem inferNode_ok {node : Nat} {params : Params} {inputs : List InputType} {ty : Ty}
    (accepted : inferNode registry node params inputs = .ok ty) :
    ∃ context state output outputTy last,
      inferParams node inputs (.ofRegistry registry) (.ofInputs inputs)
        (params.filter fun param => param.1 != Expr.outputName) = .ok (context, state) ∧
      params.lookup Expr.outputName = some output ∧
      Infer.exprTy context output state = .ok (outputTy, last) ∧ ty = last.generalize outputTy := by
  rw [inferNode] at accepted
  cases bound : inferParams node inputs (.ofRegistry registry) (.ofInputs inputs)
      (params.filter fun param => param.1 != Expr.outputName) with
  | error error =>
      rw [bound] at accepted
      cases accepted
  | ok pair =>
      rw [bound] at accepted
      simp only [bind, Except.bind] at accepted
      split at accepted
      · cases accepted
      · rename_i output found
        split at accepted
        · rename_i outputTy last outcome
          cases accepted
          exact ⟨pair.1, pair.2, output, outputTy, last, rfl, found, outcome, rfl⟩
        · cases accepted

theorem inferNode_yields (sound : registry.Sound) {node : Nat} {params : Params}
    {inputs : List InputType} {ty : Ty} (free : ∀ param ∈ params, Expr.inputSlot? param.1 = none)
    (plain : ∀ param ∈ params, param.2.plain = true)
    (closed : ∀ input ∈ inputs, ∀ ty, input.ty = some ty → ty.vars = [])
    (accepted : inferNode registry node params inputs = .ok ty) :
    ∀ {values : List (Option Value)}, Feeds registry inputs values →
      ∀ {snapshot : Snapshot}, snapshot.params = params → ∀ serial : Nat,
        ty.YieldsEach registry (snapshot.evaluate registry serial values) := by
  have opened := InferState.ofInputs_opened inputs closed
  obtain ⟨context, state, output, outputTy, last, bound, found, outcome, rfl⟩ :=
    inferNode_ok accepted
  obtain ⟨steps, binds⟩ := inferParams_steps
    (show (TypeContext.ofRegistry registry).registry.Sound from sound)
    (fun param member => free param (List.mem_of_mem_filter member))
    (fun param member => plain param (List.mem_of_mem_filter member)) rfl opened.valid
    (TypeContext.ofRegistry_scoped registry _) bound
  obtain rfl : context.registry = registry := binds.registry
  obtain ⟨before, after, parts, _⟩ := List.lookup_eq_some_iff.mp found
  have typed := Infer.exprTy_types sound output
    (plain (Expr.outputName, output) (by simp [parts])) steps.valid binds.small outcome
  intro values feeds snapshot same serial
  refine Ty.yieldsEach fun generics => ?_
  -- An instance of the output type is a solution of the table, under which the frame fits.
  obtain ⟨general, solved⟩ := typed.steps.valid.settled
  obtain ⟨vars, solves, filled⟩ :=
    solved.exists_solution (typed.steps.small outputTy List.mem_cons_self) generics
  have extended := typed.steps.extended
  obtain ⟨frame, given, fits⟩ := binds.fits extended solves
    (feeds.fits opened (steps.extended.trans extended) vars generics) serial 0
  rw [Snapshot.evaluate, same, found]
  simp only [bind, Except.bind]
  rw [show Snapshot.bindParams context.registry serial 0 _ _ = .ok frame from given]
  rw [InferState.generalize, ← filled]
  exact typed.means solves fits Expr.maxCallDepth _

namespace Graph

/-- A node and all that it reads have types, and their constants have no functions inside. -/
def TypedCone (graph : Graph) (index : Nat) : Prop :=
  ∀ target, target = index ∨ graph.Reaches index target → ∀ node,
    graph.nodes[target]? = some node →
      (∃ ty, node.ty = .ok ty) ∧ ∀ param ∈ node.params, param.2.plain = true

theorem TypedCone.below {graph : Graph} {index target : Nat} (cone : graph.TypedCone index)
    (reads : graph.Reads index target) : graph.TypedCone target := by
  intro other reached
  refine cone other (Or.inr ?_)
  rcases reached with rfl | path
  · exact .single reads
  · exact .head reads path

theorem Typed.inputTypes_known {graph : Graph} (typed : graph.Typed) (slots : List (Option Nat)) :
    ∀ input ∈ graph.inputTypes slots, ∀ ty, input.ty = some ty → ty.vars = [] := by
  intro input member ty known
  rw [inputTypes_eq] at member
  obtain ⟨slot, _, rfl⟩ := List.mem_map.mp member
  cases slot with
  | none => cases known
  | some target =>
      obtain ⟨outcome, stored, kept⟩ := Option.bind_eq_some_iff.mp known
      obtain ⟨node, found, rfl⟩ := Option.map_eq_some_iff.mp stored
      cases accepted : node.ty with
      | error failure =>
          rw [accepted] at kept
          cases kept
      | ok stored =>
          rw [accepted] at kept
          cases kept
          rw [typed target node found] at accepted
          obtain ⟨_, _, _, found, last, _, _, _, rfl⟩ := inferNode_ok accepted
          exact VarTable.generalize_vars found

/-- The value inhabits every instance of the type of the node. -/
def Inhabits (graph : Graph) (index : Nat) (value : Value) : Prop :=
  ∀ node ty, graph.nodes[index]? = some node → node.ty = .ok ty →
    ∀ generics : Nat → Ty, (ty.instanceBy generics).Admits graph.registry value

variable {graph : Graph} {index : Nat} {node : Node}

theorem inputTypes_feeds {given : Nat → Option Value}
    (cone : graph.TypedCone index) (wellFormed : graph.WellFormed)
    (found : graph.nodes[index]? = some node)
    (inhabit : ∀ target, some target ∈ node.slots → ∀ value, given target = some value →
      graph.Inhabits target value) :
    Feeds graph.registry (graph.inputTypes node.slots)
      (node.slots.map fun slot => slot.bind given) := by
  intro slot value held
  rw [List.getElem?_map] at held
  obtain ⟨connected, listed, read⟩ := Option.map_eq_some_iff.mp held
  cases connected with
  | none => cases read
  | some target =>
      have mentioned := List.mem_of_getElem? listed
      obtain ⟨other, present⟩ :=
        found_of_bound ((wellFormed.fits found).bound target mentioned)
      obtain ⟨⟨ty, stored⟩, _⟩ :=
        cone target (Or.inr (.single (wellFormed.reads found mentioned))) other present
      refine ⟨⟨some target, some ty⟩, ty, ?_, rfl, inhabit target mentioned value read other ty
        present stored⟩
      rw [inputTypes_eq, List.getElem?_map, listed]
      simp [ty?, present, stored, Except.toOption]

theorem Reachable.evaluate_inhabits (reachable : graph.Reachable) (sound : graph.registry.Sound)
    (cone : graph.TypedCone index) (found : graph.nodes[index]? = some node)
    {given : Nat → Option Value}
    (inhabit : ∀ target, some target ∈ node.slots → ∀ value, given target = some value →
      graph.Inhabits target value) (serial : Nat) :
    ∃ value, (Snapshot.ofNode index node).evaluate graph.registry serial
      (node.slots.map fun slot => slot.bind given) = .ok value ∧ graph.Inhabits index value := by
  have wellFormed := reachable.wellFormed
  have named := (checkParams_ok_iff _).mp (wellFormed.fits found).named
  obtain ⟨⟨ty, stored⟩, plain⟩ := cone index (Or.inl rfl) node found
  obtain ⟨value, evaluated, admits⟩ := inferNode_yields sound
    (fun param member => named.2 param.1 (List.mem_map_of_mem member)) plain
    (reachable.typed.inputTypes_known node.slots)
    ((reachable.typed index node found).symm.trans stored)
    (inputTypes_feeds cone wellFormed found inhabit)
    (show (Snapshot.ofNode index node).params = node.params from rfl) serial
  refine ⟨value, evaluated, fun other ty there typed => ?_⟩
  rw [found] at there
  cases there
  rw [stored] at typed
  cases typed
  exact admits

theorem Reachable.valueUnder_inhabits (reachable : graph.Reachable)
    (sound : graph.registry.Sound) (serials : Nat → Nat) (index : Nat) :
    ∀ {node : Node}, graph.nodes[index]? = some node → graph.TypedCone index →
      ∃ value, graph.valueUnder serials index = .ok value ∧ graph.Inhabits index value := by
  have wellFormed := reachable.wellFormed
  induction index using wellFormed.acyclic.induction graph.mirrored with
  | step index ih =>
      intro node found cone
      have below : ∀ target, some target ∈ node.slots → ∃ value,
          graph.valueUnder serials target = .ok value ∧ graph.Inhabits target value := by
        intro target mentioned
        have reads := wellFormed.reads found mentioned
        obtain ⟨other, present⟩ := found_of_bound ((wellFormed.fits found).bound target mentioned)
        exact ih target reads present (cone.below reads)
      rw [wellFormed.valueUnder_eq found,
        @readSlots_given _ (fun target => (graph.valueUnder serials target).toOption) node.slots
          fun target mentioned => by
            obtain ⟨value, valued, _⟩ := below target mentioned
            exact ⟨value, by rw [valued]; rfl, valued⟩]
      refine reachable.evaluate_inhabits sound cone found (fun target mentioned value read => ?_) _
      obtain ⟨other, valued, inhabits⟩ := below target mentioned
      rw [valued] at read
      cases read
      exact inhabits

theorem TypedCone.persists {later : Graph} {place : Nat → Nat} (cone : later.TypedCone index)
    (kept : graph.Persists place later) (reachable : graph.Reachable)
    (laterReachable : later.Reachable) (found : later.nodes[index]? = some node)
    (old : node.revision ≤ graph.lastRevision) : graph.TypedCone (place index) := by
  have follows := kept.follows
  have wellFormed := laterReachable.wellFormed
  have unchanged : ∀ {position : Nat} {here before : Node},
      (position = index ∨ later.Reaches index position) →
      (∃ node, later.nodes[position]? = some node ∧ node.revision ≤ graph.lastRevision) →
      later.nodes[position]? = some here → graph.nodes[place position]? = some before →
        (∃ ty, before.ty = .ok ty) ∧ ∀ param ∈ before.params, param.2.plain = true := by
    intro position here before path member there present
    obtain ⟨same, again, params, _⟩ := follows.nodes member there
    rw [present] at again
    cases again
    obtain ⟨⟨ty, stored⟩, plain⟩ := cone position path here there
    have types := follows.ty wellFormed reachable.typed laterReachable.typed position member there
      present
    exact ⟨⟨ty, types.trans (congrArg _ stored)⟩, params ▸ plain⟩
  rintro target (rfl | path) before present
  · exact unchanged (Or.inl rfl) ⟨node, found, old⟩ found present
  · obtain ⟨source, sourceNode, sourcePath, member, there, rfl⟩ :=
      follows.reaches_place wellFormed ⟨node, found, old⟩ found path
    exact unchanged (Or.inr sourcePath) member there present

/-- Values of the types of their nodes may come from the cache. -/
theorem inhabits_cacheable :
    Cacheable
      (fun graph index value => graph.registry.Sound → graph.TypedCone index →
        graph.Inhabits index value)
      fun graph index _ => graph.registry.Sound → ¬ graph.TypedCone index where
  lasting := by
    intro graph later place kept reachable laterReachable position node value found old inhabits
      sound cone other ty there stored
    rw [found] at there
    cases there
    obtain ⟨before, present, _⟩ := kept.old found old
    have types := kept.follows.ty laterReachable.wellFormed reachable.typed laterReachable.typed
      position ⟨node, found, old⟩ found present
    rw [kept.registry] at sound ⊢
    exact inhabits sound (cone.persists kept reachable laterReachable found old) before ty present
      (types.trans (congrArg _ stored))
  evaluates := by
    intro graph reachable index node found serial
    have evaluated : ∀ {known : List (Nat × Value)},
        (∀ target, some target ∈ node.slots → ∃ value, known.lookup target = some value ∧
          (graph.registry.Sound → graph.TypedCone target → graph.Inhabits target value)) →
        graph.registry.Sound → graph.TypedCone index → ∃ value,
          (Snapshot.ofNode index node).evaluate graph.registry serial
            ((Snapshot.ofNode index node).inputValues known) = .ok value ∧
          graph.Inhabits index value := by
      intro known inputs sound cone
      refine reachable.evaluate_inhabits sound cone found (fun target mentioned value read => ?_) _
      obtain ⟨other, same, inhabits⟩ := inputs target mentioned
      rw [read] at same
      cases same
      exact inhabits sound (cone.below (reachable.wellFormed.reads found mentioned))
    refine ⟨fun inputs outcome sound cone => ?_, fun inputs outcome sound cone => ?_⟩
    · obtain ⟨_, same, inhabits⟩ := evaluated inputs sound cone
      cases same.symm.trans outcome
      exact inhabits
    · obtain ⟨_, same, _⟩ := evaluated inputs sound cone
      cases same.symm.trans outcome

/-- Types are sound: where a node and all that it reads have types and no constant has functions
inside, over primitives as good as their signatures, the node has a value, and it inhabits every
instance of the node's type. This is so whatever serial numbers the nodes are evaluated under, and
in every session on the graph, whatever is cached. -/
theorem Reachable.inhabits (reachable : graph.Reachable) (sound : graph.registry.Sound) {ty : Ty}
    (found : graph.nodes[index]? = some node) (stored : node.ty = .ok ty)
    (cone : graph.TypedCone index) :
    (∀ serials : Nat → Nat, ∃ value, graph.valueUnder serials index = .ok value ∧
      ∀ generics : Nat → Ty, (ty.instanceBy generics).Admits graph.registry value) ∧
    ∀ session : Session, session.Reachable → session.graph = graph →
      ∃ value later, session.evaluate index = .ok (.ok (value, later)) ∧
        ∀ generics : Nat → Ty, (ty.instanceBy generics).Admits graph.registry value := by
  constructor
  · intro serials
    obtain ⟨value, valued, inhabits⟩ := reachable.valueUnder_inhabits sound serials index found cone
    exact ⟨value, valued, inhabits node ty found stored⟩
  · rintro session running rfl
    rcases running.evaluate_right inhabits_cacheable (bound_of_found found) with
      ⟨value, later, evaluated, inhabits⟩ | ⟨_, _, target, path, untyped⟩
    · exact ⟨value, later, evaluated, inhabits sound cone node ty found stored⟩
    · refine absurd ?_ (untyped sound)
      rcases path with rfl | path
      · exact cone
      · exact fun other reached => cone other (Or.inr (reached.elim (· ▸ path) path.trans))

/-- An array, a function that maps over it, and that function on negation. -/
def negatedItems : Graph :=
  (Graph.empty (Registry.empty.register Session.negation)).run
    [.addOutputNode (.constant (.array [.boolean true])),
      .addOutputNode (.lambda ["f"] (.map (.variable (Expr.inputName 0)) (.variable "f"))),
      .addEdge 1 0 0,
      .addOutputNode (.apply (.variable (Expr.inputName 0)) [.primitive "not" []]),
      .addEdge 2 0 1]

theorem negation_sound : (Registry.empty.register Session.negation).Sound := by
  have only : ∀ name signature,
      (Registry.empty.register Session.negation).signature? name = some signature →
        name = "not" ∧ signature = Session.negation.signature := by
    intro name signature found
    obtain ⟨primitive, present, rfl⟩ := Option.map_eq_some_iff.mp found
    have member : primitive ∈ [Session.negation] := List.mem_of_find?_eq_some present
    rw [List.mem_singleton.mp member] at present ⊢
    have named := List.find?_some
      (p := fun primitive : Primitive => primitive.signature.name == name) present
    exact ⟨(beq_iff_eq.mp named).symm, rfl⟩
  refine ⟨fun name signature found => ?_, fun name signature found none => ?_,
    fun name signature found generics operands admitted => ?_⟩
  · rw [(only name signature found).2]
    rfl
  · rw [(only name signature found).2] at none
    cases none
  · obtain ⟨rfl, rfl⟩ := only name signature found
    change Ty.AdmitsAll _ [.boolean] operands at admitted
    change Ty.Yields _ .boolean _
    cases operands with
    | nil => cases admitted
    | cons operand rest =>
        obtain ⟨inhabits, none⟩ := Ty.admitsAll_cons.mp admitted
        cases rest with
        | cons other rest => cases none
        | nil =>
            rw [Ty.boolean, Ty.Admits] at inhabits
            rcases inhabits with broken | truth
            · cases operand with
              | error message => exact @Ty.yields_of_error _ (.error message) rfl .boolean
              | _ => cases broken
            · cases operand with
              | boolean holds => exact ⟨.boolean (!holds), rfl, Or.inr rfl⟩
              | _ => cases truth

theorem negatedItems_inhabit :
    negatedItems.Reachable ∧ negatedItems.registry.Sound ∧
      negatedItems.nodes.map (fun node => node.ty.toOption.map Ty.display) =
        [some "Array<Boolean>", some "((Boolean) -> 'a) -> Array<'a>", some "Array<Boolean>"] ∧
      ∀ index node ty, negatedItems.nodes[index]? = some node → node.ty = .ok ty →
        negatedItems.TypedCone index ∧
        (∀ serials : Nat → Nat, ∃ value, negatedItems.valueUnder serials index = .ok value ∧
          ∀ generics : Nat → Ty, (ty.instanceBy generics).Admits negatedItems.registry value) ∧
        ∃ value later, (Session.ofGraph negatedItems .default 0).evaluate index =
            .ok (.ok (value, later)) ∧
          ∀ generics : Nat → Ty, (ty.instanceBy generics).Admits negatedItems.registry value := by
  have reachable : negatedItems.Reachable := (Reachable.empty _ none 0).run _
  have sound : negatedItems.registry.Sound := by
    obtain ⟨place, persists⟩ :=
      (Reachable.empty (Registry.empty.register Session.negation) none 0).persists _
    have registry : negatedItems.registry = Registry.empty.register Session.negation :=
      persists.registry
    rw [registry]
    exact negation_sound
  have checked : (negatedItems.nodes.all fun node =>
      node.ty.toBool && node.params.all fun param => param.2.plain) = true := by
    decide +kernel
  have cones : ∀ index, negatedItems.TypedCone index := by
    intro index target _ node found
    have fine := List.all_eq_true.mp checked node (List.mem_of_getElem? found)
    rw [Bool.and_eq_true] at fine
    refine ⟨?_, List.all_eq_true.mp fine.2⟩
    cases stored : node.ty with
    | ok ty => exact ⟨ty, rfl⟩
    | error failure =>
        rw [stored] at fine
        cases fine.1
  have opened := Session.ofGraph_reachable reachable .default 0
  refine ⟨reachable, sound, by decide +kernel, fun index node ty found stored => ?_⟩
  have inhabits := Reachable.inhabits reachable sound found stored (cones index)
  exact ⟨cones index, inhabits.1, inhabits.2 _ opened (Session.ofGraph_graph _ _ _)⟩

end Graph

end NodeGraph
