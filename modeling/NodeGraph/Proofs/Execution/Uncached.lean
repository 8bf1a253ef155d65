import NodeGraph.Proofs.Execution.Planning
import NodeGraph.Proofs.Execution.Reference
import NodeGraph.Proofs.Expr.Renumbering

/-!
Evaluation without a cache. An engine that finds no value evaluates everything a node depends on, in
some order, and every evaluation takes the next serial number. Which node takes which number shows
only in the identities of functions: over primitives that make nothing of the numbers, any two such
evaluations of a node have the same value up to those.
-/

namespace NodeGraph

namespace Snapshot

variable {registry : Registry} {serials : Nat → Nat}

theorem bindParams_renumber (registers : registry.Carries serials) (serial position : Nat)
    (frame : Frame) {params : List (String × Expr)}
    (settled : ∀ param ∈ params, param.2.renumber serials = param.2) :
    bindParams registry (serials serial) position (frame.renumber serials) params =
      (bindParams registry serial position frame params).map (Frame.renumber serials) := by
  induction params generalizing position frame with
  | nil => rfl
  | cons param rest ih =>
      obtain ⟨name, expr⟩ := param
      have same := settled (name, expr) List.mem_cons_self
      have first := expr.eval_renumber registers frame (List.cons_ne_nil position [serial])
      rw [same] at first
      rw [bindParams, bindParams]
      refine bind_eq_map_bind first fun value => ?_
      exact ih (position + 1) (frame.bind name value) fun param member =>
        settled param (List.mem_cons_of_mem _ member)

theorem evaluate_renumber (registers : registry.Carries serials) (snapshot : Snapshot)
    (settled : ∀ param ∈ snapshot.params, param.2.renumber serials = param.2) (serial : Nat)
    (inputs : List (Option Value)) :
    snapshot.evaluate registry (serials serial) (inputs.map (Option.map (Value.renumber serials))) =
      (snapshot.evaluate registry serial inputs).map (Value.renumber serials) := by
  rw [evaluate, evaluate, Frame.ofInputs_renumber]
  refine bind_eq_map_bind (bindParams_renumber registers serial 0 _ fun param member =>
    settled param (List.mem_of_mem_filter member)) fun frame => ?_
  cases found : snapshot.params.lookup Expr.outputName with
  | none => exact congrArg Except.ok (Value.renumber_error serials _).symm
  | some output =>
      obtain ⟨before, after, parts, _⟩ := List.lookup_eq_some_iff.mp found
      have same := settled (Expr.outputName, output) (parts ▸ by simp)
      have value := output.eval_renumber registers frame (List.cons_ne_nil
        (snapshot.params.filter fun param => param.1 != Expr.outputName).length [serial])
      rw [same] at value
      exact value

end Snapshot

theorem readSlots_renumber {serials : Nat → Nat} {read other : Nat → Except Fault Value}
    {slots : List (Option Nat)}
    (same : ∀ target, some target ∈ slots →
      other target = (read target).map (Value.renumber serials)) :
    readSlots other slots =
      (readSlots read slots).map (List.map (Option.map (Value.renumber serials))) := by
  induction slots with
  | nil => rfl
  | cons slot rest ih =>
      have rests := ih fun target mentioned => same target (List.mem_cons_of_mem _ mentioned)
      cases slot with
      | none =>
          rw [readSlots, readSlots]
          exact bind_eq_map_bind rests fun _ => rfl
      | some target =>
          rw [readSlots, readSlots]
          refine bind_eq_map_bind (same target List.mem_cons_self) fun value => ?_
          exact bind_eq_map_bind rests fun _ => rfl

namespace Graph

variable {graph : Graph}

def Settled (first : Nat) (graph : Graph) : Prop :=
  ∀ node ∈ graph.nodes, ∀ param ∈ node.params, param.2.Settled first

/-- The first serial number behind those in the functions of the constants of a graph. -/
def horizon (graph : Graph) : Nat :=
  ((graph.nodes.flatMap Node.params).map fun param => param.2.horizon).foldr max 0

theorem settled_of_horizon {first : Nat} (settled : graph.horizon ≤ first) :
    graph.Settled first := by
  intro node member param inside
  refine Expr.settled_of_horizon (Nat.le_trans ?_ settled)
  exact List.le_max_of_le' 0 (List.mem_map_of_mem (List.mem_flatMap.mpr ⟨node, member, inside⟩))
    (Nat.le_refl _)

theorem WellFormed.valueUnder_renumber (wellFormed : graph.WellFormed) {serials : Nat → Nat}
    (registers : graph.registry.Carries serials)
    (settled : ∀ node ∈ graph.nodes, ∀ param ∈ node.params, param.2.renumber serials = param.2)
    {among : Nat → Prop}
    (closed : ∀ {reader target : Nat}, among reader → graph.Reads reader target → among target)
    {numbers others : Nat → Nat}
    (linked : ∀ position, among position → others position = serials (numbers position))
    (position : Nat) :
    among position →
      graph.valueUnder others position =
        (graph.valueUnder numbers position).map (Value.renumber serials) := by
  induction position using wellFormed.acyclic.induction graph.mirrored with
  | step position ih =>
      intro member
      cases found : graph.nodes[position]? with
      | none =>
          rw [valueUnder, valueUnder, valueWithin, valueWithin, found]
          exact congrArg Except.ok (Value.renumber_error serials _).symm
      | some node =>
          have inputs := readSlots_renumber fun target mentioned =>
            have reads := wellFormed.reads found mentioned
            ih target reads (closed member reads)
          rw [wellFormed.valueUnder_eq found, wellFormed.valueUnder_eq found,
            linked position member]
          exact bind_eq_map_bind inputs fun inputs =>
            Snapshot.evaluate_renumber registers (.ofNode position node)
              (settled node (List.mem_of_getElem? found)) _ inputs

theorem WellFormed.evaluates_valueUnder (wellFormed : graph.WellFormed) (serials : Nat → Nat)
    {index : Nat} {node : Node} (found : graph.nodes[index]? = some node) :
    graph.Evaluates (fun position value => graph.valueUnder serials position = .ok value)
      (fun position fault => graph.valueUnder serials position = .error fault)
      (.ofNode index node) (serials index) := by
  have same : ∀ {known : List (Nat × Value)}, (∀ target, some target ∈ node.slots →
      ∃ value, known.lookup target = some value ∧ graph.valueUnder serials target = .ok value) →
        graph.valueUnder serials index = (Snapshot.ofNode index node).evaluate graph.registry
          (serials index) ((Snapshot.ofNode index node).inputValues known) := by
    intro known given
    rw [wellFormed.valueUnder_eq found, readSlots_given given]
    rfl
  exact ⟨fun given outcome => (same given).trans outcome,
    fun given outcome => (same given).trans outcome⟩

theorem Steps.closed {keys : List Nat} {steps : List Snapshot} (runnable : graph.Steps keys steps) :
    ∀ step ∈ steps, ∀ target, some target ∈ step.slots →
      target ∈ keys ∨ target ∈ steps.map Snapshot.index := by
  induction runnable with
  | nil => simp
  | @cons keys index node rest found inputs steps ih =>
      intro step member target mentioned
      rcases List.mem_cons.mp member with rfl | later
      · exact Or.inl (inputs target mentioned)
      · rcases ih step later target mentioned with known | listed
        · rcases List.mem_cons.mp known with rfl | old
          · exact Or.inr List.mem_cons_self
          · exact Or.inl old
        · exact Or.inr (List.mem_cons_of_mem _ listed)

theorem Plans.mem_steps {plan : Plan} (plans : graph.Plans (fun _ _ => False) plan) (node : Nat) :
    node ∈ plan.steps.map Snapshot.index ↔
      plan.target = node ∨ graph.Reaches plan.target node := by
  have nothing : plan.published = [] :=
    List.eq_nil_iff_forall_not_mem.mpr fun entry member => plans.published entry member
  have steps := plans.steps
  have target := plans.target
  rw [nothing] at steps target
  have start : plan.target ∈ plan.steps.map Snapshot.index := by
    rcases target with known | ⟨step, member, same⟩
    · cases known
    · exact List.mem_map.mpr ⟨step, member, same⟩
  have further : ∀ {reader target : Nat}, reader ∈ plan.steps.map Snapshot.index →
      graph.Reads reader target → target ∈ plan.steps.map Snapshot.index := by
    intro reader target member reads
    obtain ⟨step, inside, rfl⟩ := List.mem_map.mp member
    obtain ⟨_, node, found, mentioned⟩ := (reads_iff _ _ _).mp reads
    obtain ⟨_, there, shape⟩ := steps.found step inside
    rw [found] at there
    cases there
    have slots : step.slots = node.slots := congrArg Snapshot.slots shape
    exact (steps.closed step inside target (slots ▸ mentioned)).resolve_left (List.not_mem_nil)
  constructor
  · intro member
    obtain ⟨step, inside, rfl⟩ := List.mem_map.mp member
    exact plans.behind step inside
  · rintro (rfl | path)
    · exact start
    · induction path with
      | single reads => exact further start reads
      | tail _ reads ih => exact further ih reads

end Graph

theorem exists_renumbers {first start : Nat} (later : first ≤ start) {order : List Nat}
    (once : order.Nodup) {place : Nat → Nat}
    (different : ∀ left ∈ order, ∀ right ∈ order, place left = place right → left = right) :
    ∃ serials, Renumbers first serials ∧
      ∀ node ∈ order, serials (start + order.idxOf node) = first + 2 * place node := by
  let serials : Nat → Nat := fun serial =>
    if serial < first then serial
    else ((if start ≤ serial then order[serial - start]? else none).map
      fun node => first + 2 * place node).getD (first + 2 * serial + 1)
  have known : ∀ serial, (serial < first ∧ serials serial = serial) ∨
      (start ≤ serial ∧ ∃ node, order[serial - start]? = some node ∧
        serials serial = first + 2 * place node) ∨
      serials serial = first + 2 * serial + 1 := by
    intro serial
    by_cases before : serial < first
    · exact Or.inl ⟨before, if_pos before⟩
    · by_cases given : start ≤ serial
      · cases listed : order[serial - start]? with
        | none => exact Or.inr (Or.inr (by simp [serials, before, given, listed]))
        | some node =>
            exact Or.inr (Or.inl ⟨given, node, rfl, by simp [serials, before, given, listed]⟩)
      · exact Or.inr (Or.inr (by simp [serials, before, given]))
  refine ⟨serials, ⟨?_, fun serial before => if_pos before⟩, ?_⟩
  · intro left right same
    rcases known left with ⟨_, leftSame⟩ | ⟨_, node, leftNode, leftSame⟩ | leftSame <;>
      rcases known right with ⟨_, rightSame⟩ | ⟨_, other, rightNode, rightSame⟩ | rightSame
    all_goals try omega
    have nodes : node = other :=
      different node (List.mem_of_getElem? leftNode) other (List.mem_of_getElem? rightNode)
        (by omega)
    have places : left - start = right - start :=
      (List.getElem?_inj (List.getElem?_eq_some_iff.mp leftNode).1 once).mp
        (leftNode.trans (nodes ▸ rightNode.symm))
    omega
  · intro node member
    have listed : order[order.idxOf node]? = some node := List.getElem?_idxOf member
    have after : ¬ start + order.idxOf node < first := by omega
    simp [serials, after, listed]

namespace Engine

variable {graph : Graph} {engine : Engine}

/-- An evaluation has a result, up to the identity of functions. -/
def Yields (outcome : Except Fault (Except GraphError (Value × Engine)))
    (result : Except Fault Value) : Prop :=
  (∃ value after expected, outcome = .ok (.ok (value, after)) ∧ result = .ok expected ∧
    value.Alike expected) ∨
  ∃ fault other, outcome = .error fault ∧ result = .error other

def Uncached (engine : Engine) : Prop :=
  engine.options.useCache = false ∨ engine.cache.entries = []

theorem Uncached.cached (uncached : engine.Uncached) (graph : Graph) (index : Nat) :
    (engine.cached graph index).1 = none ∧ (engine.cached graph index).2.Uncached ∧
      (engine.cached graph index).2.serial = engine.serial := by
  have lookups : ∀ key, (engine.lookup key).1 = none ∧ (engine.lookup key).2.Uncached ∧
      (engine.lookup key).2.serial = engine.serial := by
    intro key
    rw [lookup]
    rcases uncached with off | nothing
    · rw [off]
      exact ⟨rfl, Or.inl off, rfl⟩
    · have missing : engine.cache.find? key = none := by
        rw [Cache.find?, nothing]
        rfl
      split
      · rw [Cache.get, missing]
        exact ⟨rfl, Or.inr nothing, rfl⟩
      · exact ⟨rfl, Or.inr nothing, rfl⟩
  rw [Engine.cached]
  cases graph.nodes[index]? with
  | none => exact ⟨rfl, uncached, rfl⟩
  | some node => exact lookups _

theorem uncached_answers (graph : Graph) (serial : Nat) :
    Answers graph (fun _ _ => False) fun engine => engine.Uncached ∧ engine.serial = serial where
  value := by
    rintro engine node value ⟨uncached, _⟩ hit
    rw [(uncached.cached graph node).1] at hit
    cases hit
  kept := by
    rintro engine node ⟨uncached, rfl⟩
    exact (uncached.cached graph node).2

/-- An engine without cached values evaluates everything a node depends on, each under a serial
number by its place in some order. -/
theorem evaluate_uncached (wellFormed : graph.WellFormed) (uncached : engine.Uncached)
    {index : Nat} (bound : index < graph.count) :
    ∃ order : List Nat, order.Nodup ∧
      (∀ node, node ∈ order ↔ index = node ∨ graph.Reaches index node) ∧
      ((∃ value later, engine.evaluate graph index = .ok (.ok (value, later)) ∧
        graph.valueUnder (fun node => engine.serial + order.idxOf node) index = .ok value) ∨
      ∃ fault, engine.evaluate graph index = .error fault ∧ ∃ fault,
        graph.valueUnder (fun node => engine.serial + order.idxOf node) index = .error fault) := by
  obtain ⟨plan, planned, made, ⟨_, numbered⟩, target, plans⟩ :=
    plan_ok wellFormed (uncached_answers graph engine.serial) ⟨uncached, rfl⟩ bound
  have listed := plans.mem_steps
  rw [target] at listed
  refine ⟨plan.steps.map Snapshot.index, plans.once, listed, ?_⟩
  generalize serialsAre : (fun node => engine.serial +
    (plan.steps.map Snapshot.index).idxOf node) = serials
  have evaluates : ∀ offset step, plan.steps[offset]? = some step →
      graph.Evaluates (fun position value => graph.valueUnder serials position = .ok value)
        (fun position fault => graph.valueUnder serials position = .error fault)
        step (planned.serial + offset) := by
    intro offset step member
    obtain ⟨node, found, shape⟩ := plans.steps.found step (List.mem_of_getElem? member)
    have listed : (plan.steps.map Snapshot.index)[offset]? = some step.index := by
      rw [List.getElem?_map, member, Option.map_some]
    obtain ⟨inside, same⟩ := List.getElem?_eq_some_iff.mp listed
    have place : (plan.steps.map Snapshot.index).idxOf step.index = offset := by
      rw [← same]
      exact plans.once.idxOf_getElem offset inside
    have serial : serials step.index = planned.serial + offset := by
      rw [← serialsAre, numbered]
      simp only [place]
    rw [shape, ← serial]
    exact wellFormed.evaluates_valueUnder serials found
  rcases evaluate_ends made
      ((plans.mono fun _ _ none => none.elim).run planned.serial evaluates) with
    ⟨outcome, ⟨same, achieves⟩, evaluated⟩ | ⟨fault, ⟨step, member, faulty⟩, evaluated⟩
  · refine Or.inl ⟨_, _, evaluated, ?_⟩
    rw [← target, ← same]
    exact achieves.value
  · refine Or.inr ⟨fault, evaluated, wellFormed.valueUnder_fault ?_ faulty⟩
    exact target ▸ plans.behind step member

/-- Which serial numbers an evaluation without cached values starts from, and in which order it takes
them, shows in nothing but the identities of functions. -/
theorem evaluate_numbered (wellFormed : graph.WellFormed) {first : Nat}
    (uniform : graph.registry.Uniform first) (settled : graph.Settled first)
    (uncached : engine.Uncached) (later : first ≤ engine.serial) {index : Nat}
    (bound : index < graph.count) {place : Nat → Nat}
    (different : ∀ left right, index = left ∨ graph.Reaches index left →
      index = right ∨ graph.Reaches index right → place left = place right → left = right) :
    Yields (engine.evaluate graph index)
      (graph.valueUnder (fun node => first + 2 * place node) index) := by
  obtain ⟨order, once, listed, outcome⟩ := evaluate_uncached wellFormed uncached bound
  obtain ⟨serials, renumbers, linked⟩ := exists_renumbers later once
    fun left leftListed right rightListed =>
      different left right ((listed left).mp leftListed) ((listed right).mp rightListed)
  have closed : ∀ {reader target : Nat}, (index = reader ∨ graph.Reaches index reader) →
      graph.Reads reader target → index = target ∨ graph.Reaches index target := by
    rintro reader target (rfl | path) reads
    · exact Or.inr (.single reads)
    · exact Or.inr (.tail path reads)
  have same := wellFormed.valueUnder_renumber (uniform serials renumbers)
    (fun node member param inside => settled node member param inside serials renumbers) closed
    (fun position member => (linked position ((listed position).mpr member)).symm)
    index (Or.inl rfl)
  rcases outcome with ⟨value, after, evaluated, result⟩ | ⟨fault, evaluated, other, result⟩
  · rw [result] at same
    exact Or.inl ⟨value, after, _, evaluated, same, (value.anonymous_renumber serials).symm⟩
  · rw [result] at same
    exact Or.inr ⟨fault, other, evaluated, same⟩

end Engine

end NodeGraph
