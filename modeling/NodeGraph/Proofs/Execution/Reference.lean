import NodeGraph.Execution.Plan
import NodeGraph.Proofs.Expr.Identity
import NodeGraph.Proofs.Graph.Histories

/-!
Values without a cache. The value of a node is computed by recursion on the nodes it reads, with no
plan and no cache; under watch, with all that is looked up and applied on the way. It depends on the
node's cone alone, so where serial numbers belong to revisions it lasts as long as the revision.
-/

namespace NodeGraph

namespace Frame

theorem Alike.addInput {left right : Frame} (frames : left.Alike right) (slot : Nat)
    {input other : Option Value} (inputs : input.map Value.anonymous = other.map Value.anonymous) :
    (left.addInput slot input).Alike (right.addInput slot other) := by
  cases input with
  | none =>
      cases other with
      | none =>
          refine ⟨frames.bindings, ?_⟩
          simp only [Frame.addInput, List.map_append, frames.arguments]
      | some value => cases inputs
  | some value =>
      cases other with
      | none => cases inputs
      | some other =>
          have values : value.anonymous = other.anonymous := by simpa using inputs
          refine ⟨?_, ?_⟩
          · simp only [Frame.addInput, Bindings.anonymous, List.map_cons, values]
            exact congrArg _ frames.bindings
          · simp only [Frame.addInput, List.map_append, frames.arguments, List.map_cons, values]

theorem alike_ofInputs {inputs others : List (Option Value)}
    (alike : inputs.map (Option.map Value.anonymous) = others.map (Option.map Value.anonymous)) :
    (Frame.ofInputs inputs).Alike (.ofInputs others) := by
  have general : ∀ (inputs others : List (Option Value)) (start : Nat) (left right : Frame),
      inputs.map (Option.map Value.anonymous) = others.map (Option.map Value.anonymous) →
        left.Alike right →
          ((inputs.zipIdx start).foldl (fun frame input => frame.addInput input.2 input.1)
            left).Alike
          ((others.zipIdx start).foldl (fun frame input => frame.addInput input.2 input.1)
            right) := by
    intro inputs
    induction inputs with
    | nil =>
        intro others start left right alike frames
        cases others with
        | nil => exact frames
        | cons other rest => cases alike
    | cons input inputs ih =>
        intro others start left right alike frames
        cases others with
        | nil => cases alike
        | cons other rest =>
            simp only [List.map_cons, List.cons.injEq] at alike
            simp only [List.zipIdx_cons, List.foldl_cons]
            exact ih rest (start + 1) _ _ alike.2 (frames.addInput start alike.1)
  exact general inputs others 0 _ _ alike ⟨rfl, rfl⟩

end Frame

def vacantSlots (inputs : List (Option Value)) : List Nat :=
  inputs.zipIdx.filterMap fun (input, slot) => if input.isNone then some slot else none

theorem mem_vacantSlots {inputs : List (Option Value)} {slot : Nat} :
    slot ∈ vacantSlots inputs ↔ inputs[slot]? = some none := by
  simp only [vacantSlots, List.mem_filterMap, Prod.exists, List.mem_zipIdx_iff_getElem?]
  constructor
  · rintro ⟨input, other, found, kept⟩
    cases input with
    | none =>
        obtain rfl := Option.some.inj kept
        exact found
    | some value => cases kept
  · exact fun found => ⟨none, slot, found, rfl⟩

namespace Snapshot

def watchParams (registry : Registry) (vacant : List Nat) (serial : Nat) :
    Nat → Frame → List (String × Expr) → Watched Frame
  | _, frame, [] => return frame
  | position, frame, (name, expr) :: rest => do
      let value ← expr.watch registry vacant frame [position, serial]
      watchParams registry vacant serial (position + 1) (frame.bind name value) rest

def watch (snapshot : Snapshot) (registry : Registry) (serial : Nat)
    (inputs : List (Option Value)) : Watched Value := do
  let named := snapshot.params.filter fun param => param.1 != Expr.outputName
  let frame ← watchParams registry (vacantSlots inputs) serial 0 (.ofInputs inputs) named
  match snapshot.params.lookup Expr.outputName with
  | some output => output.watch registry (vacantSlots inputs) frame [named.length, serial]
  | none => return .error ("node " ++ natText snapshot.index ++ " has no output")

theorem watchParams_outcome (registry : Registry) (vacant : List Nat) (serial position : Nat)
    (frame : Frame) (params : List (String × Expr)) :
    (watchParams registry vacant serial position frame params).outcome =
      bindParams registry serial position frame params := by
  induction params generalizing position frame with
  | nil => rfl
  | cons param rest ih =>
      rw [watchParams, bindParams, Watched.outcome_bind, Expr.watch_outcome]
      congr 1
      funext value
      exact ih _ _

theorem watch_outcome (snapshot : Snapshot) (registry : Registry) (serial : Nat)
    (inputs : List (Option Value)) :
    (snapshot.watch registry serial inputs).outcome = snapshot.evaluate registry serial inputs := by
  rw [watch, evaluate, Watched.outcome_bind, watchParams_outcome]
  congr 1
  funext frame
  cases snapshot.params.lookup Expr.outputName with
  | none => rfl
  | some output => exact Expr.watch_outcome _ _ _ output

section Views

variable {view : View} {registry : Registry} {related : Frame → Frame → Prop} {params : Params}

theorem watchParams_view (lawful : view.Lawful)
    (agrees : ∀ left right, related left right → ∀ param ∈ params,
      view.Agrees left right param.2 param.2)
    (binds : ∀ left right, related left right → ∀ name value other,
      view.value value = view.value other → related (left.bind name value) (right.bind name other))
    {next : Frame → Watched Value} {other : Frame → Except Fault Value}
    (continues : ∀ left right, related left right → view.RespectsAlong registry (next left) →
      (next left).outcome.map view.value = (other right).map view.value)
    (vacant : List Nat) (serial place position start : Nat) {left right : Frame}
    (frames : related left right)
    (along : view.RespectsAlong registry
      (watchParams registry vacant serial position left params >>= next)) :
    (watchParams registry vacant serial position left params >>= next).outcome.map view.value =
      (bindParams registry place start right params >>= other).map view.value := by
  induction params generalizing position start left right with
  | nil => exact continues left right frames along
  | cons param rest ih =>
      obtain ⟨name, expr⟩ := param
      rw [watchParams, bind_assoc] at along ⊢
      rw [bindParams, bind_assoc]
      have first : (expr.watch registry vacant left [position, serial]).outcome.map view.value =
          (expr.eval registry right [start, place]).map view.value := by
        rw [Expr.watch_outcome]
        exact (agrees left right frames (name, expr) List.mem_cons_self).watch lawful vacant _ _
          along.first
      refine along.bind_congr (fun _ => first) fun leftValue rightValue values along => ?_
      exact ih (fun left right frames param member =>
        agrees left right frames param (List.mem_cons_of_mem _ member)) _ _
          (binds left right frames name _ _ values) along

theorem evaluate_view (lawful : view.Lawful) {snapshot : Snapshot}
    (agrees : ∀ left right, related left right → ∀ param ∈ snapshot.params,
      view.Agrees left right param.2 param.2)
    (binds : ∀ left right, related left right → ∀ name value other,
      view.value value = view.value other → related (left.bind name value) (right.bind name other))
    (serial place : Nat) {inputs others : List (Option Value)}
    (frames : related (.ofInputs inputs) (.ofInputs others))
    (along : view.RespectsAlong registry (snapshot.watch registry serial inputs)) :
    (snapshot.evaluate registry serial inputs).map view.value =
      (snapshot.evaluate registry place others).map view.value := by
  rw [← watch_outcome, watch, evaluate]
  refine watchParams_view lawful (fun left right frames param member =>
    agrees left right frames param (List.mem_of_mem_filter member)) binds ?_ _ serial place 0 0 frames
      along
  intro left right frames along
  cases found : snapshot.params.lookup Expr.outputName with
  | none => rfl
  | some output =>
      obtain ⟨before, after, parts, _⟩ := List.lookup_eq_some_iff.mp found
      have member : (Expr.outputName, output) ∈ snapshot.params := parts ▸ by simp
      rw [found] at along
      rw [Expr.watch_outcome]
      exact (agrees left right frames _ member).watch lawful _ _ _ along

end Views

theorem watch_congr {registry : Registry} {snapshot other : Snapshot}
    (params : snapshot.params = other.params)
    (output : (snapshot.params.lookup Expr.outputName).isSome) (serial : Nat)
    (inputs : List (Option Value)) :
    snapshot.watch registry serial inputs = other.watch registry serial inputs := by
  obtain ⟨expr, found⟩ := Option.isSome_iff_exists.mp output
  rw [watch, watch, ← params, found]

/-- Inputs that differ only in the identity of functions make values that do, if nothing that is
applied on the way tells them apart. -/
theorem evaluate_alike {registry : Registry} {snapshot : Snapshot} (serial place : Nat)
    {inputs others : List (Option Value)}
    (alike : inputs.map (Option.map Value.anonymous) = others.map (Option.map Value.anonymous))
    (along : View.anonymous.RespectsAlong registry (snapshot.watch registry serial inputs)) :
    (snapshot.evaluate registry serial inputs).map Value.anonymous =
      (snapshot.evaluate registry place others).map Value.anonymous :=
  evaluate_view View.anonymous_lawful
    (fun _ _ frames param _ => Frame.Alike.agrees frames param.2 param.2 rfl)
    (fun _ _ frames name _ _ values => Frame.Alike.bind frames name values)
    serial place (Frame.alike_ofInputs alike) along

end Snapshot

def readSlots (read : Nat → Except Fault Value) :
    List (Option Nat) → Except Fault (List (Option Value))
  | [] => .ok []
  | none :: rest => do return none :: (← readSlots read rest)
  | some target :: rest => do
      let value ← read target
      return some value :: (← readSlots read rest)

theorem readSlots_given {read : Nat → Except Fault Value} {given : Nat → Option Value}
    {slots : List (Option Nat)}
    (same : ∀ target, some target ∈ slots →
      ∃ value, given target = some value ∧ read target = .ok value) :
    readSlots read slots = .ok (slots.map fun slot => slot.bind given) := by
  induction slots with
  | nil => rfl
  | cons slot rest ih =>
      have rests := ih fun target mentioned => same target (List.mem_cons_of_mem _ mentioned)
      cases slot with
      | none =>
          rw [readSlots, rests]
          rfl
      | some target =>
          obtain ⟨value, found, result⟩ := same target List.mem_cons_self
          rw [readSlots, rests, result, List.map_cons, Option.bind_some, found]
          rfl

theorem readSlots_fault {read : Nat → Except Fault Value} {slots : List (Option Nat)}
    {target : Nat} (member : some target ∈ slots) {fault : Fault}
    (broken : read target = .error fault) : ∃ fault, readSlots read slots = .error fault := by
  induction slots with
  | nil => cases member
  | cons slot rest ih =>
      rcases List.mem_cons.mp member with same | later
      · subst same
        rw [readSlots, broken]
        exact ⟨fault, rfl⟩
      · obtain ⟨fault, rests⟩ := ih later
        cases slot with
        | none =>
            rw [readSlots, rests]
            exact ⟨fault, rfl⟩
        | some other =>
            rw [readSlots, rests]
            cases read other with
            | error first => exact ⟨first, rfl⟩
            | ok value => exact ⟨fault, rfl⟩

def watchSlots (read : Nat → Watched Value) : List (Option Nat) → Watched (List (Option Value))
  | [] => return []
  | none :: rest => do return none :: (← watchSlots read rest)
  | some target :: rest => do
      let value ← read target
      return some value :: (← watchSlots read rest)

theorem watchSlots_outcome (read : Nat → Watched Value) (slots : List (Option Nat)) :
    (watchSlots read slots).outcome = readSlots (fun target => (read target).outcome) slots := by
  induction slots with
  | nil => rfl
  | cons slot rest ih =>
      cases slot with
      | none =>
          rw [watchSlots, readSlots, Watched.outcome_bind, ih]
          rfl
      | some target =>
          rw [watchSlots, readSlots, Watched.outcome_bind]
          congr 1
          funext value
          rw [Watched.outcome_bind, ih]
          rfl

theorem watchSlots_congr {read other : Nat → Watched Value} {slots : List (Option Nat)}
    (agree : ∀ target, some target ∈ slots → read target = other target) :
    watchSlots read slots = watchSlots other slots := by
  induction slots with
  | nil => rfl
  | cons slot rest ih =>
      have rests := ih fun target member => agree target (List.mem_cons_of_mem _ member)
      cases slot with
      | none => rw [watchSlots, watchSlots, rests]
      | some target => rw [watchSlots, watchSlots, rests, agree target List.mem_cons_self]

theorem watchSlots_map (read : Nat → Watched Value) (place : Nat → Nat)
    (slots : List (Option Nat)) :
    watchSlots read (slots.map (Option.map place)) =
      watchSlots (fun target => read (place target)) slots := by
  induction slots with
  | nil => rfl
  | cons slot rest ih =>
      cases slot with
      | none => rw [List.map_cons, Option.map_none, watchSlots, watchSlots, ih]
      | some target => rw [List.map_cons, Option.map_some, watchSlots, watchSlots, ih]

theorem watchSlots_known {registry : Registry} {read : Nat → Watched Value}
    {known : List (Nat × Value)} {slots : List (Option Nat)}
    (alike : ∀ target, some target ∈ slots → ∃ value, known.lookup target = some value ∧
      (View.anonymous.RespectsAlong registry (read target) →
        ∃ expected, (read target).outcome = .ok expected ∧ value.Alike expected))
    (along : View.anonymous.RespectsAlong registry (watchSlots read slots)) :
    ∃ inputs, (watchSlots read slots).outcome = .ok inputs ∧
      inputs.map (Option.map Value.anonymous) =
        (slots.map fun slot => slot.bind fun target => known.lookup target).map
          (Option.map Value.anonymous) := by
  induction slots with
  | nil => exact ⟨[], rfl, rfl⟩
  | cons slot rest ih =>
      have others := ih fun target member => alike target (List.mem_cons_of_mem _ member)
      cases slot with
      | none =>
          rw [watchSlots] at along ⊢
          obtain ⟨inputs, rests, same⟩ := others along.first
          refine ⟨none :: inputs, ?_, ?_⟩
          · rw [Watched.outcome_bind, rests]
            rfl
          · simpa using same
      | some target =>
          rw [watchSlots] at along ⊢
          obtain ⟨value, found, right⟩ := alike target List.mem_cons_self
          obtain ⟨expected, reading, values⟩ := right along.first
          obtain ⟨inputs, rests, same⟩ := others (along.rest reading).first
          refine ⟨some expected :: inputs, ?_, ?_⟩
          · rw [Watched.outcome_bind, reading]
            exact (Watched.outcome_bind _ _).trans (by rw [rests]; rfl)
          · rw [Value.Alike] at values
            simpa [found, values] using same

theorem watchSlots_below {registry : Registry} {read : Nat → Watched Value}
    {slots : List (Option Nat)} {inputs : List (Option Value)}
    (along : View.anonymous.RespectsAlong registry (watchSlots read slots))
    (result : (watchSlots read slots).outcome = .ok inputs) {target : Nat}
    (mentioned : some target ∈ slots) :
    View.anonymous.RespectsAlong registry (read target) ∧
      ∃ value, (read target).outcome = .ok value := by
  induction slots generalizing inputs with
  | nil => cases mentioned
  | cons slot rest ih =>
      cases slot with
      | none =>
          rw [watchSlots] at along result
          obtain ⟨others, rests, _⟩ := Graph.bind_ok_iff.mp ((Watched.outcome_bind _ _).symm.trans result)
          exact ih along.first rests (by simpa using mentioned)
      | some other =>
          rw [watchSlots] at along result
          obtain ⟨value, reading, rests⟩ :=
            Graph.bind_ok_iff.mp ((Watched.outcome_bind _ _).symm.trans result)
          rcases List.mem_cons.mp mentioned with same | later
          · cases same
            exact ⟨along.first, value, reading⟩
          · obtain ⟨others, rests, _⟩ :=
              Graph.bind_ok_iff.mp ((Watched.outcome_bind _ _).symm.trans rests)
            exact ih (along.rest reading).first rests later

namespace Graph

def unevaluated (index : Nat) : Value := .error ("node " ++ natText index ++ " was not evaluated")

/-- The value of a node with so many nodes below it at most, every node evaluated under a serial
number of its own. -/
def valueWithin (graph : Graph) (serials : Nat → Nat) : Nat → Nat → Except Fault Value
  | 0, index => .ok (unevaluated index)
  | fuel + 1, index =>
      match graph.nodes[index]? with
      | none => .ok (unevaluated index)
      | some node => do
          let inputs ← readSlots (graph.valueWithin serials fuel) node.slots
          (Snapshot.ofNode index node).evaluate graph.registry (serials index) inputs

/-- The value of a node, computed from its upstream cone without a cache. -/
def valueUnder (graph : Graph) (serials : Nat → Nat) (index : Nat) : Except Fault Value :=
  graph.valueWithin serials (graph.count + 1) index

def watchWithin (graph : Graph) (serials : Nat → Nat) : Nat → Nat → Watched Value
  | 0, index => return unevaluated index
  | fuel + 1, index =>
      match graph.nodes[index]? with
      | none => return unevaluated index
      | some node => do
          let inputs ← watchSlots (graph.watchWithin serials fuel) node.slots
          (Snapshot.ofNode index node).watch graph.registry (serials index) inputs

def watchUnder (graph : Graph) (serials : Nat → Nat) (index : Nat) : Watched Value :=
  graph.watchWithin serials (graph.count + 1) index

variable {graph : Graph} {serials : Nat → Nat}

theorem watchWithin_outcome (graph : Graph) (serials : Nat → Nat) (fuel index : Nat) :
    (graph.watchWithin serials fuel index).outcome = graph.valueWithin serials fuel index := by
  induction fuel generalizing index with
  | zero => rfl
  | succ fuel ih =>
      rw [watchWithin, valueWithin]
      cases graph.nodes[index]? with
      | none => rfl
      | some node =>
          simp only [Watched.outcome_bind, watchSlots_outcome, ih, Snapshot.watch_outcome]

theorem watchUnder_outcome (graph : Graph) (serials : Nat → Nat) (index : Nat) :
    (graph.watchUnder serials index).outcome = graph.valueUnder serials index :=
  graph.watchWithin_outcome serials _ index

/-- Fuel beyond the rank of a node changes nothing, where more of it matters to a node only through
the nodes that it reads. -/
theorem WellFormed.within_eq (wellFormed : graph.WellFormed) {rank : Nat → Nat}
    (drops : ∀ reader target, graph.Reads reader target → rank target < rank reader)
    {result : Type} {within : Nat → Nat → result}
    (step : ∀ index fuel more, (∀ node, graph.nodes[index]? = some node →
        ∀ target, some target ∈ node.slots → within fuel target = within more target) →
      within (fuel + 1) index = within (more + 1) index)
    (index : Nat) : ∀ fuel more, rank index < fuel → rank index < more →
      within fuel index = within more index := by
  induction index using wellFormed.acyclic.induction graph.mirrored with
  | step index ih =>
      intro fuel more enough alsoEnough
      obtain ⟨fuel, rfl⟩ := Nat.exists_eq_succ_of_ne_zero (Nat.ne_of_gt (Nat.zero_lt_of_lt enough))
      obtain ⟨more, rfl⟩ := Nat.exists_eq_succ_of_ne_zero
        (Nat.ne_of_gt (Nat.zero_lt_of_lt alsoEnough))
      refine step index fuel more fun node found target mentioned => ?_
      have reads := wellFormed.reads found mentioned
      have less := drops index target reads
      exact ih target reads fuel more (by omega) (by omega)

theorem WellFormed.within_count (wellFormed : graph.WellFormed) {result : Type}
    {within : Nat → Nat → result}
    (step : ∀ index fuel more, (∀ node, graph.nodes[index]? = some node →
        ∀ target, some target ∈ node.slots → within fuel target = within more target) →
      within (fuel + 1) index = within (more + 1) index)
    {index target : Nat} {node : Node} (found : graph.nodes[index]? = some node)
    (mentioned : some target ∈ node.slots) :
    within graph.count target = within (graph.count + 1) target := by
  obtain ⟨rank, small, drops⟩ := wellFormed.acyclic.exists_rank graph.mirrored
  have less := drops index target (wellFormed.reads found mentioned)
  have bound := small index
  rw [topology_count] at bound
  exact wellFormed.within_eq drops step target _ _ (by omega) (by omega)

theorem watchWithin_step (graph : Graph) (serials : Nat → Nat) (index fuel more : Nat)
    (below : ∀ node, graph.nodes[index]? = some node → ∀ target, some target ∈ node.slots →
      graph.watchWithin serials fuel target = graph.watchWithin serials more target) :
    graph.watchWithin serials (fuel + 1) index = graph.watchWithin serials (more + 1) index := by
  rw [watchWithin, watchWithin]
  cases found : graph.nodes[index]? with
  | none => rfl
  | some node => simp only [watchSlots_congr (below node found)]

theorem WellFormed.watchUnder_eq (wellFormed : graph.WellFormed) {index : Nat} {node : Node}
    (found : graph.nodes[index]? = some node) :
    graph.watchUnder serials index = (do
      let inputs ← watchSlots (graph.watchUnder serials) node.slots
      (Snapshot.ofNode index node).watch graph.registry (serials index) inputs) := by
  have inputs : watchSlots (graph.watchWithin serials graph.count) node.slots =
      watchSlots (graph.watchUnder serials) node.slots :=
    watchSlots_congr fun _ mentioned =>
      wellFormed.within_count (graph.watchWithin_step serials) found mentioned
  rw [watchUnder, watchWithin, found]
  simp only [inputs]

theorem WellFormed.valueUnder_eq (wellFormed : graph.WellFormed) {index : Nat} {node : Node}
    (found : graph.nodes[index]? = some node) :
    graph.valueUnder serials index = (do
      let inputs ← readSlots (graph.valueUnder serials) node.slots
      (Snapshot.ofNode index node).evaluate graph.registry (serials index) inputs) := by
  rw [← watchUnder_outcome, wellFormed.watchUnder_eq found, Watched.outcome_bind,
    watchSlots_outcome]
  simp only [watchUnder_outcome, Snapshot.watch_outcome]

theorem WellFormed.valueUnder_fault (wellFormed : graph.WellFormed) {reader target : Nat}
    (path : reader = target ∨ graph.Reaches reader target) {fault : Fault}
    (broken : graph.valueUnder serials target = .error fault) :
    ∃ fault, graph.valueUnder serials reader = .error fault := by
  have step : ∀ {reader target : Nat}, graph.Reads reader target →
      (∃ fault, graph.valueUnder serials target = .error fault) →
        ∃ fault, graph.valueUnder serials reader = .error fault := by
    rintro reader target reads ⟨fault, broken⟩
    obtain ⟨_, node, found, mentioned⟩ := (reads_iff _ _ _).mp reads
    obtain ⟨other, inputs⟩ := readSlots_fault mentioned broken
    rw [wellFormed.valueUnder_eq found, inputs]
    exact ⟨other, rfl⟩
  rcases path with same | path
  · exact ⟨fault, same ▸ broken⟩
  · induction path using Relation.TransGen.head_induction_on with
    | single reads => exact step reads ⟨fault, broken⟩
    | head reads _ ih => exact step reads ih

theorem WellFormed.output (wellFormed : graph.WellFormed) {index : Nat} {node : Node}
    (found : graph.nodes[index]? = some node) :
    (node.params.lookup Expr.outputName).isSome := by
  have named := (checkParams_ok_iff _).mp (wellFormed.fits found).named
  obtain ⟨param, inside, same⟩ := List.mem_map.mp named.1
  exact List.lookup_isSome_iff.mpr ⟨param, inside, by simp [same]⟩

theorem Follows.watchUnder {later : Graph} {place : Nat → Nat} {among : Nat → Prop}
    (follows : graph.Follows place among later) (wellFormed : graph.WellFormed)
    (laterWellFormed : later.WellFormed) {serials others : Nat → Nat}
    (same : ∀ position, among position → others position = serials (place position))
    (position : Nat) :
    ∀ {node : Node}, among position → later.nodes[position]? = some node →
      later.watchUnder others position = graph.watchUnder serials (place position) := by
  induction position using laterWellFormed.acyclic.induction later.mirrored with
  | step position ih =>
      intro node member found
      obtain ⟨before, present, params, slots⟩ := follows.nodes member found
      have inputs : watchSlots (later.watchUnder others) node.slots =
          watchSlots (graph.watchUnder serials) before.slots := by
        rw [slots, watchSlots_map]
        refine watchSlots_congr fun target mentioned => ?_
        have reads := laterWellFormed.reads found mentioned
        have bound := (laterWellFormed.fits found).bound target mentioned
        have targetFound : later.nodes[target]? = some later.nodes[target] :=
          List.getElem?_eq_getElem bound
        exact ih target reads (follows.closed member reads) targetFound
      rw [laterWellFormed.watchUnder_eq found, wellFormed.watchUnder_eq present, inputs,
        follows.registry, same position member]
      congr 1
      funext values
      exact Snapshot.watch_congr params.symm (laterWellFormed.output found) _ values

theorem Follows.valueUnder {later : Graph} {place : Nat → Nat} {among : Nat → Prop}
    (follows : graph.Follows place among later) (wellFormed : graph.WellFormed)
    (laterWellFormed : later.WellFormed) {serials others : Nat → Nat}
    (same : ∀ position, among position → others position = serials (place position))
    {position : Nat} {node : Node} (member : among position)
    (found : later.nodes[position]? = some node) :
    later.valueUnder others position = graph.valueUnder serials (place position) := by
  rw [← watchUnder_outcome, ← watchUnder_outcome,
    follows.watchUnder wellFormed laterWellFormed same position member found]

/-- The serial number that the revision of a node has been given. -/
def stamps (graph : Graph) (serials : Nat → Nat) (index : Nat) : Nat :=
  match graph.nodes[index]? with
  | some node => serials node.revision
  | none => 0

theorem stamps_eq {index : Nat} {node : Node} (found : graph.nodes[index]? = some node) :
    graph.stamps serials index = serials node.revision := by
  rw [stamps, found]

/-- The value of a node without a cache, when every node is evaluated under the serial number of its
revision. -/
def reference (graph : Graph) (serials : Nat → Nat) (index : Nat) : Except Fault Value :=
  graph.valueUnder (graph.stamps serials) index

def watch (graph : Graph) (serials : Nat → Nat) (index : Nat) : Watched Value :=
  graph.watchUnder (graph.stamps serials) index

theorem watch_outcome (graph : Graph) (serials : Nat → Nat) (index : Nat) :
    (graph.watch serials index).outcome = graph.reference serials index :=
  graph.watchUnder_outcome _ index

/-- In the evaluation of the node, what is applied makes the same of functions that differ only in
their identity. -/
def IgnoresIdentity (graph : Graph) (serials : Nat → Nat) (index : Nat) : Prop :=
  View.anonymous.RespectsAlong graph.registry (graph.watch serials index)

theorem ignoresIdentity (blind : graph.registry.IgnoresIdentity) (serials : Nat → Nat)
    (index : Nat) : graph.IgnoresIdentity serials index :=
  @View.Respects.along .anonymous _ blind _ _

theorem WellFormed.watch_eq (wellFormed : graph.WellFormed) {index : Nat} {node : Node}
    (found : graph.nodes[index]? = some node) :
    graph.watch serials index = (do
      let inputs ← watchSlots (graph.watch serials) node.slots
      (Snapshot.ofNode index node).watch graph.registry (serials node.revision) inputs) := by
  rw [watch, wellFormed.watchUnder_eq found, stamps_eq found]
  rfl

theorem WellFormed.ignoresIdentity_below (wellFormed : graph.WellFormed) {reader target : Nat}
    (path : reader = target ∨ graph.Reaches reader target)
    (ignores : graph.IgnoresIdentity serials reader) {value : Value}
    (valued : graph.reference serials reader = .ok value) :
    graph.IgnoresIdentity serials target := by
  have step : ∀ {reader target : Nat}, graph.Reads reader target →
      graph.IgnoresIdentity serials reader → (∃ value, graph.reference serials reader = .ok value) →
        graph.IgnoresIdentity serials target ∧
          ∃ value, graph.reference serials target = .ok value := by
    rintro reader target reads ignores ⟨value, valued⟩
    obtain ⟨_, node, found, mentioned⟩ := (reads_iff _ _ _).mp reads
    rw [IgnoresIdentity, wellFormed.watch_eq found] at ignores
    rw [← watch_outcome, wellFormed.watch_eq found, Watched.outcome_bind] at valued
    obtain ⟨inputs, result, _⟩ := bind_ok_iff.mp valued
    rw [← watch_outcome]
    exact watchSlots_below ignores.first result mentioned
  rcases path with rfl | path
  · exact ignores
  · suffices ∀ {reader : Nat}, graph.Reaches reader target → graph.IgnoresIdentity serials reader →
        (∃ value, graph.reference serials reader = .ok value) →
          graph.IgnoresIdentity serials target from this path ignores ⟨value, valued⟩
    intro reader path
    induction path using Relation.TransGen.head_induction_on with
    | single reads => exact fun ignores valued => (step reads ignores valued).1
    | head reads _ ih =>
        intro ignores valued
        obtain ⟨ignores, valued⟩ := step reads ignores valued
        exact ih ignores valued

theorem Persists.watch {later : Graph} {place : Nat → Nat} (persists : graph.Persists place later)
    (wellFormed : graph.WellFormed) (laterWellFormed : later.WellFormed) {position : Nat}
    {node : Node} (found : later.nodes[position]? = some node)
    (old : node.revision ≤ graph.lastRevision) :
    later.watch serials position = graph.watch serials (place position) := by
  refine persists.follows.watchUnder wellFormed laterWellFormed ?_ position ⟨node, found, old⟩ found
  rintro position ⟨node, found, small⟩
  obtain ⟨before, present, _, revision, _⟩ := persists.old found small
  rw [stamps_eq found, stamps_eq present, revision]

end Graph

end NodeGraph
