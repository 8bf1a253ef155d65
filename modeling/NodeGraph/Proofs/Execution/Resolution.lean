import NodeGraph.Proofs.Execution.Reference
import NodeGraph.Proofs.Graph.Loosening
import NodeGraph.Proofs.Primitive.Passing
import NodeGraph.Proofs.Typing.Scopes
import NodeGraph.Proofs.Validation.Acceptance
import NodeGraph.Validation.Pipeline

/-!
Name resolution. In a graph that validation accepts, and of whose inputs it does not warn, nodes
find all that they look up, in their own expressions and in the functions that reach them from other
nodes; only inputs that are misspelt are missed. Those are missed where validation succeeds all the
same.
-/

namespace NodeGraph

def Fed {source : Type} (slots : List (Option source)) (slot : Nat) : Prop :=
  ∃ fed, slots[slot]? = some (some fed)

variable {astray : String → Prop} {registry : Registry} {inputs : List (Option Value)}

namespace Frame

theorem mem_ofInputs {slot : Nat} {value : Value} (fed : inputs[slot]? = some (some value)) :
    (Expr.inputName slot, value) ∈ (ofInputs inputs).bindings := by
  induction inputs using List.reverseRecOn with
  | nil => cases fed
  | append_singleton inputs input ih =>
      rw [ofInputs_concat]
      by_cases inside : slot < inputs.length
      · rw [List.getElem?_append_left inside] at fed
        cases input with
        | none => exact ih fed
        | some last => exact List.mem_cons_of_mem _ (ih fed)
      · rw [List.getElem?_append_right (Nat.not_lt.mp inside)] at fed
        obtain ⟨here, rfl⟩ : slot - inputs.length = 0 ∧ input = some value := by
          simpa [List.getElem?_singleton] using fed
        rw [show slot = inputs.length by omega]
        exact List.mem_cons_self

theorem of_mem_ofInputs {entry : String × Value} (member : entry ∈ (ofInputs inputs).bindings) :
    some entry.2 ∈ inputs := by
  induction inputs using List.reverseRecOn with
  | nil => cases member
  | append_singleton inputs input ih =>
      rw [ofInputs_concat] at member
      cases input with
      | none => exact List.mem_append_left _ (ih member)
      | some last =>
          rcases List.mem_cons.mp member with rfl | earlier
          · exact List.mem_append_right _ (List.mem_singleton_self _)
          · exact List.mem_append_left _ (ih earlier)

theorem shows_ofInputs (closed : ∀ value, some value ∈ inputs → value.Closed astray) :
    (ofInputs inputs).Shows astray ((ofInputs inputs).bindings.map Prod.fst) (Fed inputs)
      (vacantSlots inputs) where
  names := fun _ member => member
  arguments := by
    rintro slot ⟨value, fed⟩
    rw [ofInputs_arguments, List.length_mapIdx, mem_vacantSlots, fed]
    exact ⟨(List.getElem?_eq_some_iff.mp fed).1, fun vacant => nomatch vacant⟩
  bound := fun entry member => closed entry.2 (of_mem_ofInputs member)
  passed := by
    intro value member
    rw [ofInputs_arguments] at member
    obtain ⟨slot, inside, rfl⟩ := List.mem_mapIdx.mp member
    cases fed : inputs[slot] with
    | none => exact Value.closed_error _
    | some value => exact closed value (fed ▸ List.getElem_mem inside)

theorem Shows.bind {names : List String} {readable : Nat → Prop} {vacant : List Nat} {frame : Frame}
    (shows : frame.Shows astray names readable vacant) (name : String) {value : Value}
    (closed : value.Closed astray) :
    (frame.bind name value).Shows astray (name :: names) readable vacant where
  names := by
    intro other member
    rcases List.mem_cons.mp member with rfl | earlier
    · exact List.mem_cons_self
    · exact List.mem_cons_of_mem _ (shows.names other earlier)
  arguments := shows.arguments
  bound := List.forall_mem_cons.mpr ⟨closed, shows.bound⟩
  passed := shows.passed

end Frame

theorem Surrounds.bind {context : TypeContext} {connected : Nat → Prop} {outer : List String}
    (surrounds : Surrounds context connected outer) (name : String) (ty : Ty) :
    Surrounds (context.bind name ty) connected (name :: outer) where
  params := by
    intro other given found
    rw [TypeContext.bind, List.lookup_cons] at found
    split at found
    · rename_i same
      exact beq_iff_eq.mp same ▸ List.mem_cons_self
    · exact List.mem_cons_of_mem _ (surrounds.params other given found)
  inputs := fun slot fed => List.mem_cons_of_mem _ (surrounds.inputs slot fed)

namespace Snapshot

variable {known : Nat} {slots : Nat → Ty} {context after : TypeContext} {frame : Frame}

/-- Where a frame stands for a context, outside of all lambdas. -/
structure Stands (astray : String → Prop) (inputs : List (Option Value)) (context : TypeContext)
    (frame : Frame) : Prop where
  outside : context.scopes = []
  surrounds : Surrounds context (Fed inputs) (frame.bindings.map Prod.fst)
  shows : frame.Shows astray (frame.bindings.map Prod.fst) (Fed inputs) (vacantSlots inputs)

theorem Stands.watch_finds (stands : Stands astray inputs context frame)
    (keeps : registry.KeepsClosed astray) {expr : Expr} {ty : Ty}
    (typed : HasType known slots context expr ty) (plain : expr.plain = true)
    (supplied : Supplied astray (Fed inputs) expr.freeNames) (origin : Origin) :
    (expr.watch registry (vacantSlots inputs) frame origin).Finds astray (Value.Closed astray) := by
  have names : expr.freeNamesUnder (context.scopes.map LambdaScope.bound) = expr.freeNames := by
    rw [stands.outside]
    rfl
  rw [← names] at supplied
  have within := typed.inScope stands.surrounds plain supplied
  rw [stands.outside, List.map_nil, List.flatten_nil, List.nil_append] at within
  have readable : context.readable (Fed inputs) = Fed inputs := by
    funext slot
    rw [TypeContext.readable, stands.outside]
  rw [readable] at within
  exact Expr.watch_finds keeps stands.shows origin expr within

theorem watchParams_finds (keeps : registry.KeepsClosed astray) {params : Params}
    (binds : BindTypes known slots context params after)
    (plain : ∀ param ∈ params, param.2.plain = true)
    (supplied : ∀ param ∈ params, Supplied astray (Fed inputs) param.2.freeNames)
    (serial position : Nat) (stands : Stands astray inputs context frame) :
    (watchParams registry (vacantSlots inputs) serial position frame params).Finds astray
      (Stands astray inputs after) := by
  induction binds generalizing position frame with
  | nil => exact .pure stands
  | @cons context after name expr ty rest typed _ ih =>
      rw [watchParams]
      obtain ⟨plainHere, plain⟩ := List.forall_mem_cons.mp plain
      obtain ⟨suppliedHere, supplied⟩ := List.forall_mem_cons.mp supplied
      refine (stands.watch_finds keeps typed plainHere suppliedHere _).bind fun value closed => ?_
      exact ih plain supplied (position + 1) ⟨stands.outside, stands.surrounds.bind name ty,
        stands.shows.bind name closed⟩

theorem watch_finds (keeps : registry.KeepsClosed astray) {snapshot : Snapshot} {ty : Ty}
    (typed : NodeHasType known slots registry snapshot.params ty)
    (plain : ∀ param ∈ snapshot.params, param.2.plain = true)
    (supplied : ∀ param ∈ snapshot.params, Supplied astray (Fed inputs) param.2.freeNames)
    (closed : ∀ value, some value ∈ inputs → value.Closed astray) (serial : Nat) :
    (snapshot.watch registry serial inputs).Finds astray (Value.Closed astray) := by
  obtain ⟨context, output, binds, present, typed⟩ := typed
  have stands : Stands astray inputs (.ofRegistry registry) (.ofInputs inputs) := by
    refine ⟨rfl, ⟨fun _ _ found => (nomatch found), ?_⟩, Frame.shows_ofInputs closed⟩
    rintro slot ⟨value, fed⟩
    exact List.mem_map.mpr ⟨_, Frame.mem_ofInputs fed, rfl⟩
  have named : ∀ param ∈ snapshot.params.filter fun param => param.1 != Expr.outputName,
      param ∈ snapshot.params := fun _ member => (List.mem_filter.mp member).1
  have member : (Expr.outputName, output) ∈ snapshot.params := by
    obtain ⟨before, later, parts, _⟩ := List.lookup_eq_some_iff.mp present
    rw [parts]
    exact List.mem_append_right _ List.mem_cons_self
  rw [watch, present]
  refine (watchParams_finds keeps binds (fun param inside => plain param (named param inside))
    (fun param inside => supplied param (named param inside)) serial 0 stands).bind
    fun frame stands => ?_
  exact stands.watch_finds keeps typed (plain _ member) (supplied _ member) _

end Snapshot

theorem watchSlots_finds {read : Nat → Watched Value} {slots : List (Option Nat)}
    (finds : ∀ target, some target ∈ slots → (read target).Finds astray (Value.Closed astray)) :
    (watchSlots read slots).Finds astray fun inputs =>
      inputs.map Option.isSome = slots.map Option.isSome ∧
        ∀ value, some value ∈ inputs → value.Closed astray := by
  induction slots with
  | nil => exact .pure ⟨rfl, fun _ member => absurd member List.not_mem_nil⟩
  | cons slot rest ih =>
      have rests := ih fun target member => finds target (List.mem_cons_of_mem _ member)
      cases slot with
      | none =>
          rw [watchSlots]
          refine rests.bind fun inputs fine => .pure ⟨by simp [fine.1], ?_⟩
          intro value member
          exact fine.2 value ((List.mem_cons.mp member).resolve_left (Option.some_ne_none value))
      | some target =>
          rw [watchSlots]
          refine (finds target List.mem_cons_self).bind fun first closed =>
            rests.bind fun inputs fine => .pure ⟨by simp [fine.1], ?_⟩
          intro value member
          rcases List.mem_cons.mp member with here | later
          · exact Option.some.inj here ▸ closed
          · exact fine.2 value later

namespace Graph

/-- Some node reads an input by a name that is not the variable of that input. -/
def Misspells (graph : Graph) (name : String) : Prop :=
  Expr.Misspelt name ∧ ∃ node ∈ graph.nodes, name ∈ Stage.namesRead node

/-- Every node has a type and every input that is read is connected; no constant has functions
inside. -/
structure Resolved (graph : Graph) : Prop where
  typed : ∀ {index : Nat} {node : Node}, graph.nodes[index]? = some node → ∃ ty, node.ty = .ok ty
  plain : ∀ node ∈ graph.nodes, ∀ param ∈ node.params, param.2.plain = true
  connected : ∀ {index : Nat} {node : Node}, graph.nodes[index]? = some node →
    ∀ name ∈ Stage.namesRead node, ∀ slot, Expr.inputSlot? name = some slot →
      (node.input? slot).isSome

variable {graph : Graph}

theorem Resolved.watch_finds (resolved : graph.Resolved) (wellFormed : graph.WellFormed)
    (typed : graph.Typed) (closed : graph.registry.Closed)
    (keeps : graph.registry.KeepsClosed graph.Misspells) (serials : Nat → Nat) (index : Nat) :
    (graph.watchUnder serials index).Finds graph.Misspells (Value.Closed graph.Misspells) := by
  -- Along dependencies: what reaches a node is closed, functions made elsewhere included.
  induction index using wellFormed.acyclic.induction graph.mirrored with
  | step index ih =>
      cases found : graph.nodes[index]? with
      | none =>
          rw [watchUnder, watchWithin, found]
          exact .pure (Value.closed_error _)
      | some node =>
          rw [wellFormed.watchUnder_eq found]
          have member := List.mem_of_getElem? found
          obtain ⟨ty, stored⟩ := resolved.typed found
          have inferred := (typed index node found).symm.trans stored
          obtain ⟨slots, _, nodeTyped⟩ := (inferNode_principal closed
            (typed.inputTypes_known node.slots)).mpr ⟨ty, inferred, .generic, ty.fill_self.symm⟩
          refine (watchSlots_finds fun target mentioned =>
            ih target (wellFormed.reads found mentioned)).bind fun inputs fine => ?_
          refine Snapshot.watch_finds keeps nodeTyped (resolved.plain node member) ?_ fine.2 _
          intro param inside name read slot designates
          have nameRead : name ∈ Stage.namesRead node :=
            List.mem_eraseDups.mpr (List.mem_flatMap.mpr ⟨param, inside, read⟩)
          refine ⟨?_, ?_⟩
          · obtain ⟨target, connected⟩ :=
              Option.isSome_iff_exists.mp (resolved.connected found name nameRead slot designates)
            have fed : node.slots[slot]? = some (some target) :=
              Option.join_eq_some_iff.mp connected
            have shape := congrArg (·[slot]?) fine.1
            simp only [List.getElem?_map, fed, Option.map_some] at shape
            obtain ⟨input, given, some⟩ := Option.map_eq_some_iff.mp shape
            obtain ⟨value, rfl⟩ := Option.isSome_iff_exists.mp some
            exact ⟨value, given⟩
          · by_cases spelt : name = Expr.inputName slot
            · exact Or.inl spelt
            · exact Or.inr ⟨⟨slot, designates, spelt⟩, node, member, nameRead⟩

/-- Validation, typing and evaluation resolve names alike, but for misspelt inputs. Where the graph
is over the builtin primitives and no constant has functions inside, and validation succeeds and
gives no warning of an input that is read and not connected, evaluating a node with all below it,
under whatever serial numbers, reads no argument that is out of range or not connected, and looks up
no name that is unbound except the misspelt names of inputs. -/
theorem Reachable.finds_what_it_reads (reachable : graph.Reachable)
    (builtin : graph.registry = .builtin)
    (plain : ∀ node ∈ graph.nodes, ∀ param ∈ node.params, param.2.plain = true)
    (valid : (graph.validate Pipeline.standard).success = true)
    (silent : ∀ warning ∈ (graph.validate Pipeline.standard).warnings, ∀ node slot : Nat,
      warning.message ≠
        "Node " ++ natText node ++ " reads input " ++ natText slot ++ " which is not connected")
    (serials : Nat → Nat) (index : Nat) :
    (graph.watchUnder serials index).outcome = graph.valueUnder serials index ∧
      ∀ miss ∈ (graph.watchUnder serials index).missed,
        ∃ name, miss = .unbound name ∧ graph.Misspells name := by
  have resolved : graph.Resolved := by
    refine ⟨fun found => exists_type_of_valid valid (by decide) found, plain, ?_⟩
    intro position node found name read slot designates
    refine (connected_of_valid valid (by decide) found read designates).resolve_right ?_
    rintro ⟨warning, given, message⟩
    exact silent warning given position slot message
  have finds := resolved.watch_finds reachable.wellFormed reachable.typed
    (builtin ▸ Registry.builtin_closed) (builtin ▸ Registry.builtin_keepsClosed) serials index
  refine ⟨graph.watchUnder_outcome serials index, fun miss member => ?_⟩
  obtain ⟨name, misspelt, rfl⟩ := finds.missed miss member
  exact ⟨name, rfl, misspelt⟩

theorem run_builtin (edits : List Edit) :
    ((Graph.empty .builtin).run edits).Reachable ∧
      ((Graph.empty .builtin).run edits).registry = .builtin := by
  refine ⟨(Reachable.empty .builtin none 0).run edits, ?_⟩
  obtain ⟨place, persists⟩ := (Reachable.empty .builtin none 0).persists edits
  exact persists.registry

def quietlyValid (graph : Graph) : Bool :=
  (graph.validate Pipeline.standard).success &&
    (graph.validate Pipeline.standard).warnings.isEmpty &&
    graph.nodes.all fun node => node.params.all fun param => param.2.plain

theorem quietlyValid_iff : graph.quietlyValid = true ↔
    (graph.validate Pipeline.standard).success = true ∧
      (graph.validate Pipeline.standard).warnings = [] ∧
      ∀ node ∈ graph.nodes, ∀ param ∈ node.params, param.2.plain = true := by
  simp only [quietlyValid, Bool.and_eq_true, List.isEmpty_iff, List.all_eq_true, and_assoc]

/-- A number, a function that calls another twice on it, a function that adds an offset to its
argument, and the one called on the other. -/
def offsetTwice : Graph :=
  (Graph.empty .builtin).run
    [.addOutputNode (.constant (.integer 1)),
      .addOutputNode (.lambda ["f"]
        (.apply (.variable "f") [.apply (.variable "f") [.variable (Expr.inputName 0)]])),
      .addEdge 1 0 0,
      .addNode [("offset", .constant (.integer 2)),
        (Expr.outputName, .lambda [] (.primitive "add" [.argument 0, .variable "offset"]))],
      .addOutputNode (.apply (.variable (Expr.inputName 0)) [.variable (Expr.inputName 1)]),
      .addEdge 3 0 1, .addEdge 3 1 2]

theorem offsetTwice_finds_what_it_reads :
    offsetTwice.Reachable ∧ offsetTwice.registry = .builtin ∧ offsetTwice.quietlyValid = true ∧
      offsetTwice.nodes.map (fun node => node.ty.toOption.map Ty.display) =
        [some "Number", some "((Number) -> Number) -> Number", some "(Number) -> Number",
          some "Number"] ∧
      ∀ serials index, (offsetTwice.watchUnder serials index).outcome =
          offsetTwice.valueUnder serials index ∧
        (offsetTwice.watchUnder serials index).missed = [] := by
  obtain ⟨reachable, builtin⟩ :
      offsetTwice.Reachable ∧ offsetTwice.registry = .builtin := run_builtin _
  have quiet : offsetTwice.quietlyValid = true := by decide +kernel
  obtain ⟨valid, none, plain⟩ := quietlyValid_iff.mp quiet
  have spelt : (offsetTwice.nodes.all fun node => (Stage.namesRead node).all fun name =>
      (Expr.inputSlot? name).all fun slot => name == Expr.inputName slot) = true := by
    decide +kernel
  refine ⟨reachable, builtin, quiet, by decide +kernel, fun serials index => ?_⟩
  obtain ⟨outcome, misses⟩ := Reachable.finds_what_it_reads reachable builtin plain valid
    (fun warning member => absurd (none ▸ member) List.not_mem_nil) serials index
  refine ⟨outcome, List.eq_nil_iff_forall_not_mem.mpr fun miss member => ?_⟩
  obtain ⟨name, _, ⟨slot, designates, other⟩, node, inside, read⟩ := misses miss member
  have same := List.all_eq_true.mp (List.all_eq_true.mp spelt node inside) name read
  rw [designates] at same
  exact other (beq_iff_eq.mp same)

def respelt : Graph :=
  (Graph.empty .builtin).run
    [.addOutputNode (.constant (.integer 7)), .addOutputNode (.variable "in00"), .addEdge 1 0 0]

/-- A misspelt input passes validation and is unbound all the same. -/
theorem validation_passes_unbound_input :
    ¬ ∀ graph : Graph, graph.Reachable → graph.registry = .builtin →
      (∀ node ∈ graph.nodes, ∀ param ∈ node.params, param.2.plain = true) →
      (graph.validate Pipeline.standard).success = true →
      (∀ warning ∈ (graph.validate Pipeline.standard).warnings, ∀ node slot : Nat,
        warning.message ≠
          "Node " ++ natText node ++ " reads input " ++ natText slot ++ " which is not connected") →
      ∀ serials index name, .unbound name ∉ (graph.watchUnder serials index).missed := by
  intro claimed
  obtain ⟨reachable, builtin⟩ := run_builtin _
  obtain ⟨valid, none, plain⟩ := quietlyValid_iff.mp
    (show respelt.quietlyValid = true by decide +kernel)
  refine claimed respelt reachable builtin plain valid
    (fun warning member => absurd (none ▸ member) List.not_mem_nil) id 1 "in00" ?_
  have missed : (respelt.watchUnder id 1).missed = [.unbound "in00"] := by decide +kernel
  rw [missed]
  exact List.mem_singleton_self _

end Graph

end NodeGraph
