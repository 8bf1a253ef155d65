import NodeGraph.Proofs.Graph.Saving
import NodeGraph.Proofs.Typing.Nodes
import NodeGraph.Proofs.Validation.Acceptance

/-!
The verdict of validation on graphs that edits have made. Nothing is wrong with their structure, so
no stage ends a pipeline early, and a node that uses an unknown primitive has no type: inference
looks at every primitive that an expression names. What is left to find are the failures that the
nodes have stored.
-/

namespace NodeGraph

def Expr.Known (registry : Registry) (expr : Expr) : Prop :=
  ∀ name ∈ expr.primitiveNames, registry.contains name = true

def Expr.AllKnown (registry : Registry) (exprs : List Expr) : Prop :=
  ∀ name ∈ Expr.primitiveNamesList exprs, registry.contains name = true

namespace Infer

variable {state later : InferState} {context : TypeContext} {ty : Ty}

mutual

theorem exprTy_known (expr : Expr) {context : TypeContext} {state later : InferState} {ty : Ty}
    (accepted : exprTy context expr state = .ok (ty, later)) : expr.Known context.registry := by
  match expr with
  | .constant _ | .variable _ | .argument _ => exact fun _ member => nomatch member
  | .primitive name operands =>
      obtain ⟨signature, params, result, opened, found, _, checked⟩ := exprTy_primitive accepted
      refine List.forall_mem_cons.mpr ⟨contains_of_signature? found, ?_⟩
      rcases checked with ⟨rfl, _⟩ | ⟨_, lengths, _, passed⟩
      · exact fun _ member => nomatch member
      · exact checkOperands_known operands (Nat.le_of_eq lengths) passed
  | .apply operator operands =>
      rw [exprTy_apply] at accepted
      obtain ⟨_, middle, first, accepted⟩ := bind_ok accepted
      obtain ⟨_, _, second, _⟩ := bind_ok accepted
      exact List.forall_mem_append.mpr ⟨exprTy_known operator first, exprTys_known operands second⟩
  | .map array callable =>
      rw [exprTy_map] at accepted
      obtain ⟨_, _, first, accepted⟩ := bind_ok accepted
      obtain ⟨_, _, _, accepted⟩ := bind_ok accepted
      obtain ⟨_, _, _, accepted⟩ := bind_ok accepted
      obtain ⟨_, _, second, _⟩ := bind_ok accepted
      exact List.forall_mem_append.mpr ⟨exprTy_known array first, exprTy_known callable second⟩
  | .lambda params body =>
      rw [exprTy] at accepted
      simp only at accepted
      split at accepted
      · cases accepted
      · obtain ⟨_, _, _, accepted⟩ := bind_ok accepted
        obtain ⟨_, _, inner, _⟩ := bind_ok accepted
        have known := exprTy_known body inner
        exact known

theorem exprTys_known (exprs : List Expr) {context : TypeContext} {state later : InferState}
    {types : List Ty} (accepted : exprTys context exprs state = .ok (types, later)) :
    Expr.AllKnown context.registry exprs := by
  match exprs with
  | [] => exact fun _ member => nomatch member
  | expr :: rest =>
      rw [exprTys] at accepted
      obtain ⟨_, _, first, accepted⟩ := bind_ok accepted
      obtain ⟨_, _, second, _⟩ := bind_ok accepted
      exact List.forall_mem_append.mpr ⟨exprTy_known expr first, exprTys_known rest second⟩

theorem checkOperands_known (operands : List Expr) {context : TypeContext}
    {state later : InferState} {params : List Ty} (few : operands.length ≤ params.length)
    (accepted : checkOperands context params operands state = .ok ((), later)) :
    Expr.AllKnown context.registry operands := by
  match operands, params with
  | [], _ => exact fun _ member => nomatch member
  | operand :: operands, param :: params =>
      rw [checkOperands] at accepted
      obtain ⟨_, _, first, accepted⟩ := bind_ok accepted
      obtain ⟨_, _, _, accepted⟩ := bind_ok accepted
      exact List.forall_mem_append.mpr ⟨exprTy_known operand first,
        checkOperands_known operands (Nat.le_of_succ_le_succ few) accepted⟩

end

end Infer

theorem inferParams_known {node : Nat} {inputs : List InputType} {params : Params}
    {context after : TypeContext} {state later : InferState}
    (accepted : inferParams node inputs context state params = .ok (after, later)) :
    after.registry = context.registry ∧ ∀ param ∈ params, param.2.Known context.registry := by
  induction params generalizing context state with
  | nil =>
      cases accepted
      exact ⟨rfl, fun _ member => nomatch member⟩
  | cons param rest ih =>
      obtain ⟨name, expr⟩ := param
      rw [inferParams] at accepted
      split at accepted
      · rename_i ty middle typed
        obtain ⟨same, others⟩ := ih accepted
        exact ⟨same, List.forall_mem_cons.mpr ⟨Infer.exprTy_known expr typed, others⟩⟩
      · cases accepted

theorem inferNode_known {registry : Registry} {node : Nat} {params : Params}
    {inputs : List InputType} {ty : Ty} (distinct : params.names.Nodup)
    (accepted : inferNode registry node params inputs = .ok ty) :
    ∀ param ∈ params, param.2.Known registry := by
  obtain ⟨context, state, output, _, _, bound, found, typed, _⟩ := inferNode_ok accepted
  obtain ⟨same, named⟩ := inferParams_known bound
  intro param member
  by_cases other : param.1 = Expr.outputName
  · obtain ⟨before, after, parts, _⟩ := List.lookup_eq_some_iff.mp found
    have present : (Expr.outputName, output) ∈ params := by
      rw [parts]
      exact List.mem_append_right _ List.mem_cons_self
    obtain rfl := List.inj_on_of_nodup_map distinct member present other
    have known := Infer.exprTy_known output typed
    rwa [same] at known
  · exact named param (List.mem_filter.mpr ⟨member, bne_iff_ne.mpr other⟩)

namespace Stage

variable {graph : Graph}

def errors (graph : Graph) (stage : Stage) : List ValidationError :=
  match stage.check graph with
  | .ok _ => []
  | .error errors => errors

def warnings (graph : Graph) (stage : Stage) : List Warning :=
  match stage.check graph with
  | .ok warnings => warnings
  | .error _ => []

theorem errors_of_outcome {stage : Stage} {found : List ValidationError} {warned : List Warning}
    (checked : stage.check graph = outcome found warned) : stage.errors graph = found := by
  rw [errors, checked, outcome]
  cases found <;> rfl

end Stage

namespace Pipeline

variable {graph : Graph}

theorem addErrors_of_mild (report : Report) {errors : List ValidationError}
    (mild : ∀ error ∈ errors, error.isFatal = false) :
    addErrors report errors = (⟨report.errors ++ errors, report.warnings⟩, false) := by
  induction errors generalizing report with
  | nil => rw [addErrors, List.append_nil]
  | cons error rest ih =>
      obtain ⟨first, others⟩ := List.forall_mem_cons.mp mild
      rw [addErrors, first]
      simp only [Bool.false_eq_true, if_false]
      rw [ih _ others, Report.addError]
      simp

theorem foldl_addWarning (report : Report) (warnings : List Warning) :
    warnings.foldl Report.addWarning report = ⟨report.errors, report.warnings ++ warnings⟩ := by
  induction warnings generalizing report with
  | nil => rw [List.foldl_nil, List.append_nil]
  | cons warning rest ih =>
      rw [List.foldl_cons, ih, Report.addWarning]
      simp

theorem runFrom_of_mild (report : Report) {stages : List Stage}
    (mild : ∀ stage ∈ stages, ∀ error ∈ stage.errors graph, error.isFatal = false) :
    runFrom graph report stages =
      ⟨report.errors ++ stages.flatMap (Stage.errors graph),
        report.warnings ++ stages.flatMap (Stage.warnings graph)⟩ := by
  induction stages generalizing report with
  | nil => simp [runFrom]
  | cons stage rest ih =>
      obtain ⟨first, others⟩ := List.forall_mem_cons.mp mild
      rw [runFrom, List.flatMap_cons, List.flatMap_cons]
      cases checked : stage.check graph with
      | ok warnings =>
          simp only
          rw [foldl_addWarning, ih _ others, Stage.errors, Stage.warnings, checked]
          simp
      | error errors =>
          have found : stage.errors graph = errors := by rw [Stage.errors, checked]
          rw [found] at first
          simp only
          rw [addErrors_of_mild report first]
          simp only [Bool.false_eq_true, if_false]
          rw [ih _ others, found, Stage.warnings, checked]
          simp

end Pipeline

theorem output_isSome {params : Params} (named : checkParams params = .ok ()) :
    (params.lookup Expr.outputName).isSome = true := by
  have member := ((checkParams_ok_iff params).mp named).1
  rw [Option.isSome_iff_ne_none, Ne, List.lookup_eq_none_iff]
  intro absent
  obtain ⟨param, inside, same⟩ := List.mem_map.mp member
  have different := absent param inside
  simp [same] at different

def Node.failure? (node : Node) : Option NodeTypeError :=
  match node.ty with
  | .ok _ => none
  | .error failure => some failure

def ValidationError.failure? : ValidationError → Option NodeTypeError
  | .typing failure => some failure
  | _ => none

namespace Graph

variable {graph : Graph}

theorem WellFormed.structural_ok (wellFormed : graph.WellFormed) :
    ∃ warnings, Stage.structural.check graph = .ok warnings := by
  have missing : (graph.nodes.zipIdx.filterMap fun entry =>
      if entry.1.output?.isNone then some (ValidationError.missingOutput entry.2) else none) =
        [] := by
    rw [List.filterMap_eq_nil_iff]
    rintro ⟨node, index⟩ member
    have found := List.mem_zipIdx_iff_getElem?.mp member
    have present : node.output?.isSome = true := output_isSome (wellFormed.fits found).named
    rw [Option.isSome_iff_ne_none] at present
    simpa using present
  rw [Stage.check, Stage.checkStructure]
  split
  · exact ⟨_, rfl⟩
  · simp only [missing, wellFormed.checkEdges]
    exact ⟨_, rfl⟩

theorem types_errors (graph : Graph) :
    Stage.types.errors graph = (graph.nodes.filterMap Node.failure?).map .typing := by
  have found : Stage.types.errors graph = graph.nodes.filterMap fun node =>
      match node.ty with
      | .ok _ => none
      | .error failure => some (ValidationError.typing failure) := Stage.errors_of_outcome rfl
  rw [found, List.map_filterMap]
  congr 1
  funext node
  rw [Node.failure?]
  cases node.ty <;> rfl

theorem expressions_errors (graph : Graph) :
    Stage.expressions.errors graph = graph.nodes.zipIdx.flatMap fun entry =>
      (Stage.unknownPrimitives graph.registry entry.1).map
        fun name => .unknownPrimitive entry.2 name :=
  Stage.errors_of_outcome rfl

theorem failures_nil_iff :
    graph.nodes.filterMap Node.failure? = [] ↔ ∀ node ∈ graph.nodes, ∃ ty, node.ty = .ok ty := by
  rw [List.filterMap_eq_nil_iff]
  refine forall₂_congr fun node _ => ?_
  rw [Node.failure?]
  cases node.ty <;> simp

theorem Typed.expressions_fine (typed : graph.Typed) (keyed : graph.Keyed)
    (fine : ∀ node ∈ graph.nodes, ∃ ty, node.ty = .ok ty) :
    Stage.expressions.errors graph = [] := by
  rw [expressions_errors, List.flatMap_eq_nil_iff]
  rintro ⟨node, index⟩ member
  have found := List.mem_zipIdx_iff_getElem?.mp member
  have inside := List.mem_of_getElem? found
  obtain ⟨ty, stored⟩ := fine node inside
  have inferred : inferNode graph.registry index node.params (graph.inputTypes node.slots) =
      .ok ty := (typed index node found).symm.trans stored
  have none : (node.params.flatMap fun param => param.2.primitiveNames).filter
      (fun name => !graph.registry.contains name) = [] := by
    rw [List.filter_eq_nil_iff]
    intro name used
    obtain ⟨param, present, named⟩ := List.mem_flatMap.mp used
    simp [inferNode_known (keyed node inside) inferred param present name named]
  rw [Stage.unknownPrimitives, none]
  rfl

/-- What validation tells of a graph. -/
structure Verdict (graph : Graph) : Prop where
  /-- The structure is never to blame. -/
  structural : Stage.structural.errors graph = []
  /-- No pipeline stops early: the report has what each of the stages finds. -/
  complete : ∀ stages, graph.validate stages =
    ⟨stages.flatMap (Stage.errors graph), stages.flatMap (Stage.warnings graph)⟩
  standard : (graph.validate Pipeline.standard).success = true ↔
    (graph.validate Pipeline.minimal).success = true
  minimal : (graph.validate Pipeline.minimal).success = true ↔
    ∀ node ∈ graph.nodes, ∃ ty, node.ty = .ok ty
  /-- Type errors are the stored failures, in the order of the nodes. -/
  failures : ∀ stages ∈ [Pipeline.standard, Pipeline.minimal],
    (graph.validate stages).errors.filterMap ValidationError.failure? =
      graph.nodes.filterMap Node.failure?
  /-- A stored failure names the node that stores it. -/
  places : ∀ {index : Nat} {node : Node} {failure : NodeTypeError},
    graph.nodes[index]? = some node → node.failure? = some failure → failure.node = index

theorem WellFormed.mild (wellFormed : graph.WellFormed) (stage : Stage) :
    ∀ error ∈ stage.errors graph, error.isFatal = false := by
  intro error member
  cases stage with
  | structural =>
      obtain ⟨warnings, accepted⟩ := wellFormed.structural_ok
      rw [Stage.errors, accepted] at member
      cases member
  | expressions =>
      rw [expressions_errors] at member
      obtain ⟨entry, _, found⟩ := List.mem_flatMap.mp member
      obtain ⟨name, _, rfl⟩ := List.mem_map.mp found
      rfl
  | types =>
      rw [types_errors] at member
      obtain ⟨failure, _, rfl⟩ := List.mem_map.mp member
      rfl

/-- The verdict on a graph that edits have made. -/
theorem Reachable.validation_verdict (reachable : graph.Reachable) : graph.Verdict := by
  have wellFormed := reachable.wellFormed
  have typed := reachable.typed
  have structural : Stage.structural.errors graph = [] := by
    obtain ⟨warnings, accepted⟩ := wellFormed.structural_ok
    rw [Stage.errors, accepted]
  have complete : ∀ stages, graph.validate stages =
      ⟨stages.flatMap (Stage.errors graph), stages.flatMap (Stage.warnings graph)⟩ := by
    intro stages
    rw [validate, Pipeline.runFrom_of_mild .empty fun stage _ => wellFormed.mild stage]
    simp [Report.empty]
  have standard : (graph.validate Pipeline.standard).errors =
      Stage.expressions.errors graph ++ Stage.types.errors graph := by
    rw [complete]
    simp [Pipeline.standard, structural]
  have minimal : (graph.validate Pipeline.minimal).errors = Stage.types.errors graph := by
    rw [complete]
    simp [Pipeline.minimal, structural]
  have fine : Stage.types.errors graph = [] ↔ ∀ node ∈ graph.nodes, ∃ ty, node.ty = .ok ty := by
    rw [types_errors, List.map_eq_nil_iff, failures_nil_iff]
  have syntactic : (Stage.expressions.errors graph).filterMap ValidationError.failure? = [] := by
    rw [List.filterMap_eq_nil_iff, expressions_errors]
    intro error member
    obtain ⟨entry, _, found⟩ := List.mem_flatMap.mp member
    obtain ⟨name, _, rfl⟩ := List.mem_map.mp found
    rfl
  have semantic : (Stage.types.errors graph).filterMap ValidationError.failure? =
      graph.nodes.filterMap Node.failure? := by
    rw [types_errors, List.filterMap_map]
    exact List.filterMap_some
  refine ⟨structural, complete, ?_, ?_, ?_, ?_⟩
  · rw [Report.success, Report.success, standard, minimal, List.isEmpty_iff, List.isEmpty_iff,
      List.append_eq_nil_iff]
    exact ⟨And.right, fun none => ⟨typed.expressions_fine reachable.keyed (fine.mp none), none⟩⟩
  · rw [Report.success, minimal, List.isEmpty_iff, fine]
  · intro stages member
    rcases List.mem_pair.mp member with rfl | rfl
    · rw [standard, List.filterMap_append, syntactic, semantic, List.nil_append]
    · rw [minimal, semantic]
  · intro index node failure found stored
    have failed : node.ty = .error failure := by
      rw [Node.failure?] at stored
      cases ty : node.ty with
      | ok _ =>
          rw [ty] at stored
          cases stored
      | error other =>
          rw [ty] at stored
          cases stored
          rfl
    exact inferNode_failure ((typed index node found).symm.trans failed)

/-- A stored graph that uses a primitive which is not registered, and its reader. -/
def unlisted : StoredGraph where
  version := StoredGraph.currentVersion
  name := none
  nodes :=
    [⟨none, [(Expr.outputName, .primitive "half" [.constant (.integer 1)])], []⟩,
      ⟨none, [(Expr.outputName, .variable (Expr.inputName 0))], [some 0]⟩]

/-- The first node fails and is reported twice by all stages together; the second has a type. -/
theorem unlisted_validation_verdict :
    ∃ graph, unlisted.toGraph .empty 0 = .ok graph ∧ graph.Verdict ∧
      (graph.validate Pipeline.standard).success = false ∧
      (graph.validate Pipeline.standard).errors.length = 2 ∧
      ((graph.validate Pipeline.standard).errors.filterMap
        ValidationError.failure?).map NodeTypeError.node = [0] := by
  have accepted : (unlisted.toGraph .empty 0).isOk = true := by decide +kernel
  cases loaded : unlisted.toGraph .empty 0 with
  | error error =>
      rw [loaded] at accepted
      cases accepted
  | ok graph =>
      obtain ⟨_, _, shape⟩ := toGraph_ok loaded
      have verdict := Reachable.validation_verdict (.loaded (by decide +kernel) loaded)
      refine ⟨graph, rfl, verdict, ?_, ?_, ?_⟩
      · rw [shape]
        decide +kernel
      · rw [shape]
        decide +kernel
      · rw [verdict.failures _ List.mem_cons_self, shape]
        decide +kernel

end Graph

end NodeGraph
