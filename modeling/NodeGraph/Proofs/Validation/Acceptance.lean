import Mathlib.Data.List.Basic
import NodeGraph.Validation.Pipeline

/-!
What it takes for validation to succeed: every stage accepts the graph, and its warnings are in the
report.
-/

namespace NodeGraph

namespace Stage

theorem outcome_ok {errors : List ValidationError} {warnings passed : List Warning}
    (accepted : outcome errors warnings = .ok passed) : errors = [] ∧ warnings = passed := by
  rw [outcome] at accepted
  split at accepted
  · rename_i none
    exact ⟨List.isEmpty_iff.mp none, Except.ok.inj accepted⟩
  · cases accepted

theorem outcome_error {errors found : List ValidationError} {warnings : List Warning}
    (refused : outcome errors warnings = .error found) : found ≠ [] := by
  rw [outcome] at refused
  split at refused
  · cases refused
  · rename_i some
    rw [← Except.error.inj refused]
    exact fun none => some (List.isEmpty_iff.mpr none)

theorem check_error {graph : Graph} {stage : Stage} {errors : List ValidationError}
    (refused : stage.check graph = .error errors) : errors ≠ [] := by
  cases stage with
  | structural =>
      rw [check, checkStructure] at refused
      split at refused
      · cases refused
      · exact outcome_error refused
  | expressions => exact outcome_error refused
  | types => exact outcome_error refused

end Stage

/-- Nothing that was reported is taken back. -/
structure Report.Within (report later : Report) : Prop where
  errors : report.errors ⊆ later.errors
  warnings : report.warnings ⊆ later.warnings

namespace Report.Within

variable {report middle later : Report}

theorem refl (report : Report) : report.Within report := ⟨List.Subset.refl _, List.Subset.refl _⟩

theorem trans (first : report.Within middle) (second : middle.Within later) :
    report.Within later :=
  ⟨List.Subset.trans first.errors second.errors,
    List.Subset.trans first.warnings second.warnings⟩

theorem success (inside : report.Within later) (fine : later.success = true) :
    report.success = true := by
  rw [Report.success, List.isEmpty_iff] at fine ⊢
  exact List.subset_nil.mp (fine ▸ inside.errors)

end Report.Within

namespace Pipeline

variable {graph : Graph} {report : Report}

theorem within_addError (report : Report) (error : ValidationError) :
    report.Within (report.addError error) :=
  ⟨List.subset_append_left _ _, List.Subset.refl _⟩

theorem within_addErrors (report : Report) (errors : List ValidationError) :
    report.Within (addErrors report errors).1 := by
  induction errors generalizing report with
  | nil => exact .refl report
  | cons error rest ih =>
      rw [addErrors]
      split
      · exact within_addError report error
      · exact (within_addError report error).trans (ih _)

theorem addErrors_fails (report : Report) {errors : List ValidationError} (some : errors ≠ []) :
    (addErrors report errors).1.success = false := by
  cases errors with
  | nil => exact absurd rfl some
  | cons error rest =>
      have added : (report.addError error).success = false := by
        simp [Report.success, Report.addError]
      rw [addErrors]
      split
      · exact added
      · rw [← Bool.not_eq_true] at added ⊢
        exact fun fine => added ((within_addErrors _ rest).success fine)

theorem within_addWarnings (report : Report) (warnings : List Warning) :
    report.Within (warnings.foldl Report.addWarning report) ∧
      warnings ⊆ (warnings.foldl Report.addWarning report).warnings := by
  induction warnings generalizing report with
  | nil => exact ⟨.refl report, List.nil_subset _⟩
  | cons warning rest ih =>
      obtain ⟨kept, added⟩ := ih (report.addWarning warning)
      have first : report.Within (report.addWarning warning) :=
        ⟨List.Subset.refl _, List.subset_append_left _ _⟩
      refine ⟨first.trans kept, List.cons_subset.mpr ⟨?_, added⟩⟩
      exact kept.warnings (List.mem_append_right _ (List.mem_singleton_self warning))

theorem within_runFrom (graph : Graph) (report : Report) (stages : List Stage) :
    report.Within (runFrom graph report stages) := by
  induction stages generalizing report with
  | nil => exact .refl report
  | cons stage rest ih =>
      rw [runFrom]
      cases stage.check graph with
      | ok warnings => exact (within_addWarnings report warnings).1.trans (ih _)
      | error errors =>
          simp only
          split
          · exact within_addErrors report errors
          · exact (within_addErrors report errors).trans (ih _)

theorem check_of_success {stages : List Stage}
    (fine : (runFrom graph report stages).success = true) {stage : Stage}
    (member : stage ∈ stages) :
    ∃ warnings, stage.check graph = .ok warnings ∧
      warnings ⊆ (runFrom graph report stages).warnings := by
  induction stages generalizing report with
  | nil => cases member
  | cons first rest ih =>
      cases outcome : first.check graph with
      | error errors =>
          have broken := addErrors_fails report (Stage.check_error outcome)
          rw [runFrom, outcome] at fine
          simp only at fine
          split at fine
          · rw [broken] at fine
            cases fine
          · rw [(within_runFrom graph _ rest).success fine] at broken
            cases broken
      | ok warnings =>
          rw [runFrom, outcome] at fine ⊢
          rcases List.mem_cons.mp member with rfl | later
          · exact ⟨warnings, outcome, List.Subset.trans (within_addWarnings report warnings).2
              (within_runFrom graph _ rest).warnings⟩
          · exact ih fine later

end Pipeline

namespace Graph

variable {graph : Graph} {index : Nat} {node : Node}

theorem exists_type_of_valid {stages : List Stage} (fine : (graph.validate stages).success = true)
    (checked : .types ∈ stages) (found : graph.nodes[index]? = some node) :
    ∃ ty, node.ty = .ok ty := by
  obtain ⟨warnings, accepted, _⟩ := Pipeline.check_of_success fine checked
  have none := (Stage.outcome_ok accepted).1
  rw [List.filterMap_eq_nil_iff] at none
  have here := none node (List.mem_of_getElem? found)
  cases stored : node.ty with
  | ok ty => exact ⟨ty, rfl⟩
  | error failure =>
      rw [stored] at here
      cases here

theorem connected_of_valid {stages : List Stage} (fine : (graph.validate stages).success = true)
    (checked : .expressions ∈ stages) (found : graph.nodes[index]? = some node) {name : String}
    (read : name ∈ Stage.namesRead node) {slot : Nat}
    (designates : Expr.inputSlot? name = some slot) :
    (node.input? slot).isSome ∨ ∃ warning ∈ (graph.validate stages).warnings, warning.message =
      "Node " ++ natText index ++ " reads input " ++ natText slot ++ " which is not connected" := by
  cases connected : node.input? slot with
  | some target => exact Or.inl rfl
  | none =>
      obtain ⟨warnings, accepted, reported⟩ := Pipeline.check_of_success fine checked
      obtain ⟨_, rfl⟩ := Stage.outcome_ok accepted
      refine Or.inr ⟨_, reported (List.mem_flatMap.mpr ⟨(node, index), ?_,
        List.mem_append_right _ (List.mem_map.mpr ⟨slot, ?_, rfl⟩)⟩), rfl⟩
      · exact List.mem_zipIdx_iff_getElem?.mpr found
      · rw [List.mem_mergeSort, List.mem_filter, List.mem_filterMap]
        exact ⟨⟨name, read, designates⟩, by rw [connected]; rfl⟩

end Graph

end NodeGraph
