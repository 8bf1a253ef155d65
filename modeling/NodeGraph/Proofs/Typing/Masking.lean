import NodeGraph.Proofs.Typing.Hiding

/-!
Masked inputs. Whatever is known of the hidden inputs of a node may be replaced by a type without
variables: the state that inference starts from then stands inside the original one, and stays there
over all parameters. So the type of a node, or its failure, depends only on the slots that are read.
-/

namespace NodeGraph

/-- The inputs with a type that has no variables for those that are hidden. -/
def mask (shown : List Nat) (inputs : List InputType) : List InputType :=
  inputs.mapIdx fun slot input => if slot ∈ shown then input else ⟨none, some .number⟩

def KnownClosed (shown : List Nat) (inputs : List InputType) : Prop :=
  ∀ slot ∈ shown, ∀ input ty, inputs[slot]? = some input → input.ty = some ty → ty.vars = []

theorem getElem?_mask {shown : List Nat} {inputs : List InputType} {slot : Nat}
    (visible : slot ∈ shown) : (mask shown inputs)[slot]? = inputs[slot]? := by
  rw [mask, List.getElem?_mapIdx]
  cases inputs[slot]? with
  | none => rfl
  | some input => exact congrArg some (if_pos visible)

theorem mask_congr {shown : List Nat} {inputs others : List InputType}
    (lengths : inputs.length = others.length)
    (agree : ∀ slot ∈ shown, inputs[slot]? = others[slot]?) :
    mask shown inputs = mask shown others := by
  refine List.ext_getElem? fun slot => ?_
  by_cases visible : slot ∈ shown
  · rw [getElem?_mask visible, getElem?_mask visible, agree slot visible]
  · rw [mask, mask, List.getElem?_mapIdx, List.getElem?_mapIdx]
    simp only [if_neg visible]
    by_cases inside : slot < inputs.length
    · rw [List.getElem?_eq_getElem inside, List.getElem?_eq_getElem (lengths ▸ inside)]
      rfl
    · rw [List.getElem?_eq_none (Nat.le_of_not_lt inside),
        List.getElem?_eq_none (lengths ▸ Nat.le_of_not_lt inside)]

theorem KnownClosed.mask {shown : List Nat} {inputs : List InputType}
    (known : KnownClosed shown inputs) :
    ∀ input ∈ mask shown inputs, ∀ ty, input.ty = some ty → ty.vars = [] := by
  intro input member ty typed
  obtain ⟨slot, inside, rfl⟩ := List.mem_mapIdx.mp member
  split at typed
  · rename_i visible
    exact known slot visible _ ty (List.getElem?_eq_getElem inside) typed
  · cases typed
    rfl

namespace InferState

variable {place wider : Nat → Nat} {shown : List Nat} {state other : InferState}

theorem Mirrors.push (mirrors : state.Mirrors place shown other) {table tableOther : VarTable}
    {ty tyOther : Ty} (valid : Valid ⟨table, state.inputs.push ty⟩)
    (renames : table.Renames wider tableOther)
    (agree : ∀ id < state.table.size, wider id = place id)
    (same : state.inputs.size ∈ shown → tyOther = ty.rename wider) :
    Mirrors wider shown ⟨table, state.inputs.push ty⟩ ⟨tableOther, other.inputs.push tyOther⟩ where
  valid := valid
  table := renames
  size := by simp [mirrors.size]
  inputs := by
    intro slot visible
    rw [Array.getElem?_push, Array.getElem?_push, mirrors.size]
    split
    · rename_i last
      rw [same (last ▸ visible), Option.map_some]
    · rw [mirrors.inputs slot visible]
      refine Option.map_congr fun ty found => Ty.rename_congr fun id mentioned => ?_
      exact (agree id (mirrors.valid.inputs slot ty found id mentioned)).symm

theorem ofInputs_mirrors {inputs : List InputType} (known : KnownClosed shown inputs) :
    ∃ place, (ofInputs (mask shown inputs)).Mirrors place shown (ofInputs inputs) := by
  induction inputs using List.reverseRecOn with
  | nil =>
      refine ⟨id, (ofInputs_opened [] (fun _ member => nomatch member)).valid,
        ⟨Function.injective_id, fun _ => rfl, fun _ => rfl⟩, rfl, fun _ _ => rfl⟩
  | append_singleton inputs input ih =>
      have knownBefore : KnownClosed shown inputs := by
        intro slot visible given ty present
        refine known slot visible given ty ?_
        rw [List.getElem?_append_left (List.getElem?_eq_some_iff.mp present).1, present]
      obtain ⟨place, mirrors⟩ := ih knownBefore
      have valid := (ofInputs_opened _ known.mask).valid
      have size : (ofInputs (mask shown inputs)).inputs.size = inputs.length := by
        rw [(ofInputs_opened _ knownBefore.mask).size, mask, List.length_mapIdx]
      rw [mask, List.mapIdx_concat, ← mask] at valid ⊢
      by_cases visible : inputs.length ∈ shown
      · rw [if_pos visible] at valid ⊢
        cases given : input.ty with
        | none =>
            rw [ofInputs_unknown _ given] at valid ⊢
            rw [ofInputs_unknown _ given]
            obtain ⟨unknown, renames⟩ := mirrors.table.fresh
            exact ⟨place, mirrors.push valid renames (fun _ _ => rfl) fun _ => unknown⟩
        | some ty =>
            rw [ofInputs_known _ given] at valid ⊢
            rw [ofInputs_known _ given]
            have closed := known _ visible input ty (by simp) given
            have opened := mirrors.table.instantiateWith [] ty closed
            exact ⟨place, mirrors.push valid opened.tables (fun _ _ => rfl) fun _ => opened.opened⟩
      · have hidden : (ofInputs (mask shown inputs)).inputs.size ∉ shown := by rwa [size]
        have settled := mirrors.valid.settled
        have skips : VarTable.Skips place (ofInputs (mask shown inputs)).table
            (ofInputs inputs).table := ⟨place, fun _ _ => rfl, mirrors.table⟩
        rw [if_neg visible, ofInputs_known _ rfl] at valid ⊢
        cases given : input.ty with
        | none =>
            rw [ofInputs_unknown _ given]
            obtain ⟨wider, agree, renames⟩ := skips.fresh settled
            exact ⟨wider, mirrors.push valid renames agree fun shows => absurd shows hidden⟩
        | some ty =>
            rw [ofInputs_known _ given]
            obtain ⟨wider, agree, renames⟩ := skips.instantiateWith settled [] ty
            exact ⟨wider, mirrors.push valid renames agree fun shows => absurd shows hidden⟩

end InferState

/-- The slots that the names in the expressions of all parameters designate. -/
def Params.slotsRead (params : Params) : List Nat :=
  (params.flatMap fun param => param.2.freeNames).filterMap Expr.inputSlot?

theorem Params.shows_slotsRead {params : Params} {param : String × Expr} (member : param ∈ params) :
    Shows params.slotsRead param.2.freeNames :=
  fun name free _ designates => List.mem_filterMap.mpr
    ⟨name, List.mem_flatMap.mpr ⟨param, member, free⟩, designates⟩

section Nodes

variable {place : Nat → Nat} {shown : List Nat} {context : TypeContext} {node : Nat}
  {inputs others : List InputType}

theorem locate_congr (agree : ∀ slot ∈ shown, inputs[slot]? = others[slot]?) (name : String)
    {error : TypeError} (blames : ∀ slot, error.culprit? = some (.input slot) → slot ∈ shown) :
    locate node inputs name error = locate node others name error := by
  rw [locate, locate]
  cases blamed : error.culprit? with
  | none => rfl
  | some culprit =>
      cases culprit with
      | expression text => rfl
      | input slot => simp only [agree slot (blames slot blamed)]

/-- What two runs over parameters come to: a failure that is the same, or contexts and states of
which one mirrors the other. -/
inductive MirroredParams (place : Nat → Nat) (shown : List Nat) (registry : Registry) :
    Except NodeTypeError (TypeContext × InferState) →
    Except NodeTypeError (TypeContext × InferState) → Prop
  | bound {context : TypeContext} {state other : InferState}
      (mirrors : state.Mirrors place shown other) (small : context.Scoped state.table.size)
      (same : context.registry = registry) (outer : context.scopes = []) :
      MirroredParams place shown registry (.ok (context, state))
        (.ok (context.rename place, other))
  | failed (failure : NodeTypeError) :
      MirroredParams place shown registry (.error failure) (.error failure)

theorem inferParams_mirrored (closed : context.registry.Closed)
    (agree : ∀ slot ∈ shown, inputs[slot]? = others[slot]?) {params : Params}
    (shows : ∀ param ∈ params, Shows shown param.2.freeNames) {state other : InferState}
    (mirrors : state.Mirrors place shown other) (small : context.Scoped state.table.size)
    (outer : context.scopes = []) :
    MirroredParams place shown context.registry (inferParams node inputs context state params)
      (inferParams node others (context.rename place) other params) := by
  induction params generalizing context state other with
  | nil => exact .bound mirrors small rfl outer
  | cons param rest ih =>
      obtain ⟨name, expr⟩ := param
      rw [List.forall_mem_cons] at shows
      have here := shows.1
      rw [Expr.freeNames, ← List.map_nil (f := LambdaScope.bound), ← outer] at here
      have ran := Infer.exprTy_mirrored closed expr state other mirrors small here
      rw [inferParams, inferParams, StateT.run, StateT.run]
      generalize Infer.exprTy context expr state = run at ran
      generalize Infer.exprTy (context.rename place) expr other = runOther at ran
      cases ran with
      | found mirrors grows tySmall =>
          exact @ih (context.bind name _) closed shows.2 _ _ mirrors
            ((small.mono grows).bind name tySmall) outer
      | failed blames =>
          simp only [locate_congr agree name blames]
          exact .failed _

theorem inferNode_mask {registry : Registry} (closed : registry.Closed) {params : Params}
    (shows : ∀ param ∈ params, Shows shown param.2.freeNames)
    (known : KnownClosed shown inputs) :
    inferNode registry node params (mask shown inputs) = inferNode registry node params inputs := by
  obtain ⟨place, mirrors⟩ := InferState.ofInputs_mirrors known
  have agree : ∀ slot ∈ shown, (mask shown inputs)[slot]? = inputs[slot]? :=
    fun _ visible => getElem?_mask visible
  have ran := @inferParams_mirrored place shown (.ofRegistry registry) node _ _ closed agree
    (params.filter fun param => param.1 != Expr.outputName)
    (fun param member => shows param (List.mem_of_mem_filter member)) _ _ mirrors
    (TypeContext.ofRegistry_scoped registry _) rfl
  change MirroredParams place shown registry _
    (inferParams node inputs (.ofRegistry registry) (.ofInputs inputs) _) at ran
  rw [inferNode, inferNode]
  simp only [bind, Except.bind]
  generalize inferParams node (mask shown inputs) _ _ _ = run at ran
  generalize inferParams node inputs _ _ _ = runOther at ran
  cases ran with
  | failed failure => rfl
  | @bound context state other mirrors small same outer =>
      simp only
      cases found : params.lookup Expr.outputName with
      | none =>
          exact congrArg Except.error (locate_congr agree _ fun _ blamed => by cases blamed)
      | some output =>
          obtain ⟨before, after, parts, _⟩ := List.lookup_eq_some_iff.mp found
          have here := shows (Expr.outputName, output) (parts ▸ by simp)
          rw [Expr.freeNames, ← List.map_nil (f := LambdaScope.bound), ← outer] at here
          have ran := Infer.exprTy_mirrored (same.symm ▸ closed) output state other mirrors small
            here
          simp only [StateT.run]
          generalize Infer.exprTy context output state = run at ran
          generalize Infer.exprTy (context.rename place) output other = runOther at ran
          cases ran with
          | failed blames => exact congrArg Except.error (locate_congr agree _ blames)
          | @found ty later laterOther mirrors grows tySmall =>
              exact congrArg Except.ok
                (mirrors.table.generalize mirrors.valid.settled tySmall).symm

theorem inferNode_congr {registry : Registry} (closed : registry.Closed) (node : Nat)
    {params : Params} (lengths : inputs.length = others.length)
    (agree : ∀ slot ∈ params.slotsRead, inputs[slot]? = others[slot]?)
    (known : KnownClosed params.slotsRead inputs) :
    inferNode registry node params inputs = inferNode registry node params others := by
  have shows : ∀ param ∈ params, Shows params.slotsRead param.2.freeNames :=
    fun _ member => Params.shows_slotsRead member
  have knownOthers : KnownClosed params.slotsRead others := by
    intro slot visible input ty present
    exact known slot visible input ty ((agree slot visible).trans present)
  rw [← inferNode_mask closed shows known, ← inferNode_mask closed shows knownOthers,
    mask_congr lengths agree]

end Nodes

end NodeGraph
