import NodeGraph.Proofs.Typing.Rules

/-!
Steps that decide. Each step of inference stands for a goal, a relation between an assignment of
types to variables and a result. If the step finds something, then the solutions afterwards are
those of the goal, up to the variables that are new; if it fails, no solution from before meets the
goal.
-/

namespace NodeGraph

/-- Results that mention type variables. -/
class Filling (Result : Type) where
  fill : (Nat → Ty) → Result → Result
  Scoped : Nat → Result → Prop
  mono : ∀ {size larger : Nat} {result : Result}, Scoped size result → size ≤ larger →
    Scoped larger result
  fill_eq : ∀ {size : Nat} {result : Result} {vars other : Nat → Ty}, Scoped size result →
    Ty.AgreeBelow size vars other → fill other result = fill vars result

namespace Filling

instance : Filling Ty where
  fill vars ty := ty.fill vars .generic
  Scoped size ty := ty.Scoped size
  mono small grows := Ty.Scoped.mono small grows
  fill_eq small agree := Ty.Scoped.fill_eq small agree

instance : Filling Unit where
  fill _ result := result
  Scoped _ _ := True
  mono _ _ := trivial
  fill_eq _ _ := rfl

instance : Filling (List Ty) where
  fill vars types := types.map (Ty.fill vars .generic)
  Scoped size types := ∀ ty ∈ types, ty.Scoped size
  mono small grows ty member := (small ty member).mono grows
  fill_eq small agree := List.map_congr_left fun ty member => (small ty member).fill_eq agree

instance {First Second : Type} [Filling First] [Filling Second] : Filling (First × Second) where
  fill vars result := (fill vars result.1, fill vars result.2)
  Scoped size result := Scoped size result.1 ∧ Scoped size result.2
  mono small grows := ⟨mono small.1 grows, mono small.2 grows⟩
  fill_eq small agree := by rw [fill_eq small.1 agree, fill_eq small.2 agree]

end Filling

/-- The assignment solves the table and gives every slot its type. -/
structure InferState.Meets (state : InferState) (slots : Nat → Ty) (vars : Nat → Ty) : Prop where
  solves : state.table.Solves vars .generic
  inputs : ∀ (slot : Nat) (ty : Ty), state.inputs[slot]? = some ty →
    ty.fill vars .generic = slots slot

/-- A state in which at least the known inputs have types, and only inputs that may be read. -/
structure InferState.Serves (state : InferState) (known : Nat) : Prop where
  valid : state.Valid
  all : known ≤ state.inputs.size
  only : ∀ slot, slot < state.inputs.size → Readable known slot

theorem InferState.Meets.earlier {state later : InferState} {slots vars : Nat → Ty}
    (meets : later.Meets slots vars) (extended : state.Extends later) : state.Meets slots vars :=
  ⟨extended.table.solves meets.solves,
    fun slot ty found => meets.inputs slot ty (extended.inputs slot ty found)⟩

theorem InferState.Meets.of_agree {state : InferState} {slots vars other : Nat → Ty}
    (valid : state.Valid) (meets : state.Meets slots vars)
    (agree : Ty.AgreeBelow state.table.size vars other) : state.Meets slots other := by
  obtain ⟨general, solved⟩ := valid.settled
  refine ⟨meets.solves.of_agree solved agree, fun slot ty found => ?_⟩
  rw [(valid.inputs slot ty found).fill_eq agree, meets.inputs slot ty found]

section Decides

variable (known : Nat) (slots : Nat → Ty)
variable {Result : Type} [Filling Result]

/-- What was found stands for all results that meet the goal. -/
structure Told (state : InferState) (goal : (Nat → Ty) → Result → Prop) (found : Result)
    (later : InferState) : Prop where
  serves : later.Serves known
  extended : state.Extends later
  small : Filling.Scoped later.table.size found
  sound : ∀ vars, later.Meets slots vars → goal vars (Filling.fill vars found)
  complete : ∀ vars, state.Meets slots vars → ∀ result, goal vars result →
    ∃ other, Ty.AgreeBelow state.table.size vars other ∧ later.Meets slots other ∧
      Filling.fill other found = result

inductive Decides (state : InferState) (goal : (Nat → Ty) → Result → Prop) :
    Except TypeError (Result × InferState) → Prop
  | found {found : Result} {later : InferState} (told : Told known slots state goal found later) :
      Decides state goal (.ok (found, later))
  | refuted {error : TypeError}
      (none : ∀ vars, state.Meets slots vars → ∀ result, ¬ goal vars result) :
      Decides state goal (.error error)

end Decides

variable {known : Nat} {slots : Nat → Ty} {state : InferState}
variable {Result Final : Type} [Filling Result] [Filling Final]

namespace Decides

theorem of_goal {goal other : (Nat → Ty) → Result → Prop}
    {outcome : Except TypeError (Result × InferState)}
    (decides : Decides known slots state other outcome)
    (same : ∀ vars, state.Meets slots vars → ∀ result, goal vars result ↔ other vars result) :
    Decides known slots state goal outcome := by
  cases decides with
  | found told =>
      refine .found ⟨told.serves, told.extended, told.small, fun vars meets => ?_,
        fun vars meets result reached => ?_⟩
      · exact (same vars (meets.earlier told.extended) _).mpr (told.sound vars meets)
      · exact told.complete vars meets result ((same vars meets result).mp reached)
  | refuted none =>
      exact .refuted fun vars meets result reached =>
        none vars meets result ((same vars meets result).mp reached)

theorem pure {found : Result} (serves : state.Serves known)
    (small : Filling.Scoped state.table.size found) :
    Decides known slots state (fun vars result => result = Filling.fill vars found)
      ((Pure.pure found : InferM Result) state) :=
  .found ⟨serves, .refl state, small, fun _ _ => rfl,
    fun vars meets _ same => ⟨vars, .refl _ vars, meets, same.symm⟩⟩

theorem bind {first : InferM Result} {next : Result → InferM Final}
    {part : (Nat → Ty) → Result → Prop} {goal : (Nat → Ty) → Final → Prop}
    (rest : Result → (Nat → Ty) → Final → Prop)
    (begins : Decides known slots state part (first state))
    (continues : ∀ found middle, first state = .ok (found, middle) →
      Told known slots state part found middle → Decides known slots middle (rest found)
        (next found middle))
    (join : ∀ found vars, part vars (Filling.fill vars found) → ∀ result,
      rest found vars result → goal vars result)
    (divide : ∀ vars, state.Meets slots vars → ∀ result, goal vars result →
      ∃ piece, part vars piece ∧ ∀ found other, Ty.AgreeBelow state.table.size vars other →
        Filling.fill other found = piece → rest found other result) :
    Decides known slots state goal ((first >>= next) state) := by
  change Decides known slots state goal ((first state).bind fun pair => next pair.1 pair.2)
  generalize outcome : first state = ran at begins
  cases begins with
  | refuted none =>
      refine .refuted fun vars meets result reached => ?_
      obtain ⟨piece, reachedPart, _⟩ := divide vars meets result reached
      exact none vars meets piece reachedPart
  | @found found middle told =>
      change Decides known slots state goal (next found middle)
      -- What solves the state goes on to solve the middle one: only new variables change.
      have resumes : ∀ vars, state.Meets slots vars → ∀ result, goal vars result →
          ∃ other, Ty.AgreeBelow state.table.size vars other ∧ middle.Meets slots other ∧
            rest found other result := by
        intro vars meets result reached
        obtain ⟨piece, reachedPart, onward⟩ := divide vars meets result reached
        obtain ⟨other, agree, met, same⟩ := told.complete vars meets piece reachedPart
        exact ⟨other, agree, met, onward found other agree same⟩
      have continued := continues found middle outcome told
      generalize next found middle = rest at continued
      cases continued with
      | refuted none =>
          refine .refuted fun vars meets result reached => ?_
          obtain ⟨other, _, met, remaining⟩ := resumes vars meets result reached
          exact none other met result remaining
      | found final =>
          refine .found ⟨final.serves, told.extended.trans final.extended, final.small,
            fun vars meets => ?_, fun vars meets result reached => ?_⟩
          · exact join found vars (told.sound vars (meets.earlier final.extended)) _
              (final.sound vars meets)
          · obtain ⟨other, agree, met, remaining⟩ := resumes vars meets result reached
            obtain ⟨last, further, lastMet, same⟩ := final.complete other met result remaining
            exact ⟨last, agree.trans further told.extended.table.size, lastMet, same⟩

end Decides

theorem InferState.Serves.of_table {table : VarTable} (serves : state.Serves known)
    (settled : table.Settled) (extended : state.table.Extends table) :
    InferState.Serves { state with table } known ∧ state.Extends { state with table } := by
  have steps := serves.valid.of_table settled extended
  exact ⟨⟨steps.valid, serves.all, serves.only⟩, steps.extended⟩

namespace VarTable

theorem freshList_solves {table : VarTable} {vars generics : Nat → Ty} (count : Nat) :
    (table.freshList count).2.Solves vars generics ↔ table.Solves vars generics := by
  induction count generalizing table with
  | zero => rfl
  | succ count ih => rw [freshList, ih, fresh_solves]

theorem freshList_realized {table : VarTable} (vars : Nat → Ty) (types : List Ty) :
    ∃ other, Ty.AgreeBelow table.size vars other ∧
      (table.freshList types.length).1.map (Ty.fill other .generic) = types := by
  induction types generalizing table vars with
  | nil => exact ⟨vars, .refl _ vars, rfl⟩
  | cons ty rest ih =>
      obtain ⟨other, agree, same⟩ := @ih table.fresh.2 (Function.update vars table.size ty)
      have first := fresh_scoped table
      refine ⟨other, (Ty.AgreeBelow.assign table.size vars ty).trans agree
        (fresh_extends table).size, ?_⟩
      rw [List.length_cons, freshList, List.map_cons, same, first.fill_eq agree,
        fresh_fill_assign]

end VarTable

namespace Infer

variable {ty : Ty}

theorem freshTy_decides (serves : state.Serves known) :
    Decides known slots state (fun _ _ => True) (freshTy state) := by
  have step := serves.of_table (VarTable.settled_fresh serves.valid.settled)
    (VarTable.fresh_extends state.table)
  refine .found ⟨step.1, step.2, VarTable.fresh_scoped state.table, fun _ _ => trivial,
    fun vars meets ty _ => ?_⟩
  have agree := Ty.AgreeBelow.assign state.table.size vars ty
  have met := meets.of_agree serves.valid agree
  exact ⟨_, agree, ⟨VarTable.fresh_solves.mpr met.solves, met.inputs⟩,
    VarTable.fresh_fill_assign vars .generic ty⟩

theorem freshTys_decides (serves : state.Serves known) (count : Nat) :
    Decides known slots state (fun _ types => types.length = count) (freshTys count state) := by
  obtain ⟨settled, extended, lengths, small⟩ :=
    VarTable.freshList_spec count serves.valid.settled
  have step := serves.of_table settled extended
  refine .found ⟨step.1, step.2, small, fun _ _ => ?_, fun vars meets types many => ?_⟩
  · exact (List.length_map _).trans lengths
  · obtain ⟨other, agree, same⟩ := @VarTable.freshList_realized state.table vars types
    have met := meets.of_agree serves.valid agree
    rw [many] at same
    exact ⟨other, agree, ⟨(VarTable.freshList_solves count).mpr met.solves, met.inputs⟩, same⟩

theorem instantiate_decides (serves : state.Serves known) {scheme : Scheme}
    (closed : scheme.toTy.vars = []) :
    Decides known slots state
      (fun _ types => ∃ generics : Nat → Ty,
        types.1 = scheme.params.map (Ty.instanceBy generics) ∧
          types.2 = scheme.result.instanceBy generics) (instantiate scheme state) := by
  obtain ⟨params, result, after, table, outcome, lengths, opens⟩ := instantiate_opens state closed
  have step := serves.of_table (opens.settled serves.valid.settled) opens.extended
  have small := (opens.small (emptyInstances_scoped _)).2
  rw [outcome]
  refine .found ⟨step.1, step.2, ⟨fun ty member => small ty (List.mem_append_left _ member),
    small result (List.mem_append_right _ List.mem_cons_self)⟩, fun vars _ => ?_,
    fun vars meets types instanced => ?_⟩
  · exact ⟨_, (map_concat_eq lengths).mp (opens.filled (fun _ _ found => found) vars .generic)⟩
  · obtain ⟨types, last⟩ := types
    obtain ⟨generics, rfl, rfl⟩ := instanced
    obtain ⟨other, agree, _, same⟩ := opens.realized (emptyInstances_scoped _)
      fun _ _ impossible => nomatch impossible
    obtain ⟨paramsSame, resultSame⟩ := (map_concat_eq lengths).mp same
    have met := meets.of_agree serves.valid agree
    exact ⟨other, agree, ⟨opens.free met.solves, met.inputs⟩, Prod.ext paramsSame resultSame⟩

theorem unify_decides (serves : state.Serves known) {expected found : Ty}
    (expectedSmall : expected.Scoped state.table.size) (foundSmall : found.Scoped state.table.size)
    (culprit : Unit → Culprit) :
    Decides known slots state
      (fun vars _ => expected.fill vars .generic = found.fill vars .generic)
      (unify expected found culprit state) := by
  have unifying := VarTable.unify_unifying serves.valid.settled expectedSmall foundSmall
  rw [unify]
  rcases run : state.table.unify expected found with ⟨table, outcome⟩
  rw [run] at unifying
  cases outcome with
  | ok _ =>
      have step := serves.of_table unifying.settled unifying.extended
      have solves := fun vars : Nat → Ty => unifying.accepted rfl vars .generic
      refine .found ⟨step.1, step.2, trivial, fun vars meets => ?_,
        fun vars meets _ equal => ⟨vars, .refl _ vars, ⟨?_, meets.inputs⟩, rfl⟩⟩
      · exact VarTable.equalizes_singleton.mp ((solves vars).mp meets.solves).2
      · exact (solves vars).mpr ⟨meets.solves, VarTable.equalizes_singleton.mpr equal⟩
  | error error =>
      refine .refuted fun vars meets _ equal => ?_
      exact unifying.rejected rfl vars meets.solves (VarTable.equalizes_singleton.mpr equal)

theorem head_decides (serves : state.Serves known) (small : ty.Scoped state.table.size) :
    Decides known slots state (fun vars outcome => outcome = ty.fill vars .generic)
      (head ty state) := by
  have redirects := VarTable.compressHead_redirects serves.valid.settled ty
  have step := serves.of_table redirects.settled redirects.extends
  obtain ⟨general, solved⟩ := serves.valid.settled
  refine .found ⟨step.1, step.2, (solved.head small).1.mono redirects.extends.size,
    fun vars meets => (redirects.solves.mp meets.solves).head ty,
    fun vars meets outcome same => ?_⟩
  refine ⟨vars, .refl _ vars, ⟨redirects.solves.mpr meets.solves, meets.inputs⟩, ?_⟩
  rw [same]
  exact meets.solves.head ty

theorem addInputs_told (serves : state.Serves known) {slot : Nat} (small : slot < Expr.maxArguments)
    (outside : state.inputs.size ≤ slot) :
    let grown := state.addInputs (slot + 1 - state.inputs.size)
    grown.Serves known ∧ state.Extends grown ∧ slot < grown.inputs.size ∧
      ∀ vars, state.Meets slots vars → ∃ other,
        Ty.AgreeBelow state.table.size vars other ∧ grown.Meets slots other := by
  intro grown
  have steps := addInputs_steps serves.valid (slot + 1 - state.inputs.size)
  obtain ⟨_, _, lengths, _⟩ :=
    VarTable.freshList_spec (slot + 1 - state.inputs.size) serves.valid.settled
  have inputs : grown.inputs = state.inputs ++
      (state.table.freshList (slot + 1 - state.inputs.size)).1.toArray := rfl
  have size : grown.inputs.size = slot + 1 := by
    have added : grown.inputs.size = state.inputs.size +
        (state.table.freshList (slot + 1 - state.inputs.size)).1.length := Array.size_append
    omega
  refine ⟨⟨steps.valid, ?_, fun other inside => ?_⟩, steps.extended, by omega,
    fun vars meets => ?_⟩
  · have all := serves.all
    omega
  · exact Or.inr (by omega)
  · let wanted := (List.range (slot + 1 - state.inputs.size)).map
      fun offset => slots (state.inputs.size + offset)
    have many : wanted.length = slot + 1 - state.inputs.size := by simp [wanted]
    obtain ⟨other, agree, same⟩ := @VarTable.freshList_realized state.table vars wanted
    have met := meets.of_agree serves.valid agree
    rw [many] at same
    refine ⟨other, agree, (VarTable.freshList_solves _).mpr met.solves, fun place ty found => ?_⟩
    rw [inputs, Array.getElem?_append] at found
    split at found
    · exact met.inputs place ty found
    · rename_i beyond
      rw [List.getElem?_toArray] at found
      have listed := congrArg (fun types => types[place - state.inputs.size]?) same
      simp only [List.getElem?_map, found, Option.map_some, wanted] at listed
      obtain ⟨offset, ranged, equal⟩ := Option.map_eq_some_iff.mp listed.symm
      obtain ⟨_, rfl⟩ := List.getElem?_eq_some_iff.mp ranged
      rw [← equal, List.getElem_range]
      congr 1
      omega

theorem input_decides (serves : state.Serves known) (slot : Nat) :
    Decides known slots state (fun _ ty => Readable known slot ∧ ty = slots slot)
      (input slot state) := by
  rw [input]
  cases present : state.inputs[slot]? with
  | some ty =>
      have inside := (Array.getElem?_eq_some_iff.mp present).1
      refine .found ⟨serves, .refl state, serves.valid.inputs slot ty present, fun vars meets => ?_,
        fun vars meets outcome same => ?_⟩
      · exact ⟨serves.only slot inside, meets.inputs slot ty present⟩
      · exact ⟨vars, .refl _ vars, meets, (meets.inputs slot ty present).trans same.2.symm⟩
  | none =>
      have outside := Array.getElem?_eq_none_iff.mp present
      have all := serves.all
      simp only
      by_cases large : slot ≥ Expr.maxArguments
      · rw [if_pos large]
        refine .refuted fun vars meets outcome reached => ?_
        rcases reached.1 with isKnown | small <;> omega
      · rw [if_neg large]
        obtain ⟨grownServes, extended, inside, realized⟩ :=
          addInputs_told serves (Nat.lt_of_not_le large) outside
        have added := Array.getElem?_eq_getElem inside
        rw [added]
        refine .found ⟨grownServes, extended, grownServes.valid.inputs slot _ added,
          fun vars meets => ⟨Or.inr (Nat.lt_of_not_le large), meets.inputs slot _ added⟩,
          fun vars meets ty reached => ?_⟩
        obtain ⟨other, agree, met⟩ := realized vars meets
        exact ⟨other, agree, met, (met.inputs slot _ added).trans reached.2.symm⟩

end Infer

end NodeGraph
