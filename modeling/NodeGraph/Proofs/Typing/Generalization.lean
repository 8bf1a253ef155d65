import NodeGraph.Proofs.Typing.Unification

/-!
Generalization and instantiation. A generalized type has generics for the unbound variables of its
resolved form, so each of its instances is what some solution of the table makes of the type. An
instantiated type has variables for generics, so each solution makes an instance of it.
-/

namespace NodeGraph

namespace Ty

theorem nameOf_spec (names : List Nat) (id : Nat) :
    names <+: (nameOf names id).2 ∧ id ∈ (nameOf names id).2 ∧
      (nameOf names id).1 = (nameOf names id).2.idxOf id := by
  rw [nameOf]
  cases found : names.idxOf? id with
  | some number =>
      obtain ⟨inside, place, _⟩ := List.idxOf?_eq_some_iff.mp found
      have member : id ∈ names := List.mem_iff_getElem.mpr ⟨number, inside, place⟩
      refine ⟨List.prefix_rfl, member, ?_⟩
      rw [List.idxOf_eq_getD_idxOf?, found, Option.getD_some]
  | none =>
      have absent : id ∉ names := List.idxOf?_eq_none_iff.mp found
      refine ⟨List.prefix_append names [id], by simp, ?_⟩
      rw [List.idxOf_append_of_notMem absent]
      simp

theorem idxOf_of_prefix {names later : List Nat} (grows : names <+: later) {id : Nat}
    (member : id ∈ names) : later.idxOf id = names.idxOf id := by
  obtain ⟨more, rfl⟩ := grows
  exact List.idxOf_append_of_mem member

theorem nameVars_array (names : List Nat) (element : Ty) :
    nameVars names (.array element) =
      (.array (nameVars names element).1, (nameVars names element).2) := by
  rw [nameVars]

theorem nameVars_function (names : List Nat) (params : List Ty) (result : Ty) :
    nameVars names (.function params result) =
      (.function (nameVarsList names params).1
          (nameVars (nameVarsList names params).2 result).1,
        (nameVars (nameVarsList names params).2 result).2) := by
  rw [nameVars]

theorem nameVars_var (names : List Nat) (id : Nat) :
    nameVars names (.var id) = (.generic (nameOf names id).1, (nameOf names id).2) := by
  rw [nameVars]

theorem nameVarsList_cons (names : List Nat) (ty : Ty) (rest : List Ty) :
    nameVarsList names (ty :: rest) =
      ((nameVars names ty).1 :: (nameVarsList (nameVars names ty).2 rest).1,
        (nameVarsList (nameVars names ty).2 rest).2) := by
  rw [nameVarsList]

mutual

/-- Naming only adds names; a type has generics for its variables by their place among the names,
whatever is named later. -/
theorem nameVars_spec (names : List Nat) (ty : Ty) :
    names <+: (nameVars names ty).2 ∧
      ∀ later, (nameVars names ty).2 <+: later →
        (nameVars names ty).1 = ty.fill (fun id => .generic (later.idxOf id)) .generic := by
  match ty with
  | .base kind => simp [nameVars]
  | .array element =>
      obtain ⟨grows, filled⟩ := nameVars_spec names element
      rw [nameVars_array]
      exact ⟨grows, fun later extended => by rw [fill_array, filled later extended]⟩
  | .function params result =>
      obtain ⟨grows, filled⟩ := nameVarsList_spec names params
      obtain ⟨resultGrows, resultFilled⟩ :=
        nameVars_spec (nameVarsList names params).2 result
      rw [nameVars_function]
      refine ⟨grows.trans resultGrows, fun later extended => ?_⟩
      rw [fill_function, ← resultFilled later extended,
        ← filled later (resultGrows.trans extended)]
  | .var id =>
      obtain ⟨grows, member, number⟩ := nameOf_spec names id
      rw [nameVars_var]
      refine ⟨grows, fun later extended => ?_⟩
      rw [fill_var, idxOf_of_prefix extended member, ← number]
  | .generic number => simp [nameVars]

theorem nameVarsList_spec (names : List Nat) (types : List Ty) :
    names <+: (nameVarsList names types).2 ∧
      ∀ later, (nameVarsList names types).2 <+: later →
        (nameVarsList names types).1 =
          types.map (fill (fun id => .generic (later.idxOf id)) .generic) := by
  match types with
  | [] => exact ⟨List.prefix_rfl, fun _ _ => rfl⟩
  | ty :: rest =>
      obtain ⟨grows, filled⟩ := nameVars_spec names ty
      obtain ⟨restGrows, restFilled⟩ := nameVarsList_spec (nameVars names ty).2 rest
      rw [nameVarsList_cons]
      refine ⟨grows.trans restGrows, fun later extended => ?_⟩
      rw [List.map_cons, ← restFilled later extended, ← filled later (restGrows.trans extended)]

end

mutual

theorem mem_nameVars (names : List Nat) (ty : Ty) {id : Nat} (mentioned : id ∈ ty.vars) :
    id ∈ (nameVars names ty).2 := by
  match ty with
  | .base kind => cases mentioned
  | .array element =>
      rw [nameVars_array]
      exact mem_nameVars names element (mem_vars_array.mp mentioned)
  | .function params result =>
      obtain ⟨grows, _⟩ := nameVars_spec (nameVarsList names params).2 result
      rw [nameVars_function]
      rcases mem_vars_function.mp mentioned with ⟨param, member, inside⟩ | inside
      · exact grows.subset (mem_nameVarsList names params member inside)
      · exact mem_nameVars _ result inside
  | .var other =>
      rw [nameVars_var, mem_vars_var.mp mentioned]
      exact (nameOf_spec names other).2.1
  | .generic number => cases mentioned

theorem mem_nameVarsList (names : List Nat) (types : List Ty) {ty : Ty} (member : ty ∈ types)
    {id : Nat} (mentioned : id ∈ ty.vars) : id ∈ (nameVarsList names types).2 := by
  match types with
  | [] => cases member
  | first :: rest =>
      obtain ⟨grows, _⟩ := nameVarsList_spec (nameVars names first).2 rest
      rw [nameVarsList_cons]
      rcases List.mem_cons.mp member with same | later
      · exact grows.subset (mem_nameVars names first (same ▸ mentioned))
      · exact mem_nameVarsList _ rest later mentioned

end

end Ty

namespace VarTable

variable {table later : VarTable} {general : Nat → Ty}

theorem generalize_eq (ty : Ty) :
    ∃ names : List Nat, table.generalize ty =
      (table.resolve ty).fill (fun id => .generic (names.idxOf id)) .generic := by
  obtain ⟨_, filled⟩ := Ty.nameVars_spec [] (table.resolve ty)
  exact ⟨_, filled _ List.prefix_rfl⟩

theorem generalize_vars (ty : Ty) : (table.generalize ty).vars = [] := by
  obtain ⟨names, same⟩ := @generalize_eq table ty
  refine List.eq_nil_iff_forall_not_mem.mpr fun id mentioned => ?_
  rw [same] at mentioned
  obtain ⟨_, _, inside⟩ := (Ty.mem_vars_fill _).mp mentioned
  simp [Ty.vars] at inside

theorem Solved.solves_fill (solved : table.Solved general) (chosen generics : Nat → Ty) :
    table.Solves (fun id => (general id).fill chosen generics) generics where
  link := by
    intro id parent linked
    rw [solved.solves.link linked]
  bound := by
    intro id rank bound found
    rw [solved.solves.bound found, Ty.fill_fill]
    exact Ty.fill_congr bound fun _ _ => rfl

theorem Solved.resolve_fill (solved : table.Solved general) {ty : Ty}
    (small : ty.Scoped table.size) (chosen generics : Nat → Ty) :
    ty.fill (fun id => (general id).fill chosen generics) generics =
      (table.resolve ty).fill chosen generics := by
  rw [solved.resolve small, Ty.fill_fill]
  exact Ty.fill_congr ty fun _ _ => rfl

theorem Solved.exists_solution (solved : table.Solved general) {ty : Ty}
    (small : ty.Scoped table.size) (generics : Nat → Ty) :
    ∃ vars, table.Solves vars generics ∧
      ty.fill vars generics = (table.generalize ty).instanceBy generics := by
  obtain ⟨names, same⟩ := @generalize_eq table ty
  refine ⟨_, solved.solves_fill (fun id => generics (names.idxOf id)) generics, ?_⟩
  rw [solved.resolve_fill small, same, Ty.instanceBy, Ty.fill_fill]
  simp only [Ty.fill_generic]

end VarTable

def Instances.under (instances : Instances) (vars generics : Nat → Ty) (number : Nat) : Ty :=
  match instances.lookup number with
  | some unknown => unknown.fill vars generics
  | none => .generic number

/-- An assignment that makes the variables for generics what is wanted for them. -/
def Instances.Gives (instances : Instances) (vars wanted : Nat → Ty) : Prop :=
  ∀ number unknown, instances.lookup number = some unknown →
    unknown.fill vars .generic = wanted number

def Instances.Kept (instances after : Instances) : Prop :=
  ∀ number unknown, instances.lookup number = some unknown → after.lookup number = some unknown

def Instances.Scoped (instances : Instances) (size : Nat) : Prop :=
  ∀ number unknown, instances.lookup number = some unknown → unknown.Scoped size

namespace VarTable

variable {table middle later : VarTable} {instances between after : Instances}
  {types others opened more : List Ty}

/-- Types were opened: under a solution of the table, each is the instance that the solution makes
of the variables for its generics, and every instance is made by some solution. -/
structure Opens (table : VarTable) (instances : Instances) (types opened : List Ty)
    (after : Instances) (later : VarTable) : Prop where
  settled : table.Settled → later.Settled
  extended : table.Extends later
  free : ∀ {vars generics : Nat → Ty}, table.Solves vars generics → later.Solves vars generics
  kept : instances.Kept after
  small : instances.Scoped table.size →
    after.Scoped later.size ∧ ∀ ty ∈ opened, ty.Scoped later.size
  filled : ∀ {final : Instances}, after.Kept final → ∀ vars generics : Nat → Ty,
    opened.map (Ty.fill vars generics) = types.map (Ty.instanceBy (final.under vars generics))
  realized : instances.Scoped table.size → ∀ {vars wanted : Nat → Ty},
    instances.Gives vars wanted → ∃ other, Ty.AgreeBelow table.size vars other ∧
      after.Gives other wanted ∧
      opened.map (Ty.fill other .generic) = types.map (Ty.instanceBy wanted)

theorem Opens.nil : Opens table instances [] [] instances table where
  settled := id
  extended := .refl table
  free := id
  kept := fun _ _ found => found
  small := fun small => ⟨small, fun _ member => nomatch member⟩
  filled := fun _ _ _ => rfl
  realized := fun _ vars _ gives => ⟨vars, .refl _ vars, gives, rfl⟩

theorem Opens.append (first : Opens table instances types opened between middle)
    (second : Opens middle between others more after later) :
    Opens table instances (types ++ others) (opened ++ more) after later where
  settled := fun settled => second.settled (first.settled settled)
  extended := first.extended.trans second.extended
  free := fun solves => second.free (first.free solves)
  kept := fun number unknown found => second.kept _ _ (first.kept number unknown found)
  small := by
    intro small
    obtain ⟨betweenSmall, openedSmall⟩ := first.small small
    obtain ⟨afterSmall, moreSmall⟩ := second.small betweenSmall
    refine ⟨afterSmall, fun ty member => ?_⟩
    rcases List.mem_append.mp member with early | late
    · exact (openedSmall ty early).mono second.extended.size
    · exact moreSmall ty late
  filled := by
    intro final kept vars generics
    rw [List.map_append, List.map_append, second.filled kept,
      first.filled fun number unknown found => kept _ _ (second.kept number unknown found)]
  realized := by
    intro small vars wanted gives
    obtain ⟨betweenSmall, openedSmall⟩ := first.small small
    obtain ⟨early, agree, betweenGives, firstFilled⟩ := first.realized small gives
    obtain ⟨late, further, afterGives, secondFilled⟩ := second.realized betweenSmall betweenGives
    refine ⟨late, agree.trans further first.extended.size, afterGives, ?_⟩
    rw [List.map_append, List.map_append, secondFilled, ← firstFilled]
    congr 1
    exact List.map_congr_left fun ty member => (openedSmall ty member).fill_eq further

theorem Opens.base (kind : BaseType) :
    Opens table instances [.base kind] [.base kind] instances table := by
  refine ⟨id, .refl table, id, fun _ _ found => found,
    fun small => ⟨small, fun ty member => ?_⟩, ?_,
    fun _ vars _ gives => ⟨vars, .refl _ vars, gives, by simp [Ty.instanceBy]⟩⟩
  · rw [List.mem_singleton.mp member]
    exact Ty.scoped_base kind
  · intro final _ vars generics
    simp [Ty.instanceBy]

theorem Opens.array {element unknown : Ty}
    (opens : Opens table instances [element] [unknown] after later) :
    Opens table instances [.array element] [.array unknown] after later := by
  refine ⟨opens.settled, opens.extended, opens.free, opens.kept, fun small => ?_, ?_, ?_⟩
  · obtain ⟨afterSmall, openedSmall⟩ := opens.small small
    refine ⟨afterSmall, fun ty member => ?_⟩
    rw [List.mem_singleton.mp member]
    exact Ty.scoped_array.mpr (openedSmall _ List.mem_cons_self)
  · intro final kept vars generics
    have elements := (List.cons.inj (opens.filled kept vars generics)).1
    rw [List.map_singleton, List.map_singleton, Ty.fill_array, elements, Ty.instanceBy,
      Ty.instanceBy, Ty.fill_array]
  · intro small vars wanted gives
    obtain ⟨other, agree, afterGives, filled⟩ := opens.realized small gives
    have elements := (List.cons.inj filled).1
    refine ⟨other, agree, afterGives, ?_⟩
    rw [List.map_singleton, List.map_singleton, Ty.fill_array, elements, Ty.instanceBy,
      Ty.instanceBy, Ty.fill_array]

theorem Opens.function {params unknowns : List Ty} {result unknown : Ty}
    (opens : Opens table instances (params ++ [result]) (unknowns ++ [unknown]) after later)
    (lengths : unknowns.length = params.length) :
    Opens table instances [.function params result] [.function unknowns unknown] after later := by
  -- Both the instance that is made and the one that is wanted are read off the parts.
  have whole : ∀ vars generics instances : Nat → Ty,
      (unknowns ++ [unknown]).map (Ty.fill vars generics) =
        (params ++ [result]).map (Ty.instanceBy instances) →
      [Ty.function unknowns unknown].map (Ty.fill vars generics) =
        [Ty.function params result].map (Ty.instanceBy instances) := by
    intro vars generics instances filled
    rw [List.map_append, List.map_append] at filled
    obtain ⟨paramsFilled, resultFilled⟩ := List.append_inj filled (by simp [lengths])
    rw [List.map_singleton, List.map_singleton, Ty.fill_function, paramsFilled,
      (List.cons.inj resultFilled).1]
    simp only [Ty.instanceBy, Ty.fill_function]
    rfl
  refine ⟨opens.settled, opens.extended, opens.free, opens.kept, fun small => ?_, ?_, ?_⟩
  · obtain ⟨afterSmall, openedSmall⟩ := opens.small small
    refine ⟨afterSmall, fun ty member => ?_⟩
    rw [List.mem_singleton.mp member]
    exact Ty.scoped_function.mpr
      ⟨fun param listed => openedSmall param (List.mem_append_left _ listed),
        openedSmall unknown (List.mem_append_right _ List.mem_cons_self)⟩
  · exact fun kept vars generics => whole _ _ _ (opens.filled kept vars generics)
  · intro small vars wanted gives
    obtain ⟨other, agree, afterGives, filled⟩ := opens.realized small gives
    exact ⟨other, agree, afterGives, whole _ _ _ filled⟩

theorem Opens.known {number : Nat} {unknown : Ty}
    (found : instances.lookup number = some unknown) :
    Opens table instances [.generic number] [unknown] instances table := by
  refine ⟨id, .refl table, id, fun _ _ found => found,
    fun small => ⟨small, fun ty member => ?_⟩, ?_, ?_⟩
  · rw [List.mem_singleton.mp member]
    exact small number unknown found
  · intro final kept vars generics
    simp [Ty.instanceBy, Instances.under, kept number unknown found]
  · intro _ vars wanted gives
    exact ⟨vars, .refl _ vars, gives, by simp [Ty.instanceBy, gives number unknown found]⟩

theorem Opens.unknown {number : Nat} (free : instances.lookup number = none) :
    Opens table instances [.generic number] [table.fresh.1]
      ((number, table.fresh.1) :: instances) table.fresh.2 := by
  refine ⟨settled_fresh, fresh_extends table, fresh_solves.mpr, ?_, ?_, ?_, ?_⟩
  · intro other unknown known
    rw [List.lookup_cons]
    split
    · rename_i same
      rw [beq_iff_eq.mp same, free] at known
      cases known
    · exact known
  · intro small
    refine ⟨fun other unknown known => ?_, fun ty member => ?_⟩
    · rw [List.lookup_cons] at known
      split at known
      · cases known
        exact fresh_scoped table
      · exact (small other unknown known).mono (fresh_extends table).size
    · rw [List.mem_singleton.mp member]
      exact fresh_scoped table
  · intro final kept vars generics
    have known := kept number table.fresh.1 (by simp)
    simp [Ty.instanceBy, Instances.under, known]
  · intro small vars wanted gives
    refine ⟨_, .assign table.size vars (wanted number), fun other unknown known => ?_, ?_⟩
    · rw [List.lookup_cons] at known
      split at known
      · rename_i same
        cases known
        rw [fresh_fill_assign, beq_iff_eq.mp same]
      · rw [(small other unknown known).fill_eq (.assign table.size vars (wanted number)),
          gives other unknown known]
    · rw [List.map_singleton, List.map_singleton, fresh_fill_assign]
      simp [Ty.instanceBy]

mutual

theorem opens_instantiateWith (table : VarTable) (instances : Instances) (ty : Ty)
    (closed : ty.vars = []) :
    Opens table instances [ty] [(table.instantiateWith instances ty).1]
      (table.instantiateWith instances ty).2.1 (table.instantiateWith instances ty).2.2 := by
  match ty with
  | .base kind =>
      simp only [instantiateWith]
      exact .base kind
  | .array element =>
      rw [Ty.vars] at closed
      have opens := opens_instantiateWith table instances element closed
      rw [instantiateWith]
      exact opens.array
  | .function params result =>
      rw [Ty.vars, List.append_eq_nil_iff] at closed
      have paramsOpen := opens_instantiateListWith table instances params closed.1
      have resultOpens := opens_instantiateWith (table.instantiateListWith instances params).2.2
        (table.instantiateListWith instances params).2.1 result closed.2
      have lengths := congrArg List.length
        (paramsOpen.filled (fun _ _ found => found) .var .generic)
      rw [instantiateWith]
      exact (paramsOpen.append resultOpens).function (by simpa using lengths)
  | .var id => simp [Ty.vars] at closed
  | .generic number =>
      rw [instantiateWith]
      cases found : instances.lookup number with
      | some unknown => exact .known found
      | none => exact .unknown found

theorem opens_instantiateListWith (table : VarTable) (instances : Instances) (types : List Ty)
    (closed : Ty.varsList types = []) :
    Opens table instances types (table.instantiateListWith instances types).1
      (table.instantiateListWith instances types).2.1
      (table.instantiateListWith instances types).2.2 := by
  match types with
  | [] =>
      rw [instantiateListWith]
      exact .nil
  | ty :: rest =>
      rw [Ty.varsList, List.append_eq_nil_iff] at closed
      have first := opens_instantiateWith table instances ty closed.1
      have second := opens_instantiateListWith (table.instantiateWith instances ty).2.2
        (table.instantiateWith instances ty).2.1 rest closed.2
      rw [instantiateListWith]
      exact first.append second

end

end VarTable

end NodeGraph
