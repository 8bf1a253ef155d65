import Mathlib.Algebra.Group.End
import Mathlib.Data.Fintype.Sum
import Mathlib.Data.List.GetD
import NodeGraph.Proofs.Typing.MostGeneral
import NodeGraph.Proofs.Typing.Opening

/-!
Canonical forms. Generics take the place of variables by first appearance, so types generalize alike
exactly if they differ in the names of their unbound variables, and new variables for the generics
give back the types up to such names.
-/

namespace NodeGraph

namespace Ty

mutual

def numbers : Ty → List Nat
  | .base _ | .var _ => []
  | .array element => element.numbers
  | .function params result => numbersList params ++ result.numbers
  | .generic number => [number]

def numbersList : List Ty → List Nat
  | [] => []
  | ty :: rest => ty.numbers ++ numbersList rest

end

variable {vars other generics more : Nat → Ty} {place : Nat → Nat}

theorem mem_numbersList {types : List Ty} {number : Nat} :
    number ∈ numbersList types ↔ ∃ ty ∈ types, number ∈ ty.numbers := by
  induction types with
  | nil => simp [numbersList]
  | cons ty rest ih => rw [numbersList, List.mem_append, ih, List.exists_mem_cons_iff]

theorem mem_numbers_function {number : Nat} {params : List Ty} {result : Ty} :
    number ∈ (Ty.function params result).numbers ↔
      (∃ param ∈ params, number ∈ param.numbers) ∨ number ∈ result.numbers := by
  rw [numbers, List.mem_append, mem_numbersList]

theorem fill_congr_all (ty : Ty) (agree : ∀ id ∈ ty.vars, vars id = other id)
    (agreeGenerics : ∀ number ∈ ty.numbers, generics number = more number) :
    ty.fill vars generics = ty.fill other more := by
  induction ty using induction with
  | base kind => rfl
  | array element ih => rw [fill_array, fill_array, ih agree agreeGenerics]
  | function params result params_ih ih =>
      rw [fill_function, fill_function,
        ih (fun id mentioned => agree id (mem_vars_function.mpr (Or.inr mentioned)))
          fun number mentioned => agreeGenerics number (mem_numbers_function.mpr (Or.inr mentioned))]
      congr 1
      refine List.map_congr_left fun param member => params_ih param member ?_ ?_
      · exact fun id mentioned =>
          agree id (mem_vars_function.mpr (Or.inl ⟨param, member, mentioned⟩))
      · exact fun number mentioned =>
          agreeGenerics number (mem_numbers_function.mpr (Or.inl ⟨param, member, mentioned⟩))
  | «var» id => exact agree id (mem_vars_var.mpr rfl)
  | generic number => exact agreeGenerics number (List.mem_singleton_self number)

theorem mem_numbers_fill {number id : Nat} (ty : Ty) (mentioned : id ∈ ty.vars)
    (inside : number ∈ (vars id).numbers) : number ∈ (ty.fill vars generics).numbers := by
  induction ty using induction with
  | base kind => cases mentioned
  | array element ih => exact ih mentioned
  | function params result params_ih ih =>
      rw [fill_function, mem_numbers_function]
      rcases mem_vars_function.mp mentioned with ⟨param, member, found⟩ | found
      · exact Or.inl ⟨_, List.mem_map_of_mem member, params_ih param member found⟩
      · exact Or.inr (ih found)
  | «var» other =>
      rw [mem_vars_var] at mentioned
      exact mentioned ▸ inside
  | generic number => cases mentioned

theorem rename_rename (ty : Ty) (further : Nat → Nat) :
    (ty.rename place).rename further = ty.rename (fun id => further (place id)) :=
  fill_fill ty

theorem mem_vars_rename {ty : Ty} {id : Nat} (mentioned : id ∈ ty.vars) :
    place id ∈ (ty.rename place).vars :=
  (mem_vars_fill ty).mpr ⟨id, mentioned, mem_vars_var.mpr rfl⟩

theorem fill_eq_self {ty : Ty} (same : ty.fill vars .generic = ty) :
    ∀ id ∈ ty.vars, vars id = .var id := by
  induction ty using induction with
  | base kind => exact fun _ mentioned => by cases mentioned
  | array element ih =>
      rw [fill_array, Ty.array.injEq] at same
      exact ih same
  | function params result params_ih ih =>
      rw [fill_function, Ty.function.injEq] at same
      obtain ⟨params_same, result_same⟩ := same
      have each : ∀ param ∈ params, param.fill vars .generic = param :=
        List.map_inj_left.mp (params_same.trans (List.map_id params).symm)
      intro id mentioned
      rcases mem_vars_function.mp mentioned with ⟨param, member, found⟩ | found
      · exact params_ih param member (each param member) id found
      · exact ih result_same id found
  | «var» inner =>
      rw [fill_var] at same
      intro id mentioned
      rw [mem_vars_var.mp mentioned, same]
  | generic number => exact fun _ mentioned => by cases mentioned

theorem rename_eq_self {ty : Ty} (same : ty.rename place = ty) : ∀ id ∈ ty.vars, place id = id :=
  fun id mentioned => Ty.var.inj (fill_eq_self same id mentioned)

/-- A variable's place among some names, read off in other ones. -/
def translate (names others : List Nat) (id : Nat) : Nat := others.getD (names.idxOf id) 0

theorem translate_self {names : List Nat} {id : Nat} (member : id ∈ names) :
    translate names names id = id := by
  have inside := List.idxOf_lt_length_of_mem member
  rw [translate, List.getD_eq_getElem _ _ inside, List.getElem_idxOf inside]

variable {types others : List Ty}

theorem map_unname (plain : ∀ ty ∈ types, ty.numbers = []) (names : List Nat) :
    (nameVarsList [] types).1.map (instanceBy fun number => .var (names.getD number 0)) =
      types.map (rename (translate (nameVarsList [] types).2 names)) := by
  obtain ⟨_, filled⟩ := nameVarsList_spec [] types
  rw [filled _ List.prefix_rfl, List.map_map]
  refine List.map_congr_left fun ty member => ?_
  rw [Function.comp_apply, instanceBy, fill_fill]
  refine fill_congr_all ty (fun _ _ => rfl) fun number mentioned => ?_
  simp [plain ty member] at mentioned

theorem map_translate (plain : ∀ ty ∈ types, ty.numbers = [])
    (othersPlain : ∀ ty ∈ others, ty.numbers = [])
    (same : (nameVarsList [] types).1 = (nameVarsList [] others).1) :
    types.map (rename (translate (nameVarsList [] types).2 (nameVarsList [] others).2)) =
      others := by
  rw [← map_unname plain, same, map_unname othersPlain]
  refine (List.map_congr_left fun ty member => ?_).trans (List.map_id others)
  rw [rename_congr fun id mentioned => translate_self (mem_nameVarsList [] others member mentioned)]
  exact fill_self ty

theorem exists_renaming (plain : ∀ ty ∈ types, ty.numbers = [])
    (othersPlain : ∀ ty ∈ others, ty.numbers = [])
    (same : (nameVarsList [] types).1 = (nameVarsList [] others).1) :
    ∃ place, Set.InjOn place {id | ∃ ty ∈ types, id ∈ ty.vars} ∧
      types.map (rename place) = others := by
  have there := map_translate plain othersPlain same
  have back := map_translate othersPlain plain same.symm
  generalize (nameVarsList [] types).2 = names at there back
  generalize (nameVarsList [] others).2 = more at there back
  have inverse : Set.LeftInvOn (translate more names) (translate names more)
      {id | ∃ ty ∈ types, id ∈ ty.vars} := by
    -- There and back again, each type stays as it is, and so do its variables.
    rintro id ⟨ty, member, mentioned⟩
    have around := (congrArg (List.map (rename (translate more names))) there).trans back
    rw [List.map_map] at around
    have each := List.map_inj_left.mp (around.trans (List.map_id types).symm) ty member
    rw [Function.comp_apply, rename_rename] at each
    exact rename_eq_self each id mentioned
  exact ⟨_, inverse.injOn, there⟩

end Ty

namespace VarTable

variable {table later : VarTable} {general : Nat → Ty} {types others : List Ty}

structure Plain (table : VarTable) (ty : Ty) : Prop where
  small : ty.Scoped table.size
  numbers : (table.resolve ty).numbers = []

theorem Settled.unbound_resolve (settled : table.Settled) {ty : Ty} (small : ty.Scoped table.size)
    {id : Nat} (mentioned : id ∈ (table.resolve ty).vars) : table.Unbound id := by
  obtain ⟨general, solved⟩ := settled
  rw [solved.resolve small] at mentioned
  exact solved.unbound_fill small mentioned

theorem exists_bijection {place : Nat → Nat} {ids : Set Nat} (injective : Set.InjOn place ids)
    (unbound : ∀ id ∈ ids, table.Unbound id ∧ table.Unbound (place id)) :
    ∃ bijection : Equiv.Perm Nat,
      (∀ id, table.Unbound (bijection id) ↔ table.Unbound id) ∧
        ∀ id ∈ ids, bijection id = place id := by
  classical
  let free := (Finset.range table.size).filter table.Unbound
  have mem_free : ∀ {id : Nat}, id ∈ free ↔ table.Unbound id := by
    intro id
    simp only [free, Finset.mem_filter, Finset.mem_range, and_iff_right_iff_imp]
    exact Unbound.lt
  have maps : Set.MapsTo (fun id : free => place id) {id | id.1 ∈ ids} free :=
    fun id member => mem_free.mpr (unbound id member).2
  have distinct : Set.InjOn (fun id : free => place id) {id | id.1 ∈ ids} :=
    fun id member other otherMember same => Subtype.ext (injective member otherMember same)
  obtain ⟨among, agree⟩ := maps.exists_equiv_extend_of_card_eq (Fintype.card_coe free) distinct
  refine ⟨Equiv.Perm.ofSubtype among, fun id => ?_, fun id member => ?_⟩
  · by_cases inside : id ∈ free
    · rw [Equiv.Perm.ofSubtype_apply_of_mem among inside, ← mem_free, ← mem_free]
      exact iff_of_true (among ⟨id, inside⟩).2 inside
    · rw [Equiv.Perm.ofSubtype_apply_of_not_mem among inside]
  · have inside := mem_free.mpr (unbound id member).1
    rw [Equiv.Perm.ofSubtype_apply_of_mem among inside]
    exact agree ⟨id, inside⟩ member

theorem Settled.generalizeAll_eq_iff (settled : table.Settled)
    (plain : ∀ ty ∈ types, table.Plain ty) (othersPlain : ∀ ty ∈ others, table.Plain ty) :
    table.generalizeAll types = table.generalizeAll others ↔
      ∃ bijection : Equiv.Perm Nat, (∀ id, table.Unbound (bijection id) ↔ table.Unbound id) ∧
        (types.map table.resolve).map (Ty.rename bijection) = others.map table.resolve := by
  have numbers : ∀ {types : List Ty}, (∀ ty ∈ types, table.Plain ty) →
      ∀ ty ∈ types.map table.resolve, ty.numbers = [] := by
    intro types plain
    rw [List.forall_mem_map]
    exact fun ty member => (plain ty member).numbers
  have unbound : ∀ {types : List Ty}, (∀ ty ∈ types, table.Plain ty) →
      ∀ ty ∈ types.map table.resolve, ∀ id ∈ ty.vars, table.Unbound id := by
    intro types plain
    rw [List.forall_mem_map]
    exact fun ty member id => settled.unbound_resolve (plain ty member).small
  constructor
  · intro same
    obtain ⟨place, injective, renamed⟩ :=
      Ty.exists_renaming (numbers plain) (numbers othersPlain) same
    have free : ∀ id, (∃ ty ∈ types.map table.resolve, id ∈ ty.vars) →
        table.Unbound id ∧ table.Unbound (place id) := by
      rintro id ⟨ty, member, mentioned⟩
      refine ⟨unbound plain ty member id mentioned, ?_⟩
      refine unbound othersPlain _ ?_ _ (Ty.mem_vars_rename mentioned)
      exact renamed ▸ List.mem_map_of_mem member
    obtain ⟨bijection, kept, agree⟩ := exists_bijection injective free
    refine ⟨bijection, kept, Eq.trans (List.map_congr_left fun ty member => ?_) renamed⟩
    exact Ty.rename_congr fun id mentioned => agree id ⟨ty, member, mentioned⟩
  · rintro ⟨bijection, _, renamed⟩
    rw [generalizeAll, generalizeAll, ← renamed, ← List.map_nil (f := bijection),
      nameVarsList_rename bijection.injective, List.map_nil]

/-- The variables for generics are different ones, minted since the table had its size and unbound
up to now. -/
structure Minted (first : Nat) (instances : Instances) (table : VarTable) : Prop where
  size : first ≤ table.size
  minted : ∀ {number : Nat} {unknown : Ty}, instances.lookup number = some unknown →
    ∃ id, unknown = .var id ∧ first ≤ id ∧ table.Unbound id
  distinct : ∀ {number other id : Nat}, instances.lookup number = some (.var id) →
    instances.lookup other = some (.var id) → number = other

theorem Minted.fresh {size : Nat} {instances : Instances} (minted : Minted size instances table)
    (number : Nat) : Minted size ((number, table.fresh.1) :: instances) table.fresh.2 := by
  have last : table.fresh.2.Unbound table.size := ⟨0, by rw [fresh_slots, if_pos rfl]⟩
  have old : ∀ {id : Nat}, table.Unbound id → table.fresh.2.Unbound id := by
    rintro id ⟨rank, found⟩
    refine ⟨rank, ?_⟩
    rw [fresh_slots, if_neg (Nat.ne_of_lt (Unbound.lt ⟨rank, found⟩)), found]
  have apart : ∀ {other : Nat}, instances.lookup other ≠ some (.var table.size) := by
    intro other found
    obtain ⟨id, same, _, unbound⟩ := minted.minted found
    cases same
    exact Nat.lt_irrefl _ unbound.lt
  refine ⟨Nat.le_trans minted.size (fresh_extends table).size, fun found => ?_,
    fun first second => ?_⟩
  · rw [List.lookup_cons] at found
    split at found
    · cases found
      exact ⟨table.size, rfl, minted.size, last⟩
    · obtain ⟨id, same, new, unbound⟩ := minted.minted found
      exact ⟨id, same, new, old unbound⟩
  · rw [List.lookup_cons] at first second
    split at first <;> split at second
    · rename_i _ here _ there
      rw [beq_iff_eq.mp here, beq_iff_eq.mp there]
    · cases first
      exact absurd second apart
    · cases second
      exact absurd first apart
    · exact minted.distinct first second

/-- What an instantiation leaves: it has minted variables for all generics it has met. -/
structure Mints (size : Nat) (instances : Instances) (numbers : List Nat) (after : Instances)
    (later : VarTable) : Prop where
  minted : Minted size after later
  kept : instances.Kept after
  known : ∀ number ∈ numbers, ∃ unknown, after.lookup number = some unknown

theorem Mints.nothing {size : Nat} {instances : Instances} (minted : Minted size instances table) :
    Mints size instances [] instances table :=
  ⟨minted, fun _ _ found => found, fun _ member => by cases member⟩

theorem Mints.append {size : Nat} {instances between after : Instances} {numbers more : List Nat}
    {middle : VarTable} (first : Mints size instances numbers between middle)
    (second : Mints size between more after later) :
    Mints size instances (numbers ++ more) after later := by
  refine ⟨second.minted, fun number unknown found => second.kept _ _ (first.kept _ _ found),
    fun number member => ?_⟩
  rcases List.mem_append.mp member with early | late
  · obtain ⟨unknown, found⟩ := first.known number early
    exact ⟨unknown, second.kept _ _ found⟩
  · exact second.known number late

mutual

theorem Minted.instantiateWith {size : Nat} {instances : Instances} {table : VarTable}
    (minted : Minted size instances table) (ty : Ty) :
    Mints size instances ty.numbers (table.instantiateWith instances ty).2.1
      (table.instantiateWith instances ty).2.2 := by
  match ty with
  | .base kind =>
      simp only [VarTable.instantiateWith]
      exact .nothing minted
  | .array element =>
      rw [VarTable.instantiateWith]
      exact Minted.instantiateWith minted element
  | .function params result =>
      have first := Minted.instantiateListWith minted params
      rw [instantiateWith_function]
      exact first.append (Minted.instantiateWith first.minted result)
  | .var id =>
      simp only [VarTable.instantiateWith]
      exact .nothing minted
  | .generic number =>
      rw [VarTable.instantiateWith]
      cases found : instances.lookup number with
      | some unknown =>
          refine ⟨minted, fun _ _ known => known, fun other member => ⟨unknown, ?_⟩⟩
          rw [List.mem_singleton.mp member, found]
      | none =>
          have fresh : Opens table instances [.generic number] _ _ _ := Opens.unknown found
          refine ⟨minted.fresh number, fresh.kept, fun other member => ⟨table.fresh.1, ?_⟩⟩
          rw [List.mem_singleton.mp member, List.lookup_cons_self]

theorem Minted.instantiateListWith {size : Nat} {instances : Instances} {table : VarTable}
    (minted : Minted size instances table) (types : List Ty) :
    Mints size instances (Ty.numbersList types) (table.instantiateListWith instances types).2.1
      (table.instantiateListWith instances types).2.2 := by
  match types with
  | [] =>
      rw [VarTable.instantiateListWith]
      exact .nothing minted
  | ty :: rest =>
      have first := Minted.instantiateWith minted ty
      rw [instantiateListWith_cons]
      exact first.append (Minted.instantiateListWith first.minted rest)

end

theorem exists_injective {place : Nat → Nat} {ids : Set Nat} (injective : Set.InjOn place ids)
    {bound : Nat} (small : ∀ id ∈ ids, place id < bound) :
    ∃ wide : Nat → Nat, Function.Injective wide ∧ ∀ id ∈ ids, wide id = place id := by
  classical
  refine ⟨fun id => if id ∈ ids then place id else bound + id, fun id other same => ?_,
    fun id member => if_pos member⟩
  by_cases member : id ∈ ids <;> by_cases otherMember : other ∈ ids
  · simp only [member, otherMember, if_true] at same
    exact injective member otherMember same
  · simp only [member, otherMember, if_true, if_false] at same
    have below := small id member
    omega
  · simp only [member, otherMember, if_true, if_false] at same
    have below := small other otherMember
    omega
  · simp only [member, otherMember, if_false] at same
    omega

theorem Settled.generalizeAll_of_unbound (settled : table.Settled)
    (unbound : ∀ ty ∈ types, ∀ id ∈ ty.vars, table.Unbound id) :
    table.generalizeAll types = (Ty.nameVarsList [] types).1 := by
  obtain ⟨general, solved⟩ := settled
  have resolved : types.map table.resolve = types := by
    refine (List.map_congr_left fun ty member => ?_).trans (List.map_id types)
    have small : ty.Scoped table.size := fun id mentioned => (unbound ty member id mentioned).lt
    rw [solved.resolve small, solved.fill_of_unbound (unbound ty member), id]
  rw [generalizeAll, resolved]

theorem varsList_nameVarsList (types : List Ty) :
    Ty.varsList (Ty.nameVarsList [] types).1 = [] := by
  obtain ⟨_, named⟩ := Ty.nameVarsList_spec [] types
  rw [named _ List.prefix_rfl, Ty.varsList_eq, List.flatMap_eq_nil_iff, List.forall_mem_map]
  intro ty _
  refine List.eq_nil_iff_forall_not_mem.mpr fun id mentioned => ?_
  obtain ⟨_, _, inside⟩ := (Ty.mem_vars_fill _).mp mentioned
  simp [Ty.vars] at inside

theorem instantiateListWith_nameVarsList (table : VarTable)
    (plain : ∀ ty ∈ types, ty.numbers = []) {run : List Ty × Instances × VarTable}
    (ran : table.instantiateListWith [] (Ty.nameVarsList [] types).1 = run) :
    ∃ place : Nat → Nat, Function.Injective place ∧
      (∀ ty ∈ types, ∀ id ∈ ty.vars, table.size ≤ place id ∧ run.2.2.Unbound (place id)) ∧
      run.1 = types.map (Ty.rename place) := by
  have nothing : Minted table.size [] table :=
    ⟨Nat.le_refl _, fun found => (by cases found), fun found => (by cases found)⟩
  have mints := nothing.instantiateListWith (Ty.nameVarsList [] types).1
  have opens := opens_instantiateListWith table [] _ (varsList_nameVarsList types)
  obtain ⟨_, named⟩ := Ty.nameVarsList_spec [] types
  replace named := named _ List.prefix_rfl
  have listed : ∀ ty ∈ types, ∀ id ∈ ty.vars, id ∈ (Ty.nameVarsList [] types).2 :=
    fun ty member id mentioned => Ty.mem_nameVarsList [] types member mentioned
  rw [ran] at mints opens
  obtain ⟨opened, after, later⟩ := run
  generalize (Ty.nameVarsList [] types).2 = names at named listed
  rw [named] at mints opens
  -- Every variable has a generic, and that has a minted variable of its own.
  have each : ∀ id, (∃ ty ∈ types, id ∈ ty.vars) →
      ∃ fresh, after.lookup (names.idxOf id) = some (.var fresh) ∧ table.size ≤ fresh ∧
        later.Unbound fresh := by
    rintro id ⟨ty, member, mentioned⟩
    have inside : names.idxOf id ∈ Ty.numbersList
        (types.map (Ty.fill (fun id => .generic (names.idxOf id)) .generic)) :=
      Ty.mem_numbersList.mpr ⟨_, List.mem_map_of_mem member,
        Ty.mem_numbers_fill ty mentioned (List.mem_singleton_self _)⟩
    obtain ⟨unknown, known⟩ := mints.known _ inside
    obtain ⟨fresh, rfl, new, unbound⟩ := mints.minted.minted known
    exact ⟨fresh, known, new, unbound⟩
  choose! place known new unbound using each
  have apart : Set.InjOn place {id | ∃ ty ∈ types, id ∈ ty.vars} := by
    rintro id ⟨ty, member, mentioned⟩ other ⟨otherTy, otherMember, otherMentioned⟩ same
    have first := known id ⟨ty, member, mentioned⟩
    have second := known other ⟨otherTy, otherMember, otherMentioned⟩
    rw [← same] at second
    exact (List.idxOf_inj (listed ty member id mentioned)).mp (mints.minted.distinct first second)
  obtain ⟨wide, injective, agree⟩ := exists_injective apart fun id member => (unbound id member).lt
  refine ⟨wide, injective, fun ty member id mentioned => ?_, ?_⟩
  · rw [agree id ⟨ty, member, mentioned⟩]
    exact ⟨new id ⟨ty, member, mentioned⟩, unbound id ⟨ty, member, mentioned⟩⟩
  · have filled := opens.filled (fun _ _ found => found) .var .generic
    rw [List.map_congr_left fun ty _ => Ty.fill_self ty, List.map_id', List.map_map] at filled
    refine filled.trans (List.map_congr_left fun ty member => ?_)
    rw [Function.comp_apply, Ty.instanceBy, Ty.fill_fill]
    refine Ty.fill_congr_all ty (fun id mentioned => ?_) fun number mentioned => ?_
    · have found := known id ⟨ty, member, mentioned⟩
      rw [Ty.fill_generic, Instances.under, found, agree id ⟨ty, member, mentioned⟩]
      rfl
    · simp [plain ty member] at mentioned

theorem Settled.instantiateAll_generalizeAll (settled : table.Settled)
    (plain : ∀ ty ∈ types, table.Plain ty) {opened : List Ty}
    (ran : table.instantiateAll (table.generalizeAll types) = (opened, later)) :
    ∃ place : Nat → Nat, Function.Injective place ∧
      (∀ ty ∈ types, ∀ id ∈ (table.resolve ty).vars,
        table.size ≤ place id ∧ later.Unbound (place id)) ∧
      opened = (types.map table.resolve).map (Ty.rename place) ∧
      later.generalizeAll opened = table.generalizeAll types := by
  have laterSettled := settled_instantiateListWith settled [] (table.generalizeAll types)
  have numbers : ∀ ty ∈ types.map table.resolve, ty.numbers = [] :=
    List.forall_mem_map.mpr fun ty member => (plain ty member).numbers
  obtain ⟨place, injective, minted, renamed⟩ := instantiateListWith_nameVarsList table numbers rfl
  rw [instantiateAll] at ran
  cases ran
  rw [← generalizeAll] at minted renamed
  refine ⟨place, injective, List.forall_mem_map.mp minted, renamed, ?_⟩
  rw [laterSettled.generalizeAll_of_unbound, renamed, ← List.map_nil (f := place),
    nameVarsList_rename injective, ← generalizeAll]
  intro ty member id mentioned
  rw [renamed] at member
  obtain ⟨before, listed, rfl⟩ := List.mem_map.mp member
  obtain ⟨inner, inside, found⟩ := (Ty.mem_vars_fill before).mp mentioned
  rw [Ty.mem_vars_var.mp found]
  exact (minted before listed inner inside).2

theorem generalizeAll_singleton (ty : Ty) :
    table.generalizeAll [ty] = [table.generalize ty] := by
  rw [generalizeAll, generalize, List.map_singleton, Ty.nameVarsList_cons]
  rfl

theorem instantiateAll_singleton (ty : Ty) :
    table.instantiateAll [ty] = ([(table.instantiate ty).1], (table.instantiate ty).2) := by
  rw [instantiateAll, instantiate, instantiateListWith_cons]
  simp only [instantiateListWith]

/-- Generalized types are canonical forms, and instantiation inverts them. Types without generics
generalize alike exactly if some bijection between unbound variables takes one resolved type to the
other; what is generalized is instantiated with the resolved type up to different new variables,
which generalizes to the same again. So it is for lists, with one bijection and one renaming. -/
theorem Reachable.generalize_canonical (reachable : table.Reachable) :
    (∀ ty other : Ty, table.Plain ty → table.Plain other →
      (table.generalize ty = table.generalize other ↔
        ∃ bijection : Equiv.Perm Nat, (∀ id, table.Unbound (bijection id) ↔ table.Unbound id) ∧
          (table.resolve ty).rename bijection = table.resolve other)) ∧
    (∀ (ty opened : Ty) (later : VarTable), table.Plain ty →
      table.instantiate (table.generalize ty) = (opened, later) →
        ∃ place : Nat → Nat, Function.Injective place ∧
          (∀ id ∈ (table.resolve ty).vars, table.size ≤ place id ∧ later.Unbound (place id)) ∧
          opened = (table.resolve ty).rename place ∧
          later.generalize opened = table.generalize ty) ∧
    (∀ types others : List Ty, (∀ ty ∈ types, table.Plain ty) → (∀ ty ∈ others, table.Plain ty) →
      (table.generalizeAll types = table.generalizeAll others ↔
        ∃ bijection : Equiv.Perm Nat, (∀ id, table.Unbound (bijection id) ↔ table.Unbound id) ∧
          (types.map table.resolve).map (Ty.rename bijection) = others.map table.resolve)) ∧
    ∀ (types opened : List Ty) (later : VarTable), (∀ ty ∈ types, table.Plain ty) →
      table.instantiateAll (table.generalizeAll types) = (opened, later) →
        ∃ place : Nat → Nat, Function.Injective place ∧
          (∀ ty ∈ types, ∀ id ∈ (table.resolve ty).vars,
            table.size ≤ place id ∧ later.Unbound (place id)) ∧
          opened = (types.map table.resolve).map (Ty.rename place) ∧
          later.generalizeAll opened = table.generalizeAll types := by
  have settled := reachable.settled
  refine ⟨fun ty other plain otherPlain => ?_, fun ty opened later plain ran => ?_,
    fun types others => settled.generalizeAll_eq_iff,
    fun types opened later plain ran => settled.instantiateAll_generalizeAll plain ran⟩
  · have lists := settled.generalizeAll_eq_iff (List.forall_mem_singleton.mpr plain)
      (List.forall_mem_singleton.mpr otherPlain)
    simpa only [generalizeAll_singleton, List.map_singleton, List.cons.injEq, and_true] using lists
  · have listed : table.instantiateAll (table.generalizeAll [ty]) = ([opened], later) := by
      rw [generalizeAll_singleton, instantiateAll_singleton, ran]
    have lists := settled.instantiateAll_generalizeAll (List.forall_mem_singleton.mpr plain) listed
    simpa only [generalizeAll_singleton, List.map_singleton, List.cons.injEq, and_true,
      List.forall_mem_singleton] using lists

/-- The third variable and the class of the first two may change places. -/
theorem joined_generalize_canonical :
    joined.Reachable ∧
      (∃ bijection : Equiv.Perm Nat, (∀ id, joined.Unbound (bijection id) ↔ joined.Unbound id) ∧
        (Ty.function [.var 0] (.var 2)).rename bijection = .function [.var 2] (.var 0)) ∧
      (∃ place : Nat → Nat, Function.Injective place ∧ 3 ≤ place 0 ∧ 3 ≤ place 2 ∧
        (joined.instantiate (.function [.generic 0] (.generic 1))).1 =
          .function [.var (place 0)] (.var (place 2))) ∧
      ¬ ∃ bijection : Equiv.Perm Nat, (∀ id, joined.Unbound (bijection id) ↔ joined.Unbound id) ∧
        [Ty.var 0, .var 2].map (Ty.rename bijection) = [.var 0, .var 0] := by
  have plain : ∀ ty : Ty, (∀ id ∈ ty.vars, id < 3) → (joined.resolve ty).numbers = [] →
      joined.Plain ty := fun ty small numbers =>
    ⟨fun id mentioned => Nat.lt_of_lt_of_le (small id mentioned) (by decide +kernel), numbers⟩
  have plainVar : ∀ id, id < 3 → (joined.resolve (.var id)).numbers = [] →
      joined.Plain (.var id) := fun id small =>
    plain (.var id) fun inner mentioned => (Ty.mem_vars_var.mp mentioned).symm ▸ small
  have zero := plainVar 0 (by decide) rfl
  have one := plainVar 1 (by decide) rfl
  have two := plainVar 2 (by decide) rfl
  have first := plain (.function [.var 1] (.var 2)) (by decide) rfl
  have second := plain (.function [.var 2] (.var 0)) (by decide) rfl
  obtain ⟨alike, opens, alikeAll, _⟩ := Reachable.generalize_canonical joined_reachable
  refine ⟨joined_reachable, (alike _ _ first second).mp rfl, ?_, fun found => ?_⟩
  · obtain ⟨place, injective, new, opened, _⟩ := opens _ _ _ first rfl
    exact ⟨place, injective, (new 0 (by decide +kernel)).1, (new 2 (by decide +kernel)).1, opened⟩
  · have same := (alikeAll [.var 1, .var 2] [.var 0, .var 1]
      (List.forall_mem_cons.mpr ⟨one, List.forall_mem_singleton.mpr two⟩)
      (List.forall_mem_cons.mpr ⟨zero, List.forall_mem_singleton.mpr one⟩)).mpr found
    cases same

end VarTable

end NodeGraph
