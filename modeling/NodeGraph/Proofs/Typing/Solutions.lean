import NodeGraph.Proofs.Topology.Search
import NodeGraph.Proofs.Typing.Substitution

/-!
Solutions of a table. A solution gives a type to every variable, so that links and bindings hold. A
table that unification builds is settled: it has a solution that leaves unbound variables as they
are, and this is what resolving computes. Occurs check and fuel are judged by that solution.
-/

namespace NodeGraph

namespace VarTable

variable {table : VarTable} {vars generics : Nat → Ty}

/-- A type for every variable that makes links and bindings hold. -/
structure Solves (table : VarTable) (vars generics : Nat → Ty) : Prop where
  link : ∀ {id parent : Nat}, table.slots[id]? = some (.link parent) → vars id = vars parent
  bound : ∀ {id rank : Nat} {ty : Ty}, table.slots[id]? = some (.root rank (some ty)) →
    vars id = ty.fill vars generics

def Unbound (table : VarTable) (root : Nat) : Prop :=
  ∃ rank, table.slots[root]? = some (.root rank none)

theorem Solves.follow (solves : table.Solves vars generics) (fuel id : Nat) :
    vars (table.follow fuel id) = vars id := by
  induction fuel generalizing id with
  | zero => rfl
  | succ fuel ih =>
      rw [VarTable.follow]
      split
      · rename_i parent linked
        rw [ih, solves.link linked]
      · rfl

theorem Solves.find (solves : table.Solves vars generics) (id : Nat) :
    vars (table.find id) = vars id :=
  solves.follow _ _

theorem binding?_eq_some {id : Nat} {ty : Ty} :
    table.binding? id = some ty ↔
      ∃ rank, table.slots[table.find id]? = some (.root rank (some ty)) := by
  rw [binding?]
  split
  · rename_i rank binding found
    simp [found]
  · rename_i other
    simp only [reduceCtorEq, false_iff]
    rintro ⟨rank, found⟩
    exact other _ _ found

theorem Solves.binding? (solves : table.Solves vars generics) {id : Nat} {ty : Ty}
    (found : table.binding? id = some ty) : vars id = ty.fill vars generics := by
  obtain ⟨rank, slot⟩ := binding?_eq_some.mp found
  rw [← solves.find id, solves.bound slot]

theorem Solves.head (solves : table.Solves vars generics) (ty : Ty) :
    (table.head ty).fill vars generics = ty.fill vars generics := by
  have general : ∀ fuel ty,
      (table.headWithin fuel ty).fill vars generics = ty.fill vars generics := by
    intro fuel
    induction fuel with
    | zero =>
        intro ty
        rw [headWithin]
        exact fun _ _ impossible => by cases impossible
    | succ fuel ih =>
        intro ty
        cases ty with
        | «var» id =>
            rw [headWithin]
            split
            · rename_i found
              rw [ih, Ty.fill_var, solves.binding? found]
            · rw [Ty.fill_var, Ty.fill_var, solves.find]
        | _ =>
            rw [headWithin]
            exact fun _ _ _ impossible => by cases impossible
  exact general _ ty

/-- The table has no cycles, and `general` is its solution that leaves unbound variables alone. -/
structure Solved (table : VarTable) (general : Nat → Ty) : Prop where
  linked : ∀ {id parent : Nat}, table.slots[id]? = some (.link parent) → parent < table.size
  forest : ∃ height : Nat → Nat, ∀ id parent : Nat,
    table.slots[id]? = some (.link parent) → height id < height parent
  bound : ∀ {id rank : Nat} {ty : Ty}, table.slots[id]? = some (.root rank (some ty)) →
    ty.Scoped table.size ∧ ty.isVar = false
  solves : table.Solves general .generic
  unbound : ∀ {root : Nat}, table.Unbound root → general root = .var root
  range : ∀ {id : Nat}, id < table.size → ∀ other ∈ (general id).vars, table.Unbound other
  outside : ∀ {id : Nat}, table.size ≤ id → general id = .var id

def Settled (table : VarTable) : Prop := ∃ general, table.Solved general

theorem settled_empty : VarTable.empty.Settled := by
  have nothing : ∀ (id : Nat) (slot : VarSlot), VarTable.empty.slots[id]? ≠ some slot := by
    intro id slot found
    cases found
  refine ⟨.var, ?_, ⟨fun _ => 0, fun id parent linked => absurd linked (nothing _ _)⟩, ?_,
    ⟨?_, ?_⟩, fun _ => rfl, ?_, fun _ => rfl⟩
  · exact fun linked => absurd linked (nothing _ _)
  · exact fun found => absurd found (nothing _ _)
  · exact fun linked => absurd linked (nothing _ _)
  · exact fun found => absurd found (nothing _ _)
  · exact fun inside => absurd inside (Nat.not_lt_zero _)

variable {general : Nat → Ty}

theorem Solved.find_root (solved : table.Solved general) {id : Nat} (inside : id < table.size) :
    ∃ rank binding, table.slots[table.find id]? = some (.root rank binding) := by
  obtain ⟨height, climbs⟩ := solved.forest
  let above := fun id => (Finset.range table.size).filter fun other => height id < height other
  have general : ∀ fuel id, id < table.size → (above id).card < fuel →
      ∃ rank binding, table.slots[table.follow fuel id]? = some (.root rank binding) := by
    intro fuel
    induction fuel with
    | zero => exact fun id _ impossible => absurd impossible (Nat.not_lt_zero _)
    | succ fuel ih =>
        intro id bound enough
        rw [follow]
        cases found : table.slots[id]? with
        | none =>
            have outside := Array.getElem?_eq_none_iff.mp found
            exact absurd bound (Nat.not_lt_of_le outside)
        | some slot =>
            cases slot with
            | root rank binding => exact ⟨rank, binding, found⟩
            | link parent =>
                have parentInside := solved.linked found
                have climb := climbs id parent found
                refine ih parent parentInside (Nat.lt_of_lt_of_le (Finset.card_lt_card ?_)
                  (Nat.le_of_lt_succ enough))
                refine Finset.ssubset_iff_of_subset ?_ |>.mpr ⟨parent, ?_, ?_⟩
                · intro other member
                  simp only [above, Finset.mem_filter] at member ⊢
                  exact ⟨member.1, by omega⟩
                · simpa [above] using ⟨parentInside, climb⟩
                · simp [above]
  refine general table.size id inside ?_
  have fewer : (above id).card < (Finset.range table.size).card := by
    refine Finset.card_lt_card (Finset.ssubset_iff_of_subset (Finset.filter_subset _ _) |>.mpr ?_)
    exact ⟨id, Finset.mem_range.mpr inside, by simp⟩
  rwa [Finset.card_range] at fewer

theorem find_of_root {root rank : Nat} {binding : Option Ty}
    (found : table.slots[root]? = some (.root rank binding)) : table.find root = root := by
  rw [find]
  cases table.size with
  | zero => rw [follow]
  | succ fuel =>
      rw [follow, found]

theorem Solved.find_unbound (solved : table.Solved general) {id : Nat} (inside : id < table.size)
    (free : table.binding? id = none) : table.Unbound (table.find id) := by
  obtain ⟨rank, binding, found⟩ := solved.find_root inside
  cases binding with
  | none => exact ⟨rank, found⟩
  | some ty =>
      rw [binding?_eq_some.mpr ⟨rank, found⟩] at free
      cases free

theorem Unbound.lt {root : Nat} (unbound : table.Unbound root) : root < table.size := by
  obtain ⟨rank, found⟩ := unbound
  obtain ⟨bound, _⟩ := Array.getElem?_eq_some_iff.mp found
  exact bound

theorem Solved.binding_scoped (solved : table.Solved general) {id : Nat} {ty : Ty}
    (found : table.binding? id = some ty) : ty.Scoped table.size ∧ ty.isVar = false := by
  obtain ⟨rank, slot⟩ := binding?_eq_some.mp found
  exact solved.bound slot

inductive Enough (table : VarTable) : Nat → Ty → Prop
  | base {fuel : Nat} (kind : BaseType) : Enough table (fuel + 1) (.base kind)
  | array {fuel : Nat} {element : Ty} (inside : Enough table fuel element) :
      Enough table (fuel + 1) (.array element)
  | function {fuel : Nat} {params : List Ty} {result : Ty}
      (insides : ∀ param ∈ params, Enough table fuel param) (inside : Enough table fuel result) :
      Enough table (fuel + 1) (.function params result)
  | unbound {fuel id : Nat} (free : table.Unbound (table.find id))
      (missing : table.binding? id = none) : Enough table (fuel + 1) (.var id)
  | bound {fuel id : Nat} {ty : Ty} (found : table.binding? id = some ty)
      (inside : Enough table fuel ty) : Enough table (fuel + 1) (.var id)
  | generic {fuel : Nat} (number : Nat) : Enough table (fuel + 1) (.generic number)

theorem Enough.resolve (solved : table.Solved general) {fuel : Nat} {ty : Ty}
    (enough : table.Enough fuel ty) : table.resolveWithin fuel ty = ty.fill general .generic := by
  induction enough with
  | base kind => simp [resolveWithin]
  | array inside ih => rw [resolveWithin, Ty.fill_array, ih]
  | function insides inside params_ih ih =>
      rw [resolveWithin, Ty.fill_function, ih, List.map_congr_left params_ih]
  | unbound free missing =>
      rw [resolveWithin, missing, Ty.fill_var, ← solved.solves.find, solved.unbound free]
  | bound found inside ih =>
      rw [resolveWithin, found, Ty.fill_var, solved.solves.binding? found]
      exact ih
  | generic number => simp [resolveWithin]

theorem Enough.occurs (solved : table.Solved general) {root fuel : Nat} {ty : Ty}
    (unbound : table.Unbound root) (enough : table.Enough fuel ty) :
    table.occursWithin root fuel ty = true ↔ root ∈ (ty.fill general .generic).vars := by
  induction enough with
  | base kind => simp [occursWithin, Ty.vars]
  | array inside ih => rw [occursWithin, Ty.fill_array, Ty.mem_vars_array, ih]
  | function insides inside params_ih ih =>
      rw [occursWithin, Bool.or_eq_true, List.any_eq_true, Ty.fill_function, Ty.mem_vars_function,
        ih]
      refine or_congr ⟨?_, ?_⟩ Iff.rfl
      · rintro ⟨param, member, found⟩
        exact ⟨_, List.mem_map_of_mem member, (params_ih param member).mp found⟩
      · rintro ⟨param, member, mentioned⟩
        obtain ⟨before, listed, rfl⟩ := List.mem_map.mp member
        exact ⟨before, listed, (params_ih before listed).mpr mentioned⟩
  | unbound free missing =>
      rw [occursWithin, missing, Ty.fill_var, ← solved.solves.find, solved.unbound free,
        Ty.mem_vars_var]
      simp [eq_comm]
  | @bound fuel id ty found inside ih =>
      have other : table.find id ≠ root := by
        rintro rfl
        obtain ⟨rank, slot⟩ := binding?_eq_some.mp found
        obtain ⟨_, free⟩ := unbound
        rw [free] at slot
        cases slot
      rw [occursWithin, found, if_neg other, Ty.fill_var, solved.solves.binding? found]
      exact ih
  | generic number => simp [occursWithin, Ty.vars]

theorem Enough.height (solved : table.Solved general) {fuel : Nat} {ty : Ty}
    (enough : table.Enough fuel ty) : (ty.fill general .generic).height ≤ fuel := by
  induction enough with
  | base kind => simp [Ty.height]
  | array inside ih =>
      rw [Ty.fill_array, Ty.height]
      omega
  | function insides inside params_ih ih =>
      rw [Ty.fill_function, Ty.height]
      have params := (Ty.heightList_le _ _).mpr fun param member => by
        obtain ⟨before, listed, rfl⟩ := List.mem_map.mp member
        exact params_ih before listed
      omega
  | unbound free missing =>
      rw [Ty.fill_var, ← solved.solves.find, solved.unbound free, Ty.height]
      omega
  | bound found inside ih =>
      rw [Ty.fill_var, solved.solves.binding? found]
      omega
  | generic number => simp [Ty.height]

theorem Enough.factors (solved : table.Solved general) (solves : table.Solves vars generics)
    {fuel : Nat} {ty : Ty} (enough : table.Enough fuel ty) :
    (ty.fill general .generic).fill vars generics = ty.fill vars generics := by
  induction enough with
  | base kind => simp
  | array inside ih => rw [Ty.fill_array, Ty.fill_array, Ty.fill_array, ih]
  | function insides inside params_ih ih =>
      rw [Ty.fill_function, Ty.fill_function, Ty.fill_function, ih, List.map_map]
      exact congrArg (Ty.function · _) (List.map_congr_left params_ih)
  | unbound free missing =>
      rw [Ty.fill_var, ← solved.solves.find, solved.unbound free, Ty.fill_var, Ty.fill_var,
        solves.find]
  | bound found inside ih =>
      rw [Ty.fill_var, solved.solves.binding? found, Ty.fill_var, solves.binding? found]
      exact ih
  | generic number => simp

def slotWeight (table : VarTable) (root : Nat) : Nat :=
  (table.slots.getD root (.link root)).weight

theorem weight_eq_sum (table : VarTable) :
    table.weight = ∑ root ∈ Finset.range table.size, table.slotWeight root := by
  rw [weight, Topology.foldl_add_eq_sum VarSlot.weight table.slots (.link 0)]
  refine Finset.sum_congr rfl fun root member => ?_
  have inside : root < table.slots.size := Finset.mem_range.mp member
  simp [slotWeight, inside]

theorem slotWeight_of_slot {id : Nat} {slot : VarSlot} (found : table.slots[id]? = some slot) :
    table.slotWeight id = slot.weight := by
  obtain ⟨inside, same⟩ := Array.getElem?_eq_some_iff.mp found
  simp [slotWeight, inside, same]

/-- The weight of the slots whose variables stand for smaller types than `level`. -/
def weightBelow (table : VarTable) (general : Nat → Ty) (level : Nat) : Nat :=
  ∑ root ∈ (Finset.range table.size).filter fun root => (general root).weight < level,
    table.slotWeight root

theorem weightBelow_le (level : Nat) : table.weightBelow general level ≤ table.weight := by
  rw [weight_eq_sum]
  exact Finset.sum_le_sum_of_subset (Finset.filter_subset _ _)

theorem weightBelow_add {root level : Nat} (inside : root < table.size)
    (less : (general root).weight < level) :
    table.weightBelow general (general root).weight + table.slotWeight root ≤
      table.weightBelow general level := by
  have fresh : root ∉ (Finset.range table.size).filter fun other =>
      (general other).weight < (general root).weight := by simp
  rw [weightBelow, Nat.add_comm, ← Finset.sum_insert fresh]
  refine Finset.sum_le_sum_of_subset ?_
  intro other member
  simp only [Finset.mem_insert, Finset.mem_filter, Finset.mem_range] at member ⊢
  rcases member with same | ⟨bound, smaller⟩
  · exact ⟨same ▸ inside, same ▸ less⟩
  · exact ⟨bound, by omega⟩

theorem Solved.enough_below (solved : table.Solved general) (level : Nat) (ty : Ty)
    (small : ty.Scoped table.size) (lower : ∀ id ∈ ty.vars, (general id).weight < level) :
    ∀ fuel, ty.weight + table.weightBelow general level ≤ fuel → table.Enough fuel ty := by
  -- On the level, then on the type: a binding leads to a lower level and pays with its own slot.
  induction level using Nat.strongRecOn generalizing ty with
  | ind level level_ih =>
      induction ty using Ty.induction with
      | base kind =>
          intro fuel enough
          obtain ⟨fuel, rfl⟩ := Nat.exists_eq_succ_of_ne_zero (n := fuel) (by
            rw [Ty.weight] at enough
            omega)
          exact .base kind
      | array element ih =>
          intro fuel enough
          rw [Ty.weight] at enough
          obtain ⟨fuel, rfl⟩ := Nat.exists_eq_succ_of_ne_zero (n := fuel) (by omega)
          exact .array (ih (Ty.scoped_array.mp small)
            (fun id mentioned => lower id (Ty.mem_vars_array.mpr mentioned)) fuel (by omega))
      | function params result params_ih ih =>
          intro fuel enough
          rw [Ty.weight] at enough
          obtain ⟨fuel, rfl⟩ := Nat.exists_eq_succ_of_ne_zero (n := fuel) (by omega)
          obtain ⟨paramsSmall, resultSmall⟩ := Ty.scoped_function.mp small
          refine .function ?_ (ih resultSmall
            (fun id mentioned => lower id (Ty.mem_vars_function.mpr (Or.inr mentioned))) fuel
            (by omega))
          intro param member
          have listed := Ty.weight_le_weightList member
          exact params_ih param member (paramsSmall param member)
            (fun id mentioned =>
              lower id (Ty.mem_vars_function.mpr (Or.inl ⟨param, member, mentioned⟩))) fuel
            (by omega)
      | «var» id =>
          intro fuel enough
          rw [Ty.weight] at enough
          obtain ⟨fuel, rfl⟩ := Nat.exists_eq_succ_of_ne_zero (n := fuel) (by omega)
          have inside := Ty.scoped_var.mp small
          cases found : table.binding? id with
          | none => exact .unbound (solved.find_unbound inside found) found
          | some ty =>
              obtain ⟨tySmall, structured⟩ := solved.binding_scoped found
              obtain ⟨rank, slot⟩ := binding?_eq_some.mp found
              have rootInside : table.find id < table.size :=
                (Array.getElem?_eq_some_iff.mp slot).1
              have same := solved.solves.binding? found
              have root := solved.solves.find id
              have less := lower id (Ty.mem_vars_var.mpr rfl)
              rw [← root] at less
              have weights := weightBelow_add rootInside less
              have slotIs := slotWeight_of_slot slot
              rw [VarSlot.weight] at slotIs
              refine .bound found (level_ih _ less ty tySmall ?_ fuel (by omega))
              intro other mentioned
              rw [root, same]
              exact Ty.weight_lt_fill structured mentioned
      | generic number =>
          intro fuel enough
          obtain ⟨fuel, rfl⟩ := Nat.exists_eq_succ_of_ne_zero (n := fuel) (by
            rw [Ty.weight] at enough
            omega)
          exact .generic number

theorem Solved.enough (solved : table.Solved general) {ty : Ty} (small : ty.Scoped table.size) :
    table.Enough (ty.weight + table.weight) ty := by
  have bounded := @weightBelow_le table general
    ((ty.fill general .generic).weight + 1)
  refine solved.enough_below ((ty.fill general .generic).weight + 1) ty small ?_ _ (by omega)
  intro id mentioned
  exact Nat.lt_succ_of_le (Ty.weight_le_fill ty mentioned)

theorem Solved.resolve (solved : table.Solved general) {ty : Ty} (small : ty.Scoped table.size) :
    table.resolve ty = ty.fill general .generic :=
  (solved.enough small).resolve solved

theorem Solved.occurs (solved : table.Solved general) {root : Nat} {ty : Ty}
    (unbound : table.Unbound root) (small : ty.Scoped table.size) :
    table.occurs root ty = true ↔ root ∈ (ty.fill general .generic).vars := by
  obtain ⟨rank, found⟩ := unbound
  rw [VarTable.occurs, find_of_root found]
  exact (solved.enough small).occurs solved ⟨rank, found⟩

theorem Solved.unbound_fill (solved : table.Solved general) {ty : Ty}
    (small : ty.Scoped table.size) {id : Nat}
    (mentioned : id ∈ (ty.fill general .generic).vars) : table.Unbound id := by
  obtain ⟨inner, listed, found⟩ := (Ty.mem_vars_fill ty).mp mentioned
  exact solved.range (small inner listed) id found

theorem Solved.fill_of_unbound (solved : table.Solved general) {ty : Ty}
    (unbound : ∀ id ∈ ty.vars, table.Unbound id) : ty.fill general .generic = ty := by
  rw [Ty.fill_congr ty fun id mentioned => solved.unbound (unbound id mentioned), Ty.fill_self]

theorem Solved.factors (solved : table.Solved general) (solves : table.Solves vars generics)
    {ty : Ty} (small : ty.Scoped table.size) :
    (ty.fill general .generic).fill vars generics = ty.fill vars generics :=
  (solved.enough small).factors solved solves

end VarTable

end NodeGraph
