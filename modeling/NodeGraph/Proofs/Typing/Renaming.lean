import NodeGraph.Proofs.Typing.Unification

/-!
Tables with other variables. A table may stand inside another one under new names for its
variables, among variables that it does not know. What is done to both then comes to the same: the
same variables are joined and bound, the same types are found, and a failure is the same, up to the
names. The larger table has more fuel, which never shows, as the smaller one has enough.
-/

namespace NodeGraph

/-! ### Renaming -/

namespace Ty

def rename (place : Nat → Nat) (ty : Ty) : Ty := ty.fill (fun id => .var (place id)) .generic

variable {place : Nat → Nat}

@[simp] theorem rename_base (kind : BaseType) : (Ty.base kind).rename place = .base kind := rfl

@[simp] theorem rename_array (element : Ty) :
    (Ty.array element).rename place = .array (element.rename place) := rfl

@[simp] theorem rename_function (params : List Ty) (result : Ty) :
    (Ty.function params result).rename place =
      .function (params.map (rename place)) (result.rename place) :=
  fill_function params result

@[simp] theorem rename_var (id : Nat) : (Ty.var id).rename place = .var (place id) := rfl

@[simp] theorem rename_generic (number : Nat) :
    (Ty.generic number).rename place = .generic number := rfl

theorem rename_congr {other : Nat → Nat} {ty : Ty} (agree : ∀ id ∈ ty.vars, place id = other id) :
    ty.rename place = ty.rename other :=
  fill_congr ty fun id mentioned => congrArg Ty.var (agree id mentioned)

theorem isVar_rename (place : Nat → Nat) (ty : Ty) : (ty.rename place).isVar = ty.isVar := by
  cases ty <;> rfl

@[simp] theorem weight_rename (ty : Ty) : (ty.rename place).weight = ty.weight := by
  induction ty using induction with
  | base kind => rfl
  | array element ih => rw [rename_array, weight, weight, ih]
  | function params result params_ih ih =>
      have params : weightList (params.map (rename place)) = weightList params := by
        induction params with
        | nil => rfl
        | cons first rest rest_ih =>
            obtain ⟨head, tail⟩ := List.forall_mem_cons.mp params_ih
            rw [List.map_cons, weightList, weightList, head, rest_ih tail]
      rw [rename_function, weight, weight, params, ih]
  | «var» id => rfl
  | generic number => rfl

end Ty

def VarSlot.rename (place : Nat → Nat) : VarSlot → VarSlot
  | .root rank binding => .root rank (binding.map (Ty.rename place))
  | .link parent => .link (place parent)

theorem VarSlot.weight_rename (place : Nat → Nat) (slot : VarSlot) :
    (slot.rename place).weight = slot.weight := by
  cases slot with
  | link parent => rfl
  | root rank binding =>
      cases binding with
      | none => rfl
      | some ty => exact congrArg (· + 1) (Ty.weight_rename ty)

def UnifyError.types : UnifyError → List Ty
  | .mismatch expected found => [expected, found]
  | .infinite root ty => [root, ty]

def UnifyError.rename (place : Nat → Nat) : UnifyError → UnifyError
  | .mismatch expected found => .mismatch (expected.rename place) (found.rename place)
  | .infinite root ty => .infinite (root.rename place) (ty.rename place)

namespace VarTable

/-- A table stands inside another one: its variables are found there under other names, and the
next new variables of both correspond. -/
structure Renames (place : Nat → Nat) (table other : VarTable) : Prop where
  injective : Function.Injective place
  next : ∀ ahead, place (table.size + ahead) = other.size + ahead
  slots : ∀ id : Nat, other.slots[place id]? = table.slots[id]?.map (VarSlot.rename place)

variable {place : Nat → Nat} {table other : VarTable} {general : Nat → Ty}

namespace Renames

variable (renames : table.Renames place other)
include renames

theorem inside {id : Nat} (bound : id < table.size) : place id < other.size := by
  have found := renames.slots id
  rw [Array.getElem?_eq_getElem bound, Option.map_some] at found
  exact (Array.getElem?_eq_some_iff.mp found).1

theorem size_le : table.size ≤ other.size := by
  have fewer := Finset.card_le_card_of_injOn (s := Finset.range table.size)
    (t := Finset.range other.size) place
    (fun id member => Finset.mem_range.mpr (renames.inside (Finset.mem_range.mp member)))
    renames.injective.injOn
  simpa using fewer

theorem slotWeight {id : Nat} (bound : id < table.size) :
    other.slotWeight (place id) = table.slotWeight id := by
  have there := renames.slots id
  have found := @Array.getElem?_eq_getElem _ table.slots id bound
  rw [found, Option.map_some] at there
  rw [slotWeight_of_slot there, slotWeight_of_slot found, VarSlot.weight_rename]

theorem weight_le : table.weight ≤ other.weight := by
  rw [weight_eq_sum, weight_eq_sum,
    Finset.sum_congr rfl fun id member => (renames.slotWeight (Finset.mem_range.mp member)).symm,
    ← Finset.sum_image (f := other.slotWeight) renames.injective.injOn]
  refine Finset.sum_le_sum_of_subset fun id member => ?_
  obtain ⟨before, inside, rfl⟩ := Finset.mem_image.mp member
  exact Finset.mem_range.mpr (renames.inside (Finset.mem_range.mp inside))

/-! ### Changing a slot -/

theorem set (id : Nat) (slot : VarSlot) :
    Renames place ⟨table.slots.setIfInBounds id slot⟩
      ⟨other.slots.setIfInBounds (place id) (slot.rename place)⟩ where
  injective := renames.injective
  next := by
    intro ahead
    simpa [size] using renames.next ahead
  slots := by
    intro there
    by_cases same : there = id
    · subst same
      by_cases bound : there < table.size
      · have within := renames.inside bound
        rw [Array.getElem?_setIfInBounds_self_of_lt within,
          Array.getElem?_setIfInBounds_self_of_lt bound, Option.map_some]
      · have outside := renames.slots there
        rw [Array.getElem?_eq_none (Nat.le_of_not_lt bound)] at outside
        have apart := Array.getElem?_eq_none_iff.mp outside
        rw [Array.setIfInBounds_eq_of_size_le (Nat.le_of_not_lt bound),
          Array.setIfInBounds_eq_of_size_le apart]
        exact renames.slots there
    · have different : place there ≠ place id := fun equal => same (renames.injective equal)
      rw [Array.getElem?_setIfInBounds_ne (Ne.symm different),
        Array.getElem?_setIfInBounds_ne (Ne.symm same)]
      exact renames.slots there

/-! ### Looking up -/

theorem rooted {id rank : Nat} {binding : Option Ty}
    (found : table.slots[id]? = some (.root rank binding)) :
    other.slots[place id]? = some (.root rank (binding.map (Ty.rename place))) := by
  rw [renames.slots, found]
  rfl

theorem follow {fuel more : Nat} (enough : fuel ≤ more) {id : Nat}
    (ends : ∃ rank binding, table.slots[table.follow fuel id]? = some (.root rank binding)) :
    other.follow more (place id) = place (table.follow fuel id) := by
  induction fuel generalizing id more with
  | zero =>
      obtain ⟨rank, binding, found⟩ := ends
      have root := renames.rooted found
      cases more with
      | zero => rfl
      | succ more =>
          rw [VarTable.follow] at root
          rw [VarTable.follow, VarTable.follow, root]
  | succ fuel ih =>
      obtain ⟨more, rfl⟩ := Nat.exists_eq_succ_of_ne_zero (n := more) (by omega)
      rw [VarTable.follow] at ends ⊢
      rw [VarTable.follow, renames.slots]
      cases found : table.slots[id]? with
      | none => rfl
      | some slot =>
          cases slot with
          | root rank binding => rfl
          | link parent =>
              rw [found] at ends
              exact ih (Nat.le_of_succ_le_succ enough) ends

theorem find (solved : table.Solved general) {id : Nat} (bound : id < table.size) :
    other.find (place id) = place (table.find id) :=
  renames.follow renames.size_le (solved.find_root bound)

theorem binding? (solved : table.Solved general) {id : Nat} (bound : id < table.size) :
    other.binding? (place id) = (table.binding? id).map (Ty.rename place) := by
  obtain ⟨rank, binding, found⟩ := solved.find_root bound
  rw [VarTable.binding?, VarTable.binding?, renames.find solved bound, renames.rooted found, found]

theorem rank (root : Nat) : other.rank (place root) = table.rank root := by
  rw [VarTable.rank, VarTable.rank, renames.slots]
  cases table.slots[root]? with
  | none => rfl
  | some slot => cases slot <;> rfl

/-! ### Compressing paths -/

theorem redirect (id root : Nat) :
    (table.redirect id root).Renames place (other.redirect (place id) (place root)) :=
  renames.set id (.link root)

end Renames

theorem follow_redirect (solved : table.Solved general) {id parent : Nat} (root : Nat)
    (linked : table.slots[id]? = some (.link parent)) (fuel : Nat) :
    (table.redirect id root).follow fuel parent = table.follow fuel parent := by
  obtain ⟨height, climbs⟩ := solved.forest
  have above : ∀ fuel there, height id < height there →
      (table.redirect id root).follow fuel there = table.follow fuel there := by
    intro fuel
    induction fuel with
    | zero => exact fun _ _ => rfl
    | succ fuel ih =>
        intro there higher
        have apart : there ≠ id := by
          rintro rfl
          exact Nat.lt_irrefl _ higher
        rw [follow, follow, redirect_slots linked, if_neg apart]
        split
        · rename_i up found
          exact ih up (Nat.lt_trans higher (climbs there up found))
        · rfl
  exact above fuel parent (climbs id parent linked)

namespace Renames

theorem relink (renames : table.Renames place other) (settled : table.Settled) {root : Nat}
    (rooted : ∀ parent : Nat, table.slots[root]? ≠ some (.link parent)) {fuel more : Nat}
    (enough : fuel ≤ more) {id : Nat} (path : table.Leads id root)
    (ends : ∃ rank binding, table.slots[table.follow fuel id]? = some (.root rank binding)) :
    (table.relink root fuel id).Renames place (other.relink (place root) more (place id)) := by
  induction fuel generalizing table other id more with
  | zero =>
      obtain ⟨rank, binding, found⟩ := ends
      have there := renames.rooted found
      cases more with
      | zero => exact renames
      | succ more =>
          rw [VarTable.relink, VarTable.relink]
          rw [VarTable.follow] at there
          rw [there]
          exact renames
  | succ fuel ih =>
      obtain ⟨more, rfl⟩ := Nat.exists_eq_succ_of_ne_zero (n := more) (by omega)
      rw [VarTable.follow] at ends
      rw [VarTable.relink, VarTable.relink, renames.slots]
      cases found : table.slots[id]? with
      | none => exact renames
      | some slot =>
          cases slot with
          | root rank binding => exact renames
          | link parent =>
              rw [found] at ends
              obtain ⟨general, solved⟩ := settled
              have onward : table.Leads parent root := by
                rcases Relation.ReflTransGen.cases_head path with same | ⟨up, step, rest⟩
                · exact absurd (same ▸ found) (rooted parent)
                · rw [found] at step
                  cases step
                  exact rest
              refine ih (renames.redirect id root)
                (redirect_redirects solved found onward).settled ?_
                (Nat.le_of_succ_le_succ enough) (leads_redirect solved found onward) ?_
              · intro up new
                rw [redirect_slots found] at new
                split at new
                · rename_i same
                  exact rooted parent (same ▸ found)
                · exact rooted up new
              · obtain ⟨rank, binding, last⟩ := ends
                refine ⟨rank, binding, ?_⟩
                rw [follow_redirect solved root found]
                exact (redirect_roots found).mpr last

variable (renames : table.Renames place other) (settled : table.Settled)
include renames settled

theorem compress {id : Nat} (bound : id < table.size) :
    (table.compress id).Renames place (other.compress (place id)) := by
  obtain ⟨general, solved⟩ := settled
  rw [VarTable.compress, VarTable.compress, renames.find solved bound]
  exact renames.relink ⟨general, solved⟩ (solved.find_not_linked id) renames.size_le
    (leads_follow _ _ _) (solved.find_root bound)

/-! ### Heads -/

theorem head {ty : Ty} (small : ty.Scoped table.size) :
    other.head (ty.rename place) = (table.head ty).rename place := by
  obtain ⟨general, solved⟩ := settled
  cases structured : ty.isVar with
  | false =>
      have there := (Ty.isVar_rename place ty).trans structured
      rw [VarTable.head, VarTable.head, headWithin_structured structured,
        headWithin_structured there]
  | true =>
      cases ty with
      | «var» id =>
          have bound := Ty.scoped_var.mp small
          rw [Ty.rename_var, VarTable.head, VarTable.head, headWithin, headWithin,
            renames.binding? solved bound]
          cases found : table.binding? id with
          | none => exact congrArg Ty.var (renames.find solved bound)
          | some ty =>
              have structured := (solved.binding_scoped found).2
              have there := (Ty.isVar_rename place ty).trans structured
              simp only [Option.map_some, headWithin_structured structured,
                headWithin_structured there]
      | _ => cases structured

omit renames settled in
theorem compressHeadWithin_structured {ty : Ty} (structured : ty.isVar = false) (fuel : Nat) :
    table.compressHeadWithin fuel ty = table := by
  cases ty with
  | «var» id => cases structured
  | _ =>
      rw [compressHeadWithin]
      exact fun _ _ _ impossible => by cases impossible

theorem compressHead {ty : Ty} (small : ty.Scoped table.size) :
    (table.compressHead ty).Renames place (other.compressHead (ty.rename place)) := by
  cases structured : ty.isVar with
  | false =>
      have there := (Ty.isVar_rename place ty).trans structured
      rw [VarTable.compressHead, VarTable.compressHead, compressHeadWithin_structured structured,
        compressHeadWithin_structured there]
      exact renames
  | true =>
      cases ty with
      | «var» id =>
          have bound := Ty.scoped_var.mp small
          have redirects := compress_redirects settled id
          obtain ⟨general, solved⟩ := redirects.settled
          have compressed := renames.compress settled bound
          have same := compressed.binding? solved (redirects.size.symm ▸ bound)
          rw [Ty.rename_var, VarTable.compressHead, VarTable.compressHead, compressHeadWithin,
            compressHeadWithin, same]
          cases found : (table.compress id).binding? id with
          | none => exact compressed
          | some ty =>
              have structured := (solved.binding_scoped found).2
              have there := (Ty.isVar_rename place ty).trans structured
              simp only [Option.map_some, compressHeadWithin_structured structured,
                compressHeadWithin_structured there]
              exact compressed
      | _ => cases structured

/-! ### Resolving -/

end Renames

theorem Enough.rename (renames : table.Renames place other) (solved : table.Solved general)
    {fuel extra : Nat} {ty : Ty} (enough : table.Enough fuel ty) (small : ty.Scoped table.size) :
    other.resolveWithin (fuel + extra) (ty.rename place) =
      (table.resolveWithin fuel ty).rename place := by
  induction enough with
  | base kind | generic number => simp [Nat.add_right_comm, resolveWithin]
  | array inside ih =>
      rw [Nat.add_right_comm, Ty.rename_array, resolveWithin, resolveWithin, Ty.rename_array,
        ih (Ty.scoped_array.mp small)]
  | function insides inside params_ih ih =>
      obtain ⟨paramsSmall, resultSmall⟩ := Ty.scoped_function.mp small
      rw [Nat.add_right_comm, Ty.rename_function, resolveWithin, resolveWithin, Ty.rename_function,
        ih resultSmall, List.map_map, List.map_map]
      congr 1
      exact List.map_congr_left fun param member =>
        params_ih param member (paramsSmall param member)
  | unbound free missing =>
      have bound := Ty.scoped_var.mp small
      rw [Nat.add_right_comm, Ty.rename_var, resolveWithin, resolveWithin,
        renames.binding? solved bound, missing]
      exact congrArg Ty.var (renames.find solved bound)
  | bound found inside ih =>
      rw [Nat.add_right_comm, Ty.rename_var, resolveWithin, resolveWithin,
        renames.binding? solved (Ty.scoped_var.mp small), found]
      exact ih (solved.binding_scoped found).1

theorem Enough.occurs_rename (renames : table.Renames place other) (solved : table.Solved general)
    {root fuel extra : Nat} {ty : Ty} (enough : table.Enough fuel ty)
    (small : ty.Scoped table.size) :
    other.occursWithin (place root) (fuel + extra) (ty.rename place) =
      table.occursWithin root fuel ty := by
  induction enough with
  | base kind | generic number => simp [Nat.add_right_comm, occursWithin]
  | array inside ih =>
      rw [Nat.add_right_comm, Ty.rename_array, occursWithin, occursWithin,
        ih (Ty.scoped_array.mp small)]
  | @function fuel params result insides inside params_ih ih =>
      obtain ⟨paramsSmall, resultSmall⟩ := Ty.scoped_function.mp small
      have same : (params.map (Ty.rename place)).any
            (other.occursWithin (place root) (fuel + extra)) =
          params.any (table.occursWithin root fuel) := by
        rw [List.any_map, Bool.eq_iff_iff, List.any_eq_true, List.any_eq_true]
        refine exists_congr fun param => and_congr_right fun member => ?_
        rw [Function.comp_apply, params_ih param member (paramsSmall param member)]
      rw [Nat.add_right_comm, Ty.rename_function, occursWithin, occursWithin, same, ih resultSmall]
  | unbound free missing =>
      have bound := Ty.scoped_var.mp small
      rw [Nat.add_right_comm, Ty.rename_var, occursWithin, occursWithin,
        renames.binding? solved bound, missing, renames.find solved bound]
      simp only [renames.injective.eq_iff, Option.map_none]
  | bound found inside ih =>
      have bound := Ty.scoped_var.mp small
      rw [Nat.add_right_comm, Ty.rename_var, occursWithin, occursWithin,
        renames.binding? solved bound, found, renames.find solved bound]
      simp only [renames.injective.eq_iff, Option.map_some,
        ih (solved.binding_scoped found).1]

namespace Renames

variable (renames : table.Renames place other) (settled : table.Settled)
include renames settled

theorem resolve {ty : Ty} (small : ty.Scoped table.size) :
    other.resolve (ty.rename place) = (table.resolve ty).rename place := by
  obtain ⟨general, solved⟩ := settled
  obtain ⟨extra, weight⟩ := Nat.exists_eq_add_of_le renames.weight_le
  rw [VarTable.resolve, VarTable.resolve, Ty.weight_rename, weight, ← Nat.add_assoc]
  exact (solved.enough small).rename renames solved small

theorem occurs {root : Nat} {ty : Ty} (unbound : table.Unbound root)
    (small : ty.Scoped table.size) :
    other.occurs (place root) (ty.rename place) = table.occurs root ty := by
  obtain ⟨general, solved⟩ := settled
  obtain ⟨rank, found⟩ := unbound
  obtain ⟨extra, weight⟩ := Nat.exists_eq_add_of_le renames.weight_le
  rw [VarTable.occurs, VarTable.occurs, find_of_root found, find_of_root (renames.rooted found),
    Ty.weight_rename, weight, ← Nat.add_assoc]
  exact (solved.enough small).occurs_rename renames solved small

end Renames

/-! ### Unifying -/

theorem Settled.resolve (settled : table.Settled) {ty : Ty} (small : ty.Scoped table.size) :
    (table.resolve ty).Scoped table.size := by
  obtain ⟨general, solved⟩ := settled
  intro id mentioned
  rw [solved.resolve small] at mentioned
  exact (solved.unbound_fill small mentioned).lt

/-- Two runs of unification: the tables correspond, and so do the outcomes. -/
structure RunsAlike (place : Nat → Nat) (run others : VarTable × Except UnifyError Unit) :
    Prop where
  tables : run.1.Renames place others.1
  outcomes : others.2 = run.2.mapError (UnifyError.rename place)
  small : ∀ error, run.2 = .error error → ∀ ty ∈ error.types, ty.Scoped run.1.size

theorem Renames.setBinding (renames : table.Renames place other) (root : Nat) (ty : Ty) :
    (table.setBinding root ty).Renames place
      (other.setBinding (place root) (ty.rename place)) := by
  rw [VarTable.setBinding, VarTable.setBinding, renames.slots]
  cases table.slots[root]? with
  | none => exact renames
  | some slot =>
      cases slot with
      | link parent => exact renames
      | root rank binding => exact renames.set root (.root rank (some ty))

theorem Renames.promote (renames : table.Renames place other) (root : Nat) :
    Renames place
      (match table.slots[root]? with
        | some (.root rank binding) =>
            ⟨table.slots.setIfInBounds root (.root (min (rank + 1) maxRank) binding)⟩
        | _ => table)
      (match other.slots[place root]? with
        | some (.root rank binding) =>
            ⟨other.slots.setIfInBounds (place root) (.root (min (rank + 1) maxRank) binding)⟩
        | _ => other) := by
  rw [renames.slots]
  cases table.slots[root]? with
  | none => exact renames
  | some slot =>
      cases slot with
      | link parent => exact renames
      | root rank binding => exact renames.set root (.root (min (rank + 1) maxRank) binding)

theorem Renames.union (renames : table.Renames place other) (left right : Nat) :
    (table.union left right).Renames place (other.union (place left) (place right)) := by
  have linked := fun child parent => renames.set child (.link parent)
  rw [VarTable.union, VarTable.union, renames.rank, renames.rank]
  by_cases lower : table.rank left < table.rank right
  · simp only [lower, if_true, if_neg (Nat.ne_of_lt lower)]
    exact linked left right
  · simp only [lower, if_false]
    split
    · exact (linked right left).promote left
    · exact linked right left

section Runs

variable {run others : VarTable × Except UnifyError Unit}

theorem RunsAlike.done (renames : table.Renames place other) :
    RunsAlike place (table, .ok ()) (other, .ok ()) :=
  ⟨renames, rfl, nofun⟩

theorem RunsAlike.failed (renames : table.Renames place other) (error : UnifyError)
    (small : ∀ ty ∈ error.types, ty.Scoped table.size) :
    RunsAlike place (table, .error error) (other, .error (error.rename place)) := by
  refine ⟨renames, rfl, fun found same => ?_⟩
  cases same
  exact small

theorem RunsAlike.mismatch (renames : table.Renames place other) (settled : table.Settled)
    {expected found : Ty} (expectedSmall : expected.Scoped table.size)
    (foundSmall : found.Scoped table.size) :
    RunsAlike place (table, .error (.mismatch (table.resolve expected) (table.resolve found)))
      (other, .error (.mismatch (other.resolve (expected.rename place))
        (other.resolve (found.rename place)))) := by
  rw [renames.resolve settled expectedSmall, renames.resolve settled foundSmall]
  refine .failed renames (.mismatch _ _) ?_
  exact List.forall_mem_cons.mpr ⟨settled.resolve expectedSmall,
    List.forall_mem_singleton.mpr (settled.resolve foundSmall)⟩

theorem RunsAlike.bind (renames : table.Renames place other) (settled : table.Settled) {root : Nat}
    {ty : Ty} (unbound : table.Unbound root) (small : ty.Scoped table.size) :
    RunsAlike place (table.bind root ty) (other.bind (place root) (ty.rename place)) := by
  rw [VarTable.bind, VarTable.bind, renames.occurs settled unbound small]
  split
  · rw [renames.resolve settled small]
    refine .failed renames (.infinite (.var root) _) ?_
    exact List.forall_mem_cons.mpr ⟨Ty.scoped_var.mpr unbound.lt,
      List.forall_mem_singleton.mpr (settled.resolve small)⟩
  · exact .done (renames.setBinding root ty)

theorem RunsAlike.enclose (alike : RunsAlike place run others) (settled : run.1.Settled)
    {expected found : Ty} (expectedSmall : expected.Scoped run.1.size)
    (foundSmall : found.Scoped run.1.size) :
    RunsAlike place (VarTable.enclose expected found run)
      (VarTable.enclose (expected.rename place) (found.rename place) others) := by
  obtain ⟨later, outcome⟩ := run
  obtain ⟨laterOther, outcomeOther⟩ := others
  obtain ⟨tables, same, small⟩ := alike
  cases same
  cases outcome with
  | ok _ => exact .done tables
  | error error =>
      cases error with
      | infinite root ty => exact .failed tables _ (small _ rfl)
      | mismatch left right => exact .mismatch tables settled expectedSmall foundSmall

theorem RunsAlike.pairs {bound fuel : Nat}
    {unify unifyOther : VarTable → Ty → Ty → VarTable × Except UnifyError Unit}
    (unifying : ∀ {table : VarTable} {expected found : Ty}, table.Settled → table.Light bound →
      table.Ready bound fuel expected found →
        table.Unifying bound [(expected, found)] (unify table expected found))
    (single : ∀ {table other : VarTable} {expected found : Ty}, table.Renames place other →
      table.Settled → table.Light bound → table.Ready bound fuel expected found →
        RunsAlike place (unify table expected found)
          (unifyOther other (expected.rename place) (found.rename place)))
    (pairs : List (Ty × Ty)) (renames : table.Renames place other) (settled : table.Settled)
    (light : table.Light bound) (ready : ∀ pair ∈ pairs, table.Ready bound fuel pair.1 pair.2) :
    RunsAlike place (unifyPairs unify table pairs)
      (unifyPairs unifyOther other
        (pairs.map (Prod.map (Ty.rename place) (Ty.rename place)))) := by
  induction pairs generalizing table other with
  | nil => exact .done renames
  | cons pair rest ih =>
      obtain ⟨expected, found⟩ := pair
      have here := ready (expected, found) List.mem_cons_self
      have first := unifying settled light here
      have alike := single renames settled light here
      rw [List.map_cons, Prod.map_apply, unifyPairs, unifyPairs]
      rcases ran : unify table expected found with ⟨middle, outcome⟩
      rcases ranOther : unifyOther other (expected.rename place) (found.rename place) with
        ⟨middleOther, outcomeOther⟩
      rw [ran] at first
      rw [ran, ranOther] at alike
      obtain ⟨tables, same, small⟩ := alike
      cases same
      cases outcome with
      | error error => exact .failed tables _ (small _ rfl)
      | ok _ =>
          exact ih tables first.settled first.light fun pair member =>
            (ready pair (List.mem_cons_of_mem _ member)).later first.extended first.size

theorem RunsAlike.heads {bound fuel : Nat}
    {unify unifyOther : VarTable → Ty → Ty → VarTable × Except UnifyError Unit}
    (unifying : ∀ {table : VarTable} {expected found : Ty}, table.Settled → table.Light bound →
      table.Ready bound fuel expected found →
        table.Unifying bound [(expected, found)] (unify table expected found))
    (single : ∀ {table other : VarTable} {expected found : Ty}, table.Renames place other →
      table.Settled → table.Light bound → table.Ready bound fuel expected found →
        RunsAlike place (unify table expected found)
          (unifyOther other (expected.rename place) (found.rename place)))
    {left right : Ty} (renames : table.Renames place other) (settled : table.Settled)
    (light : table.Light bound) (ready : table.Ready bound (fuel + 1) left right)
    (leftRoot : ∀ id, left = .var id → table.Unbound id)
    (rightRoot : ∀ id, right = .var id → table.Unbound id) :
    RunsAlike place (unifyHeads unify table left right)
      (unifyHeads unifyOther other (left.rename place) (right.rename place)) := by
  have leftSmall := ready.expectedSmall
  have rightSmall := ready.foundSmall
  have clash := RunsAlike.mismatch renames settled leftSmall rightSmall
  cases left with
  | «var» root =>
      cases right with
      | «var» id =>
          simp only [Ty.rename_var, unifyHeads, renames.injective.eq_iff]
          by_cases same : root = id
          · rw [if_pos same, if_pos same]
            exact .done renames
          · rw [if_neg same, if_neg same]
            exact .done (renames.union root id)
      | _ => exact .bind renames settled (leftRoot _ rfl) rightSmall
  | base kind =>
      cases right with
      | «var» root => exact .bind renames settled (rightRoot _ rfl) leftSmall
      | base otherKind =>
          simp only [Ty.rename_base, unifyHeads]
          by_cases same : kind = otherKind
          · rw [if_pos same]
            exact .done renames
          · rw [if_neg same]
            exact .failed renames (.mismatch _ _) (by simp [UnifyError.types, Ty.Scoped, Ty.vars])
      | _ => exact clash
  | generic number =>
      cases right with
      | «var» root => exact .bind renames settled (rightRoot _ rfl) leftSmall
      | generic otherNumber =>
          simp only [Ty.rename_generic, unifyHeads]
          by_cases same : number = otherNumber
          · rw [if_pos same]
            exact .done renames
          · rw [if_neg same]
            exact .failed renames (.mismatch _ _) (by simp [UnifyError.types, Ty.Scoped, Ty.vars])
      | _ => exact clash
  | array left =>
      cases right with
      | «var» root => exact .bind renames settled (rightRoot _ rfl) leftSmall
      | array right =>
          have ran := unifying settled light ready.element
          exact (single renames settled light ready.element).enclose ran.settled
            (leftSmall.mono ran.extended.size) (rightSmall.mono ran.extended.size)
      | _ => exact clash
  | function leftParams left =>
      cases right with
      | «var» root => exact .bind renames settled (rightRoot _ rfl) leftSmall
      | function rightParams right =>
          rw [Ty.rename_function, Ty.rename_function, unifyHeads, unifyHeads, List.length_map,
            List.length_map]
          by_cases lengths : leftParams.length = rightParams.length
          · rw [if_pos lengths, if_pos lengths]
            have ran := unifyPairs_unifying unifying _ settled light ready.parts
            have alike := (RunsAlike.pairs unifying single _ renames settled light
              ready.parts).enclose ran.settled (leftSmall.mono ran.extended.size)
                (rightSmall.mono ran.extended.size)
            simpa only [List.map_append, List.map_cons, List.map_nil, Prod.map, List.zip_map,
              Ty.rename_function] using alike
          · rw [if_neg lengths, if_neg lengths]
            simpa only [Ty.rename_function] using clash
      | _ => exact clash

theorem RunsAlike.within {bound fuel more : Nat} (enough : fuel ≤ more) {expected found : Ty}
    (renames : table.Renames place other) (settled : table.Settled) (light : table.Light bound)
    (ready : table.Ready bound fuel expected found) :
    RunsAlike place (unifyWithin fuel table expected found)
      (unifyWithin more other (expected.rename place) (found.rename place)) := by
  induction fuel generalizing table other expected found more with
  | zero => exact absurd (ready.affords.fuel_pos settled light) (Nat.lt_irrefl 0)
  | succ fuel ih =>
      obtain ⟨more, rfl⟩ := Nat.exists_eq_succ_of_ne_zero (n := more) (by omega)
      have first := compressHead_redirects settled expected
      have second := compressHead_redirects first.settled found
      have redirects := first.trans second
      have foundSmall := ready.foundSmall.mono first.extends.size
      have compressed := renames.compressHead settled ready.expectedSmall
      have expectedHead := renames.head settled ready.expectedSmall
      have foundHead := compressed.head first.settled foundSmall
      obtain ⟨general, solved⟩ := settled
      obtain ⟨middleGeneral, middleSolved⟩ := first.settled
      obtain ⟨leftSmall, leftRoot⟩ := solved.head ready.expectedSmall
      obtain ⟨rightSmall, rightRoot⟩ := middleSolved.head foundSmall
      rw [unifyWithin, unifyWithin]
      simp only [expectedHead, foundHead]
      refine .heads (unifyWithin_unifying fuel)
        (fun renames => ih (Nat.le_of_succ_le_succ enough) renames)
        (compressed.compressHead first.settled foundSmall) redirects.settled
        (redirects.light light)
        ⟨leftSmall.mono redirects.extends.size, rightSmall.mono second.extends.size,
          light.head ready.expectedLight, (first.light light).head ready.foundLight,
          ready.affords.head.later redirects.extends redirects.size⟩ ?_ ?_
      · exact fun id same => redirects.unbound.mpr (leftRoot id same)
      · exact fun id same => second.unbound.mpr (rightRoot id same)

end Runs

theorem Renames.unify (renames : table.Renames place other) (settled : table.Settled)
    {expected found : Ty} (expectedSmall : expected.Scoped table.size)
    (foundSmall : found.Scoped table.size) :
    RunsAlike place (table.unify expected found)
      (other.unify (expected.rename place) (found.rename place)) := by
  have size := renames.size_le
  have weight := renames.weight_le
  have expectedPositive := Ty.weight_pos expected
  have foundPositive := Ty.weight_pos found
  rw [VarTable.unify, VarTable.unify, Ty.weight_rename, Ty.weight_rename]
  have light : table.Light (expected.weight + found.weight + table.weight) :=
    (light_weight table).mono (by omega)
  exact .within (Nat.succ_le_succ (Nat.mul_le_mul (by omega) (by omega))) renames settled light
    ⟨expectedSmall, foundSmall, by omega, by omega, affords_of_weight expectedSmall (by omega)⟩

end VarTable

end NodeGraph
