import NodeGraph.Proofs.Typing.Extensions

/-!
Unification. A run on a settled table leaves it settled. If it accepts, the solutions afterwards are
those from before that make the types equal; if it fails, no solution makes them equal. Its fuel is
never used up: the types that it compares lie ever deeper in a type whose resolved form has a height
that no binding made on the way can raise above the fuel.
-/

namespace NodeGraph.VarTable

variable {table middle final : VarTable} {vars generics general : Nat → Ty}

theorem headWithin_structured {ty : Ty} (structured : ty.isVar = false) (fuel : Nat) :
    table.headWithin fuel ty = ty := by
  cases fuel with
  | zero =>
      rw [headWithin]
      exact fun _ _ impossible => by cases impossible
  | succ fuel =>
      cases ty with
      | «var» id => cases structured
      | _ =>
          rw [headWithin]
          exact fun _ _ _ impossible => by cases impossible

theorem isVar_eq_false {ty : Ty} (structured : ∀ id, ty = .var id → False) : ty.isVar = false := by
  cases ty with
  | «var» id => exact absurd rfl (structured id)
  | _ => rfl

theorem Solved.head (solved : table.Solved general) {ty : Ty} (small : ty.Scoped table.size) :
    (table.head ty).Scoped table.size ∧ ∀ id, table.head ty = .var id → table.Unbound id := by
  cases ty with
  | «var» id =>
      have inside := Ty.scoped_var.mp small
      rw [VarTable.head, headWithin]
      cases found : table.binding? id with
      | none =>
          have unbound := solved.find_unbound inside found
          refine ⟨Ty.scoped_var.mpr unbound.lt, fun other same => ?_⟩
          cases same
          exact unbound
      | some ty =>
          obtain ⟨tySmall, structured⟩ := solved.binding_scoped found
          simp only [headWithin_structured structured]
          refine ⟨tySmall, fun other same => ?_⟩
          rw [same] at structured
          cases structured
  | _ =>
      rw [VarTable.head, headWithin_structured rfl]
      exact ⟨small, fun _ impossible => by cases impossible⟩

def Light (table : VarTable) (bound : Nat) : Prop :=
  ∀ (id rank : Nat) (ty : Ty), table.slots[id]? = some (.root rank (some ty)) → ty.weight < bound

theorem light_weight (table : VarTable) : table.Light table.weight := by
  intro id rank ty found
  obtain ⟨inside, _⟩ := Array.getElem?_eq_some_iff.mp found
  have single : table.slotWeight id ≤ table.weight := by
    rw [weight_eq_sum]
    exact Finset.single_le_sum (fun _ _ => Nat.zero_le _) (Finset.mem_range.mpr inside)
  rw [slotWeight_of_slot found, VarSlot.weight] at single
  omega

theorem Light.mono {bound more : Nat} (light : table.Light bound) (grows : bound ≤ more) :
    table.Light more :=
  fun _ _ _ found => Nat.lt_of_lt_of_le (light _ _ _ found) grows

theorem Light.weight_le {bound : Nat} (light : table.Light bound) (positive : 0 < bound) :
    table.weight ≤ table.size * bound := by
  rw [weight_eq_sum]
  refine (Finset.sum_le_card_nsmul _ _ bound fun id member => ?_).trans (by simp)
  have inside : id < table.slots.size := Finset.mem_range.mp member
  have found := Array.getElem?_eq_getElem inside
  rw [slotWeight_of_slot found]
  cases slot : table.slots[id] with
  | link parent =>
      rw [VarSlot.weight]
      · exact positive
      · exact fun _ _ impossible => by cases impossible
  | root rank binding =>
      cases binding with
      | none =>
          rw [VarSlot.weight]
          · exact positive
          · exact fun _ _ impossible => by cases impossible
      | some ty =>
          rw [slot] at found
          exact light _ _ _ found

theorem Light.head {bound : Nat} (light : table.Light bound) {ty : Ty} (small : ty.weight < bound) :
    (table.head ty).weight < bound := by
  have within : ∀ fuel (ty : Ty), ty.weight < bound →
      (table.headWithin fuel ty).weight < bound := by
    intro fuel
    induction fuel with
    | zero =>
        intro ty small
        rw [headWithin]
        · exact small
        · exact fun _ _ impossible => by cases impossible
    | succ fuel ih =>
        intro ty small
        cases ty with
        | «var» id =>
            rw [headWithin]
            split
            · rename_i found
              obtain ⟨rank, slot⟩ := binding?_eq_some.mp found
              exact ih _ (light _ _ _ slot)
            · exact small
        | _ =>
            rw [headWithin_structured rfl]
            exact small
  exact within _ ty small

/-- Whatever is bound later, the resolved type keeps within the fuel. -/
def Affords (table : VarTable) (bound fuel : Nat) (ty : Ty) : Prop :=
  ∀ later general, table.Extends later → later.size = table.size → later.Light bound →
    later.Solved general → (ty.fill general .generic).height < fuel

theorem Affords.later {bound fuel : Nat} {ty : Ty} (affords : table.Affords bound fuel ty)
    (extended : table.Extends final) (size : final.size = table.size) :
    final.Affords bound fuel ty :=
  fun last general further sizes => affords last general (extended.trans further) (sizes.trans size)

theorem Affords.fuel_pos {bound fuel : Nat} {ty : Ty} (affords : table.Affords bound fuel ty)
    (settled : table.Settled) (light : table.Light bound) : 0 < fuel := by
  obtain ⟨general, solved⟩ := settled
  exact Nat.zero_lt_of_lt (affords table general (.refl table) rfl light solved)

theorem Affords.head {bound fuel : Nat} {ty : Ty} (affords : table.Affords bound fuel ty) :
    table.Affords bound fuel (table.head ty) := by
  intro later general extended size light solved
  rw [(extended.solves solved.solves).head]
  exact affords later general extended size light solved

theorem Affords.element {bound fuel : Nat} {element : Ty}
    (affords : table.Affords bound (fuel + 1) (.array element)) :
    table.Affords bound fuel element := by
  intro later general extended size light solved
  have height := affords later general extended size light solved
  rw [Ty.fill_array, Ty.height] at height
  omega

theorem Affords.parts {bound fuel : Nat} {params : List Ty} {result : Ty}
    (affords : table.Affords bound (fuel + 1) (.function params result)) :
    (∀ param ∈ params, table.Affords bound fuel param) ∧ table.Affords bound fuel result := by
  have height : ∀ {later general}, table.Extends later → later.size = table.size →
      later.Light bound → later.Solved general →
        Ty.heightList (params.map (Ty.fill general .generic)) < fuel ∧
          (result.fill general .generic).height < fuel := by
    intro later general extended size light solved
    have whole := affords later general extended size light solved
    rw [Ty.fill_function, Ty.height] at whole
    omega
  refine ⟨fun param member later general extended size light solved => ?_,
    fun later general extended size light solved => (height extended size light solved).2⟩
  have listed := (Ty.heightList_le _ _).mp (Nat.le_refl _) _
    (List.mem_map_of_mem (f := Ty.fill general .generic) member)
  exact Nat.lt_of_le_of_lt listed (height extended size light solved).1

theorem affords_of_weight {bound : Nat} {ty : Ty} (small : ty.Scoped table.size)
    (less : ty.weight < bound) : table.Affords bound ((table.size + 1) * bound + 1) ty := by
  intro later general extended size light solved
  have enough := solved.enough (small.mono extended.size)
  have height := enough.height solved
  have weight := light.weight_le (Nat.zero_lt_of_lt less)
  rw [size] at weight
  rw [Nat.succ_mul]
  omega

/-- Two types that a run with so much fuel can compare. -/
structure Ready (table : VarTable) (bound fuel : Nat) (expected found : Ty) : Prop where
  expectedSmall : expected.Scoped table.size
  foundSmall : found.Scoped table.size
  expectedLight : expected.weight < bound
  foundLight : found.weight < bound
  affords : table.Affords bound fuel expected

theorem Ready.later {bound fuel : Nat} {expected found : Ty}
    (ready : table.Ready bound fuel expected found) (extended : table.Extends final)
    (size : final.size = table.size) : final.Ready bound fuel expected found where
  expectedSmall := ready.expectedSmall.mono extended.size
  foundSmall := ready.foundSmall.mono extended.size
  expectedLight := ready.expectedLight
  foundLight := ready.foundLight
  affords := ready.affords.later extended size

theorem Ready.element {bound fuel : Nat} {left right : Ty}
    (ready : table.Ready bound (fuel + 1) (.array left) (.array right)) :
    table.Ready bound fuel left right := by
  obtain ⟨leftSmall, rightSmall, leftLight, rightLight, affords⟩ := ready
  rw [Ty.weight] at leftLight rightLight
  exact ⟨Ty.scoped_array.mp leftSmall, Ty.scoped_array.mp rightSmall, by omega, by omega,
    affords.element⟩

theorem Ready.parts {bound fuel : Nat} {leftParams rightParams : List Ty} {left right : Ty}
    (ready : table.Ready bound (fuel + 1) (.function leftParams left)
      (.function rightParams right)) :
    ∀ pair ∈ leftParams.zip rightParams ++ [(left, right)],
      table.Ready bound fuel pair.1 pair.2 := by
  obtain ⟨leftSmall, rightSmall, leftLight, rightLight, affords⟩ := ready
  obtain ⟨leftParamsSmall, leftSmall⟩ := Ty.scoped_function.mp leftSmall
  obtain ⟨rightParamsSmall, rightSmall⟩ := Ty.scoped_function.mp rightSmall
  obtain ⟨paramsAfford, resultAffords⟩ := affords.parts
  rw [Ty.weight] at leftLight rightLight
  intro pair member
  rcases List.mem_append.mp member with listed | last
  · obtain ⟨leftListed, rightListed⟩ := List.of_mem_zip listed
    have leftWeight := Ty.weight_le_weightList leftListed
    have rightWeight := Ty.weight_le_weightList rightListed
    exact ⟨leftParamsSmall _ leftListed, rightParamsSmall _ rightListed, by omega, by omega,
      paramsAfford _ leftListed⟩
  · cases List.mem_singleton.mp last
    exact ⟨leftSmall, rightSmall, (by omega : left.weight < bound),
      (by omega : right.weight < bound), resultAffords⟩

def Equalizes (vars generics : Nat → Ty) (pairs : List (Ty × Ty)) : Prop :=
  ∀ pair ∈ pairs, pair.1.fill vars generics = pair.2.fill vars generics

theorem equalizes_singleton {expected found : Ty} :
    Equalizes vars generics [(expected, found)] ↔
      expected.fill vars generics = found.fill vars generics := by
  simp [Equalizes]

theorem equalizes_cons {pair : Ty × Ty} {rest : List (Ty × Ty)} :
    Equalizes vars generics (pair :: rest) ↔
      pair.1.fill vars generics = pair.2.fill vars generics ∧ Equalizes vars generics rest := by
  simp [Equalizes]

/-- The table and the outcome of making all pairs equal. -/
structure Unifying (table : VarTable) (bound : Nat) (pairs : List (Ty × Ty))
    (run : VarTable × Except UnifyError Unit) : Prop where
  settled : run.1.Settled
  size : run.1.size = table.size
  light : run.1.Light bound
  extended : table.Extends run.1
  accepted : run.2 = .ok () → ∀ vars generics : Nat → Ty,
    run.1.Solves vars generics ↔ table.Solves vars generics ∧ Equalizes vars generics pairs
  rejected : ∀ {error : UnifyError}, run.2 = .error error → ∀ vars : Nat → Ty,
    table.Solves vars .generic → ¬ Equalizes vars .generic pairs

section Outcomes

variable {bound : Nat} {pairs others : List (Ty × Ty)} {expected found : Ty}
  {run : VarTable × Except UnifyError Unit}

theorem Redirects.extends (redirects : table.Redirects final) : table.Extends final :=
  ⟨Nat.le_of_eq redirects.size.symm, redirects.solves.mp⟩

theorem Unifying.of_redirects (redirects : table.Redirects middle)
    (unifying : middle.Unifying bound pairs run) : table.Unifying bound pairs run where
  settled := unifying.settled
  size := unifying.size.trans redirects.size
  light := unifying.light
  extended := redirects.extends.trans unifying.extended
  accepted := fun ok vars generics => by rw [unifying.accepted ok, redirects.solves]
  rejected := fun failed vars solves => unifying.rejected failed vars (redirects.solves.mpr solves)

theorem Unifying.of_pairs (same : ∀ {vars generics : Nat → Ty}, table.Solves vars generics →
      (Equalizes vars generics others ↔ Equalizes vars generics pairs))
    (unifying : table.Unifying bound others run) : table.Unifying bound pairs run where
  settled := unifying.settled
  size := unifying.size
  light := unifying.light
  extended := unifying.extended
  accepted := fun ok vars generics => by
    rw [unifying.accepted ok]
    exact and_congr_right same
  rejected := fun failed vars solves => by
    rw [← same solves]
    exact unifying.rejected failed vars solves

theorem Unifying.same (settled : table.Settled) (light : table.Light bound)
    (equal : expected = found) : table.Unifying bound [(expected, found)] (table, .ok ()) where
  settled := settled
  size := rfl
  light := light
  extended := .refl table
  accepted := fun _ vars generics => by simp [equalizes_singleton, equal]
  rejected := nofun

theorem Unifying.clash (settled : table.Settled) (light : table.Light bound) {error : UnifyError}
    (apart : ∀ vars : Nat → Ty, table.Solves vars .generic →
      expected.fill vars .generic ≠ found.fill vars .generic) :
    table.Unifying bound [(expected, found)] (table, .error error) where
  settled := settled
  size := rfl
  light := light
  extended := .refl table
  accepted := nofun
  rejected := fun _ vars solves => by
    rw [equalizes_singleton]
    exact apart vars solves

theorem Unifying.symm (unifying : table.Unifying bound [(expected, found)] run) :
    table.Unifying bound [(found, expected)] run :=
  unifying.of_pairs fun _ => by rw [equalizes_singleton, equalizes_singleton, eq_comm]

theorem Unifying.enclosed (unifying : table.Unifying bound pairs run) :
    table.Unifying bound pairs (enclose expected found run) := by
  obtain ⟨later, outcome⟩ := run
  refine ⟨unifying.settled, unifying.size, unifying.light, unifying.extended, fun ok => ?_,
    fun {error} failed => ?_⟩
  · cases outcome with
    | error error => cases ok
    | ok _ => exact unifying.accepted rfl
  · cases outcome with
    | error inner => exact unifying.rejected rfl
    | ok _ => cases failed

theorem union_unifying (settled : table.Settled) (light : table.Light bound) {left right : Nat}
    (leftUnbound : table.Unbound left) (rightUnbound : table.Unbound right)
    (different : left ≠ right) :
    table.Unifying bound [(.var left, .var right)] (table.union left right, .ok ()) := by
  have linked : ∀ {child parent : Nat}, table.Unbound child → table.Unbound parent →
      child ≠ parent → table.Links child parent (table.union left right) →
        table.Unifying bound [(.var child, .var parent)] (table.union left right, .ok ()) := by
    intro child parent childUnbound parentUnbound apart links
    obtain ⟨general, solved⟩ := settled
    have solves : ∀ vars generics : Nat → Ty, (table.union left right).Solves vars generics ↔
        table.Solves vars generics ∧ vars child = vars parent :=
      fun _ _ => links.solves childUnbound parentUnbound
    refine ⟨⟨_, solved.union links apart childUnbound parentUnbound⟩, links.size,
      fun _ _ _ bound => light _ _ _ (links.binding bound),
      ⟨Nat.le_of_eq links.size.symm, fun later => ((solves _ _).mp later).1⟩,
      fun _ vars generics => ?_, nofun⟩
    rw [solves, equalizes_singleton, Ty.fill_var, Ty.fill_var]
  rcases union_links leftUnbound rightUnbound different with links | links
  · exact linked leftUnbound rightUnbound different links
  · exact (linked rightUnbound leftUnbound (Ne.symm different) links).symm

theorem Solved.no_solution (solved : table.Solved general) {root : Nat} {ty : Ty}
    (small : ty.Scoped table.size) (structured : ty.isVar = false)
    (inside : root ∈ (ty.fill general .generic).vars) (solves : table.Solves vars generics) :
    vars root ≠ ty.fill vars generics := by
  intro equal
  have larger : (vars root).weight < ((ty.fill general .generic).fill vars generics).weight := by
    refine Ty.weight_lt_fill ?_ inside
    cases ty with
    | «var» id => cases structured
    | _ => simp [Ty.isVar]
  rw [solved.factors solves small, ← equal] at larger
  exact Nat.lt_irrefl _ larger

theorem bind_unifying (settled : table.Settled) (light : table.Light bound) {root : Nat} {ty : Ty}
    (unbound : table.Unbound root) (small : ty.Scoped table.size) (structured : ty.isVar = false)
    (less : ty.weight < bound) : table.Unifying bound [(.var root, ty)] (table.bind root ty) := by
  obtain ⟨general, solved⟩ := settled
  rw [bind]
  by_cases inside : table.occurs root ty = true
  · rw [if_pos inside]
    refine .clash ⟨general, solved⟩ light fun vars solves => ?_
    rw [Ty.fill_var]
    exact solved.no_solution small structured ((solved.occurs unbound small).mp inside) solves
  · rw [if_neg inside]
    rw [solved.occurs unbound small] at inside
    obtain ⟨size, ⟨rank, new⟩, others⟩ := setBinding_slots unbound ty
    have solves : ∀ vars generics : Nat → Ty, (table.setBinding root ty).Solves vars generics ↔
        table.Solves vars generics ∧ vars root = ty.fill vars generics :=
      fun _ _ => setBinding_solves unbound ty
    refine ⟨⟨_, solved.setBinding unbound small structured inside⟩, size, ?_,
      ⟨Nat.le_of_eq size.symm, fun later => ((solves _ _).mp later).1⟩, fun _ vars generics => ?_,
      nofun⟩
    · intro id otherRank other bound
      by_cases same : id = root
      · rw [same, new] at bound
        cases bound
        exact less
      · rw [others id same] at bound
        exact light _ _ _ bound
    · rw [solves, equalizes_singleton, Ty.fill_var]

theorem unifyPairs_unifying {fuel : Nat}
    {unify : VarTable → Ty → Ty → VarTable × Except UnifyError Unit}
    (single : ∀ {table : VarTable} {expected found : Ty}, table.Settled → table.Light bound →
      table.Ready bound fuel expected found →
        table.Unifying bound [(expected, found)] (unify table expected found))
    (pairs : List (Ty × Ty)) (settled : table.Settled) (light : table.Light bound)
    (ready : ∀ pair ∈ pairs, table.Ready bound fuel pair.1 pair.2) :
    table.Unifying bound pairs (unifyPairs unify table pairs) := by
  induction pairs generalizing table with
  | nil =>
      rw [unifyPairs]
      exact ⟨settled, rfl, light, .refl table, fun _ => by simp [Equalizes], nofun⟩
  | cons pair rest ih =>
      obtain ⟨expected, found⟩ := pair
      have first := single settled light (ready (expected, found) List.mem_cons_self)
      rw [unifyPairs]
      rcases run : unify table expected found with ⟨middle, outcome⟩
      rw [run] at first
      cases outcome with
      | ok _ =>
          have later := ih first.settled first.light fun pair member =>
            (ready pair (List.mem_cons_of_mem _ member)).later first.extended first.size
          refine ⟨later.settled, later.size.trans first.size, later.light,
            first.extended.trans later.extended, fun ok vars generics => ?_,
            fun failed vars solves all => ?_⟩
          · change (unifyPairs unify middle rest).1.Solves vars generics ↔ _
            rw [later.accepted ok, first.accepted rfl, equalizes_singleton, equalizes_cons,
              and_assoc]
          · obtain ⟨head, others⟩ := equalizes_cons.mp all
            have middleSolves := (first.accepted rfl vars .generic).mpr
              ⟨solves, equalizes_singleton.mpr head⟩
            exact later.rejected failed vars middleSolves others
      | error error =>
          refine ⟨first.settled, first.size, first.light, first.extended, nofun,
            fun _ vars solves all => ?_⟩
          exact first.rejected rfl vars solves (equalizes_singleton.mpr (equalizes_cons.mp all).1)

theorem equalizes_element {left right : Ty} :
    Equalizes vars generics [(left, right)] ↔
      Equalizes vars generics [(.array left, .array right)] := by
  simp [equalizes_singleton]

theorem equalizes_parts {leftParams rightParams : List Ty} {left right : Ty}
    (lengths : leftParams.length = rightParams.length) :
    Equalizes vars generics (leftParams.zip rightParams ++ [(left, right)]) ↔
      Equalizes vars generics [(.function leftParams left, .function rightParams right)] := by
  have params : Equalizes vars generics (leftParams.zip rightParams) ↔
      leftParams.map (Ty.fill vars generics) = rightParams.map (Ty.fill vars generics) := by
    induction leftParams generalizing rightParams with
    | nil =>
        cases rightParams with
        | nil => simp [Equalizes]
        | cons param rest => cases lengths
    | cons first rest ih =>
        cases rightParams with
        | nil => cases lengths
        | cons param others =>
            rw [List.zip_cons_cons, equalizes_cons, List.map_cons, List.map_cons, List.cons.injEq,
              ih (Nat.succ_inj.mp lengths)]
  rw [equalizes_singleton, Ty.fill_function, Ty.fill_function, Ty.function.injEq, ← params]
  simp [Equalizes, or_imp, forall_and]

theorem fill_ne_of_heads {left right : Ty} (leftStructured : left.isVar = false)
    (rightStructured : right.isVar = false)
    (base : ∀ p q, left = .base p → right = .base q → False)
    (generic : ∀ m n, left = .generic m → right = .generic n → False)
    (array : ∀ p q, left = .array p → right = .array q → False)
    (function : ∀ ps p qs q, left = .function ps p → right = .function qs q → False) :
    left.fill vars .generic ≠ right.fill vars .generic := by
  intro equal
  cases left with
  | base p =>
      cases right with
      | base q => exact base p q rfl rfl
      | «var» id => cases rightStructured
      | _ => simp at equal
  | array p =>
      cases right with
      | array q => exact array p q rfl rfl
      | «var» id => cases rightStructured
      | _ => simp at equal
  | function ps p =>
      cases right with
      | function qs q => exact function ps p qs q rfl rfl
      | «var» id => cases rightStructured
      | _ => simp at equal
  | generic m =>
      cases right with
      | generic n => exact generic m n rfl rfl
      | «var» id => cases rightStructured
      | _ => simp at equal
  | «var» id => cases leftStructured

theorem Redirects.light (redirects : table.Redirects final) (light : table.Light bound) :
    final.Light bound :=
  fun _ _ _ found => light _ _ _ (redirects.roots.mp found)

theorem unifyHeads_unifying {fuel : Nat}
    {unify : VarTable → Ty → Ty → VarTable × Except UnifyError Unit}
    (single : ∀ {table : VarTable} {expected found : Ty}, table.Settled → table.Light bound →
      table.Ready bound fuel expected found →
        table.Unifying bound [(expected, found)] (unify table expected found))
    {left right : Ty} (settled : table.Settled) (light : table.Light bound)
    (ready : table.Ready bound (fuel + 1) left right)
    (leftRoot : ∀ id, left = .var id → table.Unbound id)
    (rightRoot : ∀ id, right = .var id → table.Unbound id) :
    table.Unifying bound [(left, right)] (unifyHeads unify table left right) := by
  rw [unifyHeads.eq_def]
  split
  · rename_i left right
    by_cases same : left = right
    · rw [if_pos same]
      exact .same settled light (congrArg Ty.var same)
    · rw [if_neg same]
      exact union_unifying settled light (leftRoot _ rfl) (rightRoot _ rfl) same
  · rename_i root structured
    exact bind_unifying settled light (leftRoot _ rfl) ready.foundSmall
      (isVar_eq_false fun id same => structured id same) ready.foundLight
  · rename_i root structured
    exact (bind_unifying settled light (rightRoot _ rfl) ready.expectedSmall
      (isVar_eq_false structured) ready.expectedLight).symm
  · rename_i left right
    by_cases same : left = right
    · rw [if_pos same]
      exact .same settled light (congrArg Ty.base same)
    · rw [if_neg same]
      exact .clash settled light fun vars _ => by simpa using same
  · rename_i left right
    by_cases same : left = right
    · rw [if_pos same]
      exact .same settled light (congrArg Ty.generic same)
    · rw [if_neg same]
      exact .clash settled light fun vars _ => by simpa using same
  · rename_i left right
    exact .of_pairs (fun _ => equalizes_element) (.enclosed (single settled light ready.element))
  · rename_i leftParams left rightParams right
    by_cases lengths : leftParams.length = rightParams.length
    · rw [if_pos lengths]
      exact .of_pairs (fun _ => equalizes_parts lengths)
        (.enclosed (unifyPairs_unifying single _ settled light ready.parts))
    · rw [if_neg lengths]
      refine .clash settled light fun vars _ equal => lengths ?_
      rw [Ty.fill_function, Ty.fill_function, Ty.function.injEq] at equal
      simpa using congrArg List.length equal.1
  · rename_i noLeft noRight _ noBase noGeneric noArray noFunction
    exact .clash settled light fun vars _ => fill_ne_of_heads (isVar_eq_false noLeft)
      (isVar_eq_false noRight) noBase noGeneric noArray noFunction

theorem unifyWithin_unifying (fuel : Nat) (settled : table.Settled) (light : table.Light bound)
    (ready : table.Ready bound fuel expected found) :
    table.Unifying bound [(expected, found)] (unifyWithin fuel table expected found) := by
  induction fuel generalizing table expected found with
  | zero => exact absurd (ready.affords.fuel_pos settled light) (Nat.lt_irrefl 0)
  | succ fuel ih =>
      -- The heads are looked up one after the other, each leaving its paths compressed.
      have first := compressHead_redirects settled expected
      have second := compressHead_redirects first.settled found
      have redirects := first.trans second
      obtain ⟨general, solved⟩ := settled
      obtain ⟨middleGeneral, middleSolved⟩ := first.settled
      obtain ⟨leftSmall, leftRoot⟩ := solved.head ready.expectedSmall
      obtain ⟨rightSmall, rightRoot⟩ :=
        middleSolved.head (ready.foundSmall.mono first.extends.size)
      have heads : ∀ {vars generics : Nat → Ty}, table.Solves vars generics →
          (Equalizes vars generics
              [(table.head expected, (table.compressHead expected).head found)] ↔
            Equalizes vars generics [(expected, found)]) := by
        intro vars generics solves
        rw [equalizes_singleton, equalizes_singleton, solves.head,
          (first.solves.mpr solves).head]
      rw [unifyWithin]
      refine .of_pairs heads (.of_redirects redirects ?_)
      refine unifyHeads_unifying ih redirects.settled (redirects.light light)
        ⟨leftSmall.mono redirects.extends.size, rightSmall.mono second.extends.size,
          light.head ready.expectedLight, (first.light light).head ready.foundLight,
          ready.affords.head.later redirects.extends redirects.size⟩ ?_ ?_
      · exact fun id same => redirects.unbound.mpr (leftRoot id same)
      · exact fun id same => second.unbound.mpr (rightRoot id same)

end Outcomes

theorem unify_unifying {expected found : Ty} (settled : table.Settled)
    (expectedSmall : expected.Scoped table.size) (foundSmall : found.Scoped table.size) :
    table.Unifying (expected.weight + found.weight + table.weight) [(expected, found)]
      (table.unify expected found) := by
  have light : table.Light (expected.weight + found.weight + table.weight) :=
    (light_weight table).mono (by omega)
  have expectedPositive := Ty.weight_pos expected
  have foundPositive := Ty.weight_pos found
  exact unifyWithin_unifying _ settled light
    ⟨expectedSmall, foundSmall, by omega, by omega, affords_of_weight expectedSmall (by omega)⟩

end NodeGraph.VarTable
