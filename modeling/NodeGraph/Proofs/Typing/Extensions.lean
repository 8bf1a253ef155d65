import NodeGraph.Proofs.Typing.Compression

/-!
Changes to a table. A new variable, a binding and a union of classes each leave a settled table
settled, and the solutions afterwards are the earlier ones for which the new equation holds.
-/

namespace NodeGraph.VarTable

/-- A later table has all variables of the earlier one, and its solutions solve both. -/
structure Extends (table later : VarTable) : Prop where
  size : table.size ≤ later.size
  solves : ∀ {vars generics : Nat → Ty}, later.Solves vars generics → table.Solves vars generics

theorem Extends.refl (table : VarTable) : table.Extends table := ⟨Nat.le_refl _, id⟩

theorem Extends.trans {first second third : VarTable} (early : first.Extends second)
    (late : second.Extends third) : first.Extends third :=
  ⟨Nat.le_trans early.size late.size, fun solves => early.solves (late.solves solves)⟩

variable {table later : VarTable} {general : Nat → Ty}

theorem Solves.of_agree (solved : table.Solved general) {vars other generics : Nat → Ty}
    (solves : table.Solves vars generics) (agree : Ty.AgreeBelow table.size vars other) :
    table.Solves other generics where
  link := by
    intro id parent linked
    obtain ⟨inside, _⟩ := Array.getElem?_eq_some_iff.mp linked
    rw [agree id inside, agree parent (solved.linked linked), solves.link linked]
  bound := by
    intro id rank ty bound
    obtain ⟨inside, _⟩ := Array.getElem?_eq_some_iff.mp bound
    rw [agree id inside, (solved.bound bound).1.fill_eq agree, solves.bound bound]

theorem fresh_slots (id : Nat) :
    table.fresh.2.slots[id]? =
      if id = table.size then some (.root 0 none) else table.slots[id]? := by
  rw [fresh]
  exact Array.getElem?_push

theorem fresh_size : table.fresh.2.size = table.size + 1 := by
  simp [fresh, size]

theorem fresh_scoped (table : VarTable) : table.fresh.1.Scoped table.fresh.2.size := by
  rw [fresh_size]
  exact Ty.scoped_var.mpr (Nat.lt_succ_self _)

theorem fresh_root {id rank : Nat} {ty : Ty} :
    table.fresh.2.slots[id]? = some (.root rank (some ty)) ↔
      table.slots[id]? = some (.root rank (some ty)) := by
  have outside : table.slots[table.size]? = none := Array.getElem?_eq_none (Nat.le_refl _)
  rw [fresh_slots]
  split
  · rename_i last
    simp [last, outside]
  · rfl

theorem fresh_link {id parent : Nat} :
    table.fresh.2.slots[id]? = some (.link parent) ↔ table.slots[id]? = some (.link parent) := by
  have outside : table.slots[table.size]? = none := Array.getElem?_eq_none (Nat.le_refl _)
  rw [fresh_slots]
  split
  · rename_i last
    simp [last, outside]
  · rfl

theorem fresh_solves {vars generics : Nat → Ty} :
    table.fresh.2.Solves vars generics ↔ table.Solves vars generics :=
  ⟨fun solves => ⟨fun linked => solves.link (fresh_link.mpr linked),
      fun bound => solves.bound (fresh_root.mpr bound)⟩,
    fun solves => ⟨fun linked => solves.link (fresh_link.mp linked),
      fun bound => solves.bound (fresh_root.mp bound)⟩⟩

theorem fresh_extends (table : VarTable) : table.Extends table.fresh.2 :=
  ⟨by rw [fresh_size]; omega, fresh_solves.mp⟩

theorem Solved.fresh (solved : table.Solved general) : table.fresh.2.Solved general := by
  have old : ∀ {id : Nat}, table.Unbound id → table.fresh.2.Unbound id := by
    intro id unbound
    have inside := unbound.lt
    obtain ⟨rank, found⟩ := unbound
    refine ⟨rank, ?_⟩
    rw [fresh_slots, if_neg (by omega), found]
  have new : table.fresh.2.Unbound table.size := ⟨0, by rw [fresh_slots, if_pos rfl]⟩
  have grows : table.size ≤ table.fresh.2.size := (fresh_extends table).size
  obtain ⟨height, climbs⟩ := solved.forest
  refine ⟨?_, ⟨height, fun id parent linked => climbs id parent (fresh_link.mp linked)⟩, ?_,
    fresh_solves.mpr solved.solves, ?_, ?_, ?_⟩
  · intro id parent linked
    exact Nat.lt_of_lt_of_le (solved.linked (fresh_link.mp linked)) grows
  · intro id rank ty bound
    obtain ⟨small, structured⟩ := solved.bound (fresh_root.mp bound)
    exact ⟨small.mono grows, structured⟩
  · rintro root ⟨rank, found⟩
    rw [fresh_slots] at found
    split at found
    · rename_i last
      exact solved.outside (Nat.le_of_eq last.symm)
    · exact solved.unbound ⟨rank, found⟩
  · intro id inside other mentioned
    rw [fresh_size] at inside
    by_cases last : id = table.size
    · rw [solved.outside (Nat.le_of_eq last.symm), Ty.mem_vars_var, last] at mentioned
      exact mentioned ▸ new
    · exact old (solved.range (by omega) other mentioned)
  · intro id outside
    rw [fresh_size] at outside
    exact solved.outside (by omega)

theorem settled_fresh (settled : table.Settled) : table.fresh.2.Settled := by
  obtain ⟨general, solved⟩ := settled
  exact ⟨general, solved.fresh⟩

theorem fresh_fill_assign (vars generics : Nat → Ty) (ty : Ty) :
    table.fresh.1.fill (Function.update vars table.size ty) generics = ty := by
  rw [fresh, Ty.fill_var, Function.update_self]

/-- The general solution after an unbound root was given a type. -/
def assign (general : Nat → Ty) (root : Nat) (target : Ty) (id : Nat) : Ty :=
  (general id).fill (fun other => if other = root then target else .var other) .generic

theorem fill_assign (root : Nat) (target ty : Ty) :
    ty.fill (assign general root target) .generic =
      (ty.fill general .generic).fill
        (fun other => if other = root then target else .var other) .generic := by
  rw [Ty.fill_fill]
  exact Ty.fill_congr ty fun _ _ => rfl

theorem fill_absent {root : Nat} {target ty : Ty} (absent : root ∉ ty.vars) :
    ty.fill (fun other => if other = root then target else .var other) .generic = ty := by
  refine (Ty.fill_congr ty fun id mentioned => ?_).trans (Ty.fill_self ty)
  rw [if_neg]
  rintro rfl
  exact absent mentioned

section Assign

variable {root : Nat} {target : Ty} (solved : table.Solved general)
  (avoids : root ∉ target.vars) (settled : ∀ other ∈ target.vars, table.Unbound other)
include solved avoids settled

theorem assign_range {id : Nat} (inside : id < table.size) :
    ∀ other ∈ (assign general root target id).vars, table.Unbound other ∧ other ≠ root := by
  intro other mentioned
  obtain ⟨inner, listed, found⟩ := (Ty.mem_vars_fill _).mp mentioned
  by_cases same : inner = root
  · rw [if_pos same] at found
    exact ⟨settled other found, fun equal => avoids (equal ▸ found)⟩
  · rw [if_neg same, Ty.mem_vars_var] at found
    exact found ▸ ⟨solved.range inside inner listed, same⟩

omit avoids settled in
theorem assign_other {id : Nat} (unbound : table.Unbound id) (different : id ≠ root) :
    assign general root target id = .var id := by
  rw [assign, solved.unbound unbound, Ty.fill_var, if_neg different]

omit avoids settled in
theorem assign_root (unbound : table.Unbound root) : assign general root target root = target := by
  rw [assign, solved.unbound unbound, Ty.fill_var, if_pos rfl]

omit avoids settled in
theorem assign_outside (unbound : table.Unbound root) {id : Nat} (outside : table.size ≤ id) :
    assign general root target id = .var id := by
  have inside := unbound.lt
  rw [assign, solved.outside outside, Ty.fill_var, if_neg (by omega)]

end Assign

theorem setBinding_slots {root : Nat} (unbound : table.Unbound root) (ty : Ty) :
    (table.setBinding root ty).size = table.size ∧
      (∃ rank, (table.setBinding root ty).slots[root]? = some (.root rank (some ty))) ∧
      ∀ id, id ≠ root → (table.setBinding root ty).slots[id]? = table.slots[id]? := by
  have inside : root < table.slots.size := unbound.lt
  obtain ⟨rank, found⟩ := unbound
  rw [setBinding, found]
  refine ⟨by simp [size], ⟨rank, by simp [inside]⟩, fun id different => ?_⟩
  exact Array.getElem?_setIfInBounds_ne (Ne.symm different)

theorem Unbound.not_linked {root parent : Nat} (unbound : table.Unbound root) :
    table.slots[root]? ≠ some (.link parent) := by
  obtain ⟨rank, found⟩ := unbound
  rw [found]
  exact fun impossible => by cases impossible

theorem Unbound.not_bound {root rank : Nat} {ty : Ty} (unbound : table.Unbound root) :
    table.slots[root]? ≠ some (.root rank (some ty)) := by
  obtain ⟨rank, found⟩ := unbound
  rw [found]
  exact fun impossible => by cases impossible

theorem setBinding_solves {root : Nat} (unbound : table.Unbound root) (ty : Ty)
    {vars generics : Nat → Ty} :
    (table.setBinding root ty).Solves vars generics ↔
      table.Solves vars generics ∧ vars root = ty.fill vars generics := by
  obtain ⟨_, ⟨rank, new⟩, others⟩ := setBinding_slots unbound ty
  constructor
  · refine fun solves => ⟨⟨?_, ?_⟩, solves.bound new⟩
    · intro id parent linked
      refine solves.link ?_
      rw [others, linked]
      rintro rfl
      exact unbound.not_linked linked
    · intro id rank ty bound
      refine @Solves.bound _ _ _ solves id rank ty ?_
      rw [others, bound]
      rintro rfl
      exact unbound.not_bound bound
  · refine fun ⟨solves, equal⟩ => ⟨?_, ?_⟩
    · intro id parent linked
      by_cases same : id = root
      · rw [same, new] at linked
        cases linked
      · rw [others id same] at linked
        exact solves.link linked
    · intro id otherRank other bound
      by_cases same : id = root
      · rw [same, new] at bound
        cases bound
        rw [same, equal]
      · rw [others id same] at bound
        exact solves.bound bound

theorem Solved.setBinding (solved : table.Solved general) {root : Nat} {ty : Ty}
    (unbound : table.Unbound root) (small : ty.Scoped table.size) (structured : ty.isVar = false)
    (absent : root ∉ (ty.fill general .generic).vars) :
    (table.setBinding root ty).Solved (assign general root (ty.fill general .generic)) := by
  obtain ⟨size, ⟨rank, new⟩, others⟩ := setBinding_slots unbound ty
  have settled : ∀ other ∈ (ty.fill general .generic).vars, table.Unbound other :=
    fun _ => solved.unbound_fill small
  have old : ∀ {id parent : Nat}, (table.setBinding root ty).slots[id]? = some (.link parent) →
      table.slots[id]? = some (.link parent) := by
    intro id parent linked
    by_cases same : id = root
    · rw [same, new] at linked
      cases linked
    · rwa [others id same] at linked
  obtain ⟨height, climbs⟩ := solved.forest
  refine ⟨?_, ⟨height, fun id parent linked => climbs id parent (old linked)⟩, ?_, ⟨?_, ?_⟩, ?_,
    ?_, ?_⟩
  · intro id parent linked
    rw [size]
    exact solved.linked (old linked)
  · intro id otherRank other bound
    rw [size]
    by_cases same : id = root
    · rw [same, new] at bound
      cases bound
      exact ⟨small, structured⟩
    · rw [others id same] at bound
      exact solved.bound bound
  · intro id parent linked
    rw [assign, assign, solved.solves.link (old linked)]
  · intro id otherRank other bound
    rw [fill_assign]
    by_cases same : id = root
    · rw [same, new] at bound
      cases bound
      rw [same, assign_root solved unbound, fill_absent absent]
    · rw [others id same] at bound
      rw [assign, solved.solves.bound bound]
  · rintro other ⟨otherRank, found⟩
    by_cases same : other = root
    · rw [same, new] at found
      cases found
    · rw [others other same] at found
      exact assign_other solved ⟨otherRank, found⟩ same
  · intro id inside other mentioned
    rw [size] at inside
    obtain ⟨⟨otherRank, found⟩, different⟩ :=
      assign_range solved absent settled inside other mentioned
    exact ⟨otherRank, by rw [others other different, found]⟩
  · intro id outside
    rw [size] at outside
    exact assign_outside solved unbound outside

structure Links (table : VarTable) (child parent : Nat) (later : VarTable) : Prop where
  size : later.size = table.size
  linked : later.slots[child]? = some (.link parent)
  rooted : later.Unbound parent
  others : ∀ id : Nat, id ≠ child → id ≠ parent → later.slots[id]? = table.slots[id]?

theorem links_of_slots {child parent : Nat} (childUnbound : table.Unbound child)
    (parentUnbound : table.Unbound parent) (different : child ≠ parent)
    (shape : later.slots = table.slots.setIfInBounds child (.link parent) ∨
      ∃ rank, later.slots =
        (table.slots.setIfInBounds child (.link parent)).setIfInBounds parent (.root rank none)) :
    table.Links child parent later := by
  have childInside : child < table.slots.size := childUnbound.lt
  have parentInside : parent < table.slots.size := parentUnbound.lt
  obtain ⟨old, found⟩ := parentUnbound
  rcases shape with shape | ⟨rank, shape⟩
  · refine ⟨by simp [size, shape], by simp [shape, childInside], ⟨old, ?_⟩, ?_⟩
    · rw [shape, Array.getElem?_setIfInBounds_ne different, found]
    · intro id notChild _
      rw [shape, Array.getElem?_setIfInBounds_ne (Ne.symm notChild)]
  · refine ⟨by simp [size, shape], ?_, ⟨rank, by simp [shape, parentInside]⟩, ?_⟩
    · rw [shape, Array.getElem?_setIfInBounds_ne (Ne.symm different)]
      simp [childInside]
    · intro id notChild notParent
      rw [shape, Array.getElem?_setIfInBounds_ne (Ne.symm notParent),
        Array.getElem?_setIfInBounds_ne (Ne.symm notChild)]

theorem union_links {left right : Nat} (leftUnbound : table.Unbound left)
    (rightUnbound : table.Unbound right) (different : left ≠ right) :
    table.Links left right (table.union left right) ∨
      table.Links right left (table.union left right) := by
  have kept : ∀ {child parent : Nat}, table.Unbound parent → child ≠ parent →
      ∃ rank, (table.slots.setIfInBounds child (.link parent))[parent]? =
        some (.root rank none) := by
    rintro child parent ⟨rank, found⟩ apart
    exact ⟨rank, by rw [Array.getElem?_setIfInBounds_ne apart, found]⟩
  rw [union]
  by_cases lower : table.rank left < table.rank right
  · refine Or.inl (links_of_slots leftUnbound rightUnbound different ?_)
    obtain ⟨rank, found⟩ := kept rightUnbound different
    simp only [lower, if_true, found]
    split
    · exact Or.inr ⟨_, rfl⟩
    · exact Or.inl rfl
  · refine Or.inr (links_of_slots rightUnbound leftUnbound (Ne.symm different) ?_)
    obtain ⟨rank, found⟩ := kept leftUnbound (Ne.symm different)
    simp only [lower, if_false, found]
    split
    · exact Or.inr ⟨_, rfl⟩
    · exact Or.inl rfl

theorem Links.binding {child parent : Nat} (links : table.Links child parent later) {id rank : Nat}
    {ty : Ty} (bound : later.slots[id]? = some (.root rank (some ty))) :
    table.slots[id]? = some (.root rank (some ty)) := by
  by_cases isChild : id = child
  · rw [isChild, links.linked] at bound
    cases bound
  · by_cases isParent : id = parent
    · exact absurd bound (isParent ▸ links.rooted).not_bound
    · rwa [links.others id isChild isParent] at bound

theorem Links.link {child parent : Nat} (links : table.Links child parent later) {id up : Nat}
    (linked : later.slots[id]? = some (.link up)) :
    (id = child ∧ up = parent) ∨
      (id ≠ child ∧ id ≠ parent ∧ table.slots[id]? = some (.link up)) := by
  by_cases isChild : id = child
  · rw [isChild, links.linked] at linked
    cases linked
    exact Or.inl ⟨isChild, rfl⟩
  · by_cases isParent : id = parent
    · exact absurd linked (isParent ▸ links.rooted).not_linked
    · rw [links.others id isChild isParent] at linked
      exact Or.inr ⟨isChild, isParent, linked⟩

theorem Links.solves {child parent : Nat} (links : table.Links child parent later)
    (childUnbound : table.Unbound child) (parentUnbound : table.Unbound parent)
    {vars generics : Nat → Ty} :
    later.Solves vars generics ↔ table.Solves vars generics ∧ vars child = vars parent := by
  constructor
  · refine fun solves => ⟨⟨?_, ?_⟩, solves.link links.linked⟩
    · intro id up linked
      refine solves.link ?_
      rw [links.others id, linked]
      · rintro rfl
        exact childUnbound.not_linked linked
      · rintro rfl
        exact parentUnbound.not_linked linked
    · intro id rank ty bound
      refine @Solves.bound _ _ _ solves id rank ty ?_
      rw [links.others id, bound]
      · rintro rfl
        exact childUnbound.not_bound bound
      · rintro rfl
        exact parentUnbound.not_bound bound
  · refine fun ⟨solves, equal⟩ =>
      ⟨fun linked => ?_, fun bound => solves.bound (links.binding bound)⟩
    rcases links.link linked with ⟨rfl, rfl⟩ | ⟨_, _, old⟩
    · exact equal
    · exact solves.link old

theorem Solved.union (solved : table.Solved general) {child parent : Nat}
    (links : table.Links child parent later) (different : child ≠ parent)
    (childUnbound : table.Unbound child) (parentUnbound : table.Unbound parent) :
    later.Solved (assign general child (.var parent)) := by
  have avoids : child ∉ (Ty.var parent).vars := by
    rw [Ty.mem_vars_var]
    exact different
  have settled : ∀ other ∈ (Ty.var parent).vars, table.Unbound other := by
    intro other mentioned
    rw [Ty.mem_vars_var.mp mentioned]
    exact parentUnbound
  obtain ⟨height, climbs⟩ := solved.forest
  refine ⟨?_, ?_, ?_, ⟨?_, ?_⟩, ?_, ?_, ?_⟩
  · intro id up linked
    rw [links.size]
    rcases links.link linked with ⟨_, rfl⟩ | ⟨_, _, old⟩
    · exact parentUnbound.lt
    · exact solved.linked old
  · -- The parent is a root, so it can be lifted above the child without breaking a link.
    refine ⟨fun id => if id = parent then height parent + height child + 1 else height id, ?_⟩
    intro id up linked
    rcases links.link linked with ⟨rfl, rfl⟩ | ⟨_, notParent, old⟩
    · simp only [different, if_false, if_true]
      omega
    · have climb := climbs id up old
      simp only [notParent, if_false]
      split
      · rename_i toParent
        rw [toParent] at climb
        omega
      · exact climb
  · intro id rank ty bound
    rw [links.size]
    exact solved.bound (links.binding bound)
  · intro id up linked
    rcases links.link linked with ⟨rfl, rfl⟩ | ⟨_, _, old⟩
    · rw [assign_root solved childUnbound, assign_other solved parentUnbound (Ne.symm different)]
    · rw [assign, assign, solved.solves.link old]
  · intro id rank ty bound
    rw [fill_assign, assign, solved.solves.bound (links.binding bound)]
  · intro root unbound
    by_cases isChild : root = child
    · exact absurd links.linked (isChild ▸ unbound).not_linked
    · by_cases isParent : root = parent
      · rw [isParent]
        exact assign_other solved parentUnbound (Ne.symm different)
      · obtain ⟨rank, found⟩ := unbound
        rw [links.others root isChild isParent] at found
        exact assign_other solved ⟨rank, found⟩ isChild
  · intro id inside other mentioned
    rw [links.size] at inside
    obtain ⟨⟨rank, found⟩, notChild⟩ := assign_range solved avoids settled inside other mentioned
    by_cases isParent : other = parent
    · exact isParent ▸ links.rooted
    · exact ⟨rank, by rw [links.others other notChild isParent, found]⟩
  · intro id outside
    rw [links.size] at outside
    exact assign_outside solved childUnbound outside

end NodeGraph.VarTable
