import Mathlib.Data.List.Forall2
import NodeGraph.Proofs.Typing.MostGeneral
import NodeGraph.Proofs.Typing.Opening

/-!
Runs that end. Every operation of a table is told once more without fuel, as the rules by which a
finite run of its loop or recursion goes; what has no finite run is related to nothing. On a table
that the operations have built, links lead to roots and no variable is reached from itself through
bindings, so each operation has such a run, and it is the one that is computed with fuel.
-/

namespace NodeGraph

inductive Ty.HeadsAgree : Ty → Ty → Prop
  | base (kind : BaseType) : HeadsAgree (.base kind) (.base kind)
  | generic (number : Nat) : HeadsAgree (.generic number) (.generic number)
  | array (left right : Ty) : HeadsAgree (.array left) (.array right)
  | function {leftParams rightParams : List Ty} (left right : Ty)
      (lengths : leftParams.length = rightParams.length) :
      HeadsAgree (.function leftParams left) (.function rightParams right)

namespace VarTable

/-! ### Finite runs -/

section Rules

variable (table : VarTable)

inductive Finds : Nat → Nat → Prop
  | root {id rank : Nat} {binding : Option Ty}
      (found : table.slots[id]? = some (.root rank binding)) : Finds id id
  | link {id parent root : Nat} (linked : table.slots[id]? = some (.link parent))
      (onward : Finds parent root) : Finds id root

inductive Resolves : Ty → Ty → Prop
  | base (kind : BaseType) : Resolves (.base kind) (.base kind)
  | generic (number : Nat) : Resolves (.generic number) (.generic number)
  | array {element resolved : Ty} (inside : Resolves element resolved) :
      Resolves (.array element) (.array resolved)
  | function {params resolvedParams : List Ty} {result resolved : Ty}
      (insides : List.Forall₂ Resolves params resolvedParams)
      (inside : Resolves result resolved) :
      Resolves (.function params result) (.function resolvedParams resolved)
  | unbound {id root rank : Nat} (lookup : table.Finds id root)
      (free : table.slots[root]? = some (.root rank none)) : Resolves (.var id) (.var root)
  | bound {id root rank : Nat} {ty resolved : Ty} (lookup : table.Finds id root)
      (found : table.slots[root]? = some (.root rank (some ty)))
      (onward : Resolves ty resolved) : Resolves (.var id) resolved

mutual

inductive Seeks (sought : Nat) : Ty → Bool → Prop
  | base (kind : BaseType) : Seeks sought (.base kind) false
  | generic (number : Nat) : Seeks sought (.generic number) false
  | array {element : Ty} {met : Bool} (inside : Seeks sought element met) :
      Seeks sought (.array element) met
  | param {params : List Ty} {result : Ty} (insides : SeeksAny sought params true) :
      Seeks sought (.function params result) true
  | result {params : List Ty} {result : Ty} {met : Bool} (insides : SeeksAny sought params false)
      (inside : Seeks sought result met) : Seeks sought (.function params result) met
  | met {id : Nat} (lookup : table.Finds id sought) : Seeks sought (.var id) true
  | unbound {id root rank : Nat} (lookup : table.Finds id root) (other : root ≠ sought)
      (free : table.slots[root]? = some (.root rank none)) : Seeks sought (.var id) false
  | bound {id root rank : Nat} {ty : Ty} {met : Bool} (lookup : table.Finds id root)
      (other : root ≠ sought) (found : table.slots[root]? = some (.root rank (some ty)))
      (onward : Seeks sought ty met) : Seeks sought (.var id) met

inductive SeeksAny (sought : Nat) : List Ty → Bool → Prop
  | nil : SeeksAny sought [] false
  | here {ty : Ty} {rest : List Ty} (inside : Seeks sought ty true) :
      SeeksAny sought (ty :: rest) true
  | later {ty : Ty} {rest : List Ty} {met : Bool} (inside : Seeks sought ty false)
      (onward : SeeksAny sought rest met) : SeeksAny sought (ty :: rest) met

end

mutual

/-- A type is resolved and its variables are named, and so again are the parts of what it resolves
to. -/
inductive Generalizes : List Nat → Ty → Ty → List Nat → Prop
  | base {names : List Nat} {ty : Ty} {kind : BaseType}
      (resolved : table.Resolves ty (.base kind)) : Generalizes names ty (.base kind) names
  | generic {names : List Nat} {ty : Ty} {number : Nat}
      (resolved : table.Resolves ty (.generic number)) : Generalizes names ty (.generic number) names
  | var {names : List Nat} {ty : Ty} {id : Nat} (resolved : table.Resolves ty (.var id)) :
      Generalizes names ty (.generic (Ty.nameOf names id).1) (Ty.nameOf names id).2
  | array {names later : List Nat} {ty element named : Ty}
      (resolved : table.Resolves ty (.array element))
      (inside : Generalizes names element named later) : Generalizes names ty (.array named) later
  | function {names middle later : List Nat} {ty result named : Ty} {params namedParams : List Ty}
      (resolved : table.Resolves ty (.function params result))
      (insides : GeneralizesAll names params namedParams middle)
      (inside : Generalizes middle result named later) :
      Generalizes names ty (.function namedParams named) later

inductive GeneralizesAll : List Nat → List Ty → List Ty → List Nat → Prop
  | nil {names : List Nat} : GeneralizesAll names [] [] names
  | cons {names middle later : List Nat} {ty named : Ty} {rest others : List Ty}
      (first : Generalizes names ty named middle)
      (onward : GeneralizesAll middle rest others later) :
      GeneralizesAll names (ty :: rest) (named :: others) later

end

end Rules

inductive Relinks (root : Nat) : VarTable → Nat → VarTable → Prop
  | done {table : VarTable} {id rank : Nat} {binding : Option Ty}
      (found : table.slots[id]? = some (.root rank binding)) : Relinks root table id table
  | link {table later : VarTable} {id parent : Nat}
      (linked : table.slots[id]? = some (.link parent))
      (onward : Relinks root (table.redirect id root) parent later) : Relinks root table id later

structure Compresses (table : VarTable) (id root : Nat) (later : VarTable) : Prop where
  lookup : table.Finds id root
  relinks : Relinks root table id later

inductive Heads : VarTable → Ty → Ty → VarTable → Prop
  | structured {table : VarTable} {ty : Ty} (structured : ty.isVar = false) :
      Heads table ty ty table
  | unbound {table later : VarTable} {id root rank : Nat} (lookup : table.Compresses id root later)
      (free : later.slots[root]? = some (.root rank none)) :
      Heads table (.var id) (.var root) later
  | bound {table middle later : VarTable} {id root rank : Nat} {ty head : Ty}
      (lookup : table.Compresses id root middle)
      (found : middle.slots[root]? = some (.root rank (some ty)))
      (onward : Heads middle ty head later) : Heads table (.var id) head later

inductive Binds (table : VarTable) (id : Nat) (ty : Ty) : VarTable × Except UnifyError Unit → Prop
  | infinite {resolved : Ty} {root : Nat} (lookup : table.Finds id root)
      (met : table.Seeks root ty true) (told : table.Resolves ty resolved) :
      Binds table id ty (table, .error (.infinite (.var id) resolved))
  | bound {later : VarTable} {root : Nat} (unmet : table.Seeks root ty false)
      (lookup : table.Compresses id root later) :
      Binds table id ty (later.setBinding root ty, .ok ())

/-- A mismatch further inside is told again in terms of the types around it. -/
inductive Widens (expected found : Ty) :
    VarTable × Except UnifyError Unit → VarTable × Except UnifyError Unit → Prop
  | ok {table : VarTable} : Widens expected found (table, .ok ()) (table, .ok ())
  | infinite {table : VarTable} {root ty : Ty} :
      Widens expected found (table, .error (.infinite root ty))
        (table, .error (.infinite root ty))
  | mismatch {table : VarTable} {left right toldExpected toldFound : Ty}
      (expectedTold : table.Resolves expected toldExpected)
      (foundTold : table.Resolves found toldFound) :
      Widens expected found (table, .error (.mismatch left right))
        (table, .error (.mismatch toldExpected toldFound))

mutual

inductive Unifies : VarTable → Ty → Ty → VarTable × Except UnifyError Unit → Prop
  | heads {table middle later : VarTable} {expected found left right : Ty}
      {run : VarTable × Except UnifyError Unit} (expectedHead : table.Heads expected left middle)
      (foundHead : middle.Heads found right later) (onward : UnifiesHeads later left right run) :
      Unifies table expected found run

inductive UnifiesHeads : VarTable → Ty → Ty → VarTable × Except UnifyError Unit → Prop
  | same {table : VarTable} (id : Nat) : UnifiesHeads table (.var id) (.var id) (table, .ok ())
  | union {table middle later : VarTable} {left right leftRoot rightRoot : Nat}
      (different : left ≠ right) (leftLookup : table.Compresses left leftRoot middle)
      (rightLookup : middle.Compresses right rightRoot later) :
      UnifiesHeads table (.var left) (.var right) (later.union leftRoot rightRoot, .ok ())
  | bindLeft {table : VarTable} {id : Nat} {ty : Ty} {run : VarTable × Except UnifyError Unit}
      (structured : ty.isVar = false) (binds : table.Binds id ty run) :
      UnifiesHeads table (.var id) ty run
  | bindRight {table : VarTable} {id : Nat} {ty : Ty} {run : VarTable × Except UnifyError Unit}
      (structured : ty.isVar = false) (binds : table.Binds id ty run) :
      UnifiesHeads table ty (.var id) run
  | base {table : VarTable} (kind : BaseType) :
      UnifiesHeads table (.base kind) (.base kind) (table, .ok ())
  | generic {table : VarTable} (number : Nat) :
      UnifiesHeads table (.generic number) (.generic number) (table, .ok ())
  | array {table : VarTable} {left right : Ty} {inner run : VarTable × Except UnifyError Unit}
      (inside : Unifies table left right inner)
      (told : Widens (.array left) (.array right) inner run) :
      UnifiesHeads table (.array left) (.array right) run
  | function {table : VarTable} {leftParams rightParams : List Ty} {left right : Ty}
      {inner run : VarTable × Except UnifyError Unit}
      (lengths : leftParams.length = rightParams.length)
      (insides : UnifiesAll table (leftParams.zip rightParams ++ [(left, right)]) inner)
      (told : Widens (.function leftParams left) (.function rightParams right) inner run) :
      UnifiesHeads table (.function leftParams left) (.function rightParams right) run
  | clash {table : VarTable} {left right toldLeft toldRight : Ty} (apart : ¬ left.HeadsAgree right)
      (leftStructured : left.isVar = false) (rightStructured : right.isVar = false)
      (leftTold : table.Resolves left toldLeft) (rightTold : table.Resolves right toldRight) :
      UnifiesHeads table left right (table, .error (.mismatch toldLeft toldRight))

inductive UnifiesAll : VarTable → List (Ty × Ty) → VarTable × Except UnifyError Unit → Prop
  | nil {table : VarTable} : UnifiesAll table [] (table, .ok ())
  | failed {table later : VarTable} {expected found : Ty} {rest : List (Ty × Ty)}
      {error : UnifyError} (first : Unifies table expected found (later, .error error)) :
      UnifiesAll table ((expected, found) :: rest) (later, .error error)
  | onward {table middle : VarTable} {expected found : Ty} {rest : List (Ty × Ty)}
      {run : VarTable × Except UnifyError Unit}
      (first : Unifies table expected found (middle, .ok ()))
      (others : UnifiesAll middle rest run) : UnifiesAll table ((expected, found) :: rest) run

end

variable {table later : VarTable} {general : Nat → Ty}

/-! ### Lookups -/

theorem Finds.rooted {id root : Nat} (finds : table.Finds id root) :
    ∃ rank binding, table.slots[root]? = some (.root rank binding) := by
  induction finds with
  | root found => exact ⟨_, _, found⟩
  | link linked onward ih => exact ih

theorem Finds.unique {id root other : Nat} (finds : table.Finds id root)
    (again : table.Finds id other) : root = other := by
  induction finds with
  | root found =>
      cases again with
      | root _ => rfl
      | link linked _ => simp [found] at linked
  | link linked onward ih =>
      cases again with
      | root found => simp [found] at linked
      | link step onward =>
          rw [linked] at step
          cases step
          exact ih onward

theorem Leads.finds {id root rank : Nat} {binding : Option Ty} (path : table.Leads id root)
    (found : table.slots[root]? = some (.root rank binding)) : table.Finds id root := by
  induction path using Relation.ReflTransGen.head_induction_on with
  | refl => exact .root found
  | head linked _ ih => exact .link linked ih

theorem Solved.finds (solved : table.Solved general) {id : Nat} (inside : id < table.size) :
    table.Finds id (table.find id) := by
  obtain ⟨rank, binding, found⟩ := solved.find_root inside
  exact Leads.finds (leads_follow table table.size id) found

theorem Finds.redirect {id parent root : Nat} (linked : table.slots[id]? = some (.link parent))
    (lookup : table.Finds id root) {other last : Nat} (finds : table.Finds other last) :
    (table.redirect id root).Finds other last := by
  induction finds with
  | root found => exact .root ((redirect_roots linked).mpr found)
  | @link there up last step onward ih =>
      by_cases same : there = id
      · have ends : root = last := lookup.unique (same ▸ .link step onward)
        obtain ⟨rank, binding, found⟩ := onward.rooted
        have step : (table.redirect id root).slots[there]? = some (.link root) := by
          rw [redirect_slots linked, if_pos same]
        refine .link step ?_
        rw [ends] at *
        exact .root ((redirect_roots linked).mpr found)
      · refine .link ?_ ih
        rw [redirect_slots linked, if_neg same, step]

theorem Finds.relinks (settled : table.Settled) {fuel id root : Nat} (lookup : table.Finds id root)
    (ends : table.follow fuel id = root) : Relinks root table id (table.relink root fuel id) := by
  induction fuel generalizing table id with
  | zero =>
      obtain ⟨rank, binding, found⟩ := lookup.rooted
      rw [follow] at ends
      rw [relink]
      exact .done (ends ▸ found)
  | succ fuel ih =>
      rw [follow] at ends
      rw [relink]
      cases lookup with
      | root found =>
          rw [found]
          exact .done found
      | @link _ parent _ linked onward =>
          rw [linked] at ends ⊢
          obtain ⟨general, solved⟩ := settled
          have path : table.Leads parent root := ends ▸ leads_follow table fuel parent
          have kept := Finds.redirect linked (.link linked onward) onward
          refine .link linked (ih (redirect_redirects solved linked path).settled kept ?_)
          rw [follow_redirect solved root linked]
          exact ends

theorem Finds.relinked {id root : Nat} (lookup : table.Finds id root)
    (relinks : Relinks root table id later) {other last : Nat} (finds : table.Finds other last) :
    later.Finds other last := by
  induction relinks with
  | done _ => exact finds
  | @link table later id parent linked onward ih =>
      cases lookup with
      | root found => simp [found] at linked
      | @link _ up _ step further =>
          rw [linked] at step
          cases step
          have whole : table.Finds id root := .link linked further
          exact ih (whole.redirect linked further) (whole.redirect linked finds)

theorem Settled.compresses (settled : table.Settled) {id : Nat} (inside : id < table.size) :
    table.Compresses id (table.find id) (table.compress id) := by
  have ⟨general, solved⟩ := settled
  have lookup := solved.finds inside
  exact ⟨lookup, lookup.relinks settled rfl⟩

theorem Settled.find_compress (settled : table.Settled) {id other : Nat} (inside : id < table.size)
    (bound : other < table.size) : (table.compress id).find other = table.find other := by
  have redirects := compress_redirects settled id
  obtain ⟨lookup, relinks⟩ := settled.compresses inside
  obtain ⟨general, solved⟩ := settled
  obtain ⟨laterGeneral, laterSolved⟩ := redirects.settled
  have kept := lookup.relinked relinks (solved.finds bound)
  exact (laterSolved.finds (redirects.size ▸ bound)).unique kept

theorem Compresses.root {root rank : Nat} {binding : Option Ty}
    (found : table.slots[root]? = some (.root rank binding)) : table.Compresses root root table :=
  ⟨.root found, .done found⟩

/-! ### No cycles -/

/-- A variable's class is bound to a type that has a variable of the other one's class. -/
def Mentions (table : VarTable) (id other : Nat) : Prop :=
  ∃ ty, table.binding? id = some ty ∧ ∃ inner ∈ ty.vars, table.find inner = table.find other

theorem Solved.mentions (solved : table.Solved general) {id other : Nat}
    (mentions : table.Mentions id other) : (general other).weight < (general id).weight := by
  obtain ⟨ty, found, inner, mentioned, same⟩ := mentions
  have structured := (solved.binding_scoped found).2
  have equal : general inner = general other := by
    rw [← solved.solves.find inner, same, solved.solves.find]
  rw [solved.solves.binding? found, ← equal]
  exact Ty.weight_lt_fill structured mentioned

theorem Solved.acyclic (solved : table.Solved general) (id : Nat) :
    ¬ Relation.TransGen table.Mentions id id := by
  have smaller : ∀ {other : Nat}, Relation.TransGen table.Mentions id other →
      (general other).weight < (general id).weight := by
    intro other path
    induction path with
    | single mentions => exact solved.mentions mentions
    | tail _ mentions ih => exact Nat.lt_trans (solved.mentions mentions) ih
  exact fun cycle => Nat.lt_irrefl _ (smaller cycle)

/-! ### Looking into types -/

theorem Redirects.resolve (settled : table.Settled) (redirects : table.Redirects later) {ty : Ty}
    (small : ty.Scoped table.size) : later.resolve ty = table.resolve ty := by
  obtain ⟨general, solved⟩ := settled
  obtain ⟨laterGeneral, laterSolved⟩ := redirects.settled
  -- The later solution solves the earlier table too, so it comes from the general one there.
  have factors := solved.factors (redirects.solves.mp laterSolved.solves) small
  rw [laterSolved.resolve (redirects.size ▸ small), solved.resolve small, ← factors]
  exact laterSolved.fill_of_unbound fun id mentioned =>
    redirects.unbound.mpr (solved.unbound_fill small mentioned)

theorem Settled.heads (settled : table.Settled) {ty : Ty} (small : ty.Scoped table.size) :
    table.Heads ty (table.head ty) (table.compressHead ty) := by
  cases structured : ty.isVar with
  | false =>
      rw [head, compressHead, headWithin_structured structured,
        Renames.compressHeadWithin_structured structured]
      exact .structured structured
  | true =>
      cases ty with
      | «var» id =>
          have inside := Ty.scoped_var.mp small
          have redirects := compress_redirects settled id
          have lookup := settled.compresses inside
          have same : (table.compress id).binding? id = table.binding? id := by
            refine Option.ext fun ty => ?_
            rw [binding?_eq_some, binding?_eq_some, settled.find_compress inside inside]
            exact exists_congr fun _ => redirects.roots
          obtain ⟨general, solved⟩ := settled
          rw [head, compressHead, headWithin, compressHeadWithin, same]
          cases found : table.binding? id with
          | none =>
              obtain ⟨rank, free⟩ := solved.find_unbound inside found
              exact .unbound lookup (redirects.roots.mpr free)
          | some ty =>
              have structured := (solved.binding_scoped found).2
              obtain ⟨rank, slot⟩ := binding?_eq_some.mp found
              simp only [headWithin_structured structured,
                Renames.compressHeadWithin_structured structured]
              exact .bound lookup (redirects.roots.mpr slot) (.structured structured)
      | _ => cases structured

theorem Enough.resolves (solved : table.Solved general) {fuel : Nat} {ty : Ty}
    (enough : table.Enough fuel ty) (small : ty.Scoped table.size) :
    table.Resolves ty (table.resolveWithin fuel ty) := by
  induction enough with
  | base kind =>
      simp only [resolveWithin]
      exact .base kind
  | generic number =>
      simp only [resolveWithin]
      exact .generic number
  | array inside ih =>
      rw [resolveWithin]
      exact .array (ih (Ty.scoped_array.mp small))
  | function insides inside params_ih ih =>
      obtain ⟨paramsSmall, resultSmall⟩ := Ty.scoped_function.mp small
      rw [resolveWithin]
      refine .function (List.forall₂_map_right_iff.mpr (List.forall₂_same.mpr ?_)) (ih resultSmall)
      exact fun param member => params_ih param member (paramsSmall param member)
  | unbound free missing =>
      obtain ⟨rank, found⟩ := free
      rw [resolveWithin, missing]
      exact .unbound (solved.finds (Ty.scoped_var.mp small)) found
  | bound found inside ih =>
      obtain ⟨rank, slot⟩ := binding?_eq_some.mp found
      rw [resolveWithin, found]
      exact .bound (solved.finds (Ty.scoped_var.mp small)) slot (ih (solved.binding_scoped found).1)

theorem Solved.resolves (solved : table.Solved general) {ty : Ty} (small : ty.Scoped table.size) :
    table.Resolves ty (table.resolve ty) :=
  (solved.enough small).resolves solved small

theorem seeksAny_any {sought : Nat} {types : List Ty} {met : Ty → Bool}
    (each : ∀ ty ∈ types, table.Seeks sought ty (met ty)) :
    table.SeeksAny sought types (types.any met) := by
  induction types with
  | nil => exact .nil
  | cons ty rest ih =>
      obtain ⟨here, others⟩ := List.forall_mem_cons.mp each
      rw [List.any_cons]
      cases found : met ty with
      | true =>
          rw [found] at here
          exact .here here
      | false =>
          rw [found] at here
          exact .later here (ih others)

theorem Enough.seeks (solved : table.Solved general) (sought : Nat) {fuel : Nat} {ty : Ty}
    (enough : table.Enough fuel ty) (small : ty.Scoped table.size) :
    table.Seeks sought ty (table.occursWithin sought fuel ty) := by
  induction enough with
  | base kind =>
      simp only [occursWithin]
      exact .base kind
  | generic number =>
      simp only [occursWithin]
      exact .generic number
  | array inside ih =>
      rw [occursWithin]
      exact .array (ih (Ty.scoped_array.mp small))
  | @function fuel params result insides inside params_ih ih =>
      obtain ⟨paramsSmall, resultSmall⟩ := Ty.scoped_function.mp small
      have any := seeksAny_any fun param member => params_ih param member (paramsSmall param member)
      rw [occursWithin]
      cases met : params.any (table.occursWithin sought fuel) with
      | true =>
          rw [met] at any
          exact .param any
      | false =>
          rw [met] at any
          exact .result any (ih resultSmall)
  | @unbound fuel id free missing =>
      obtain ⟨rank, found⟩ := free
      have lookup := solved.finds (Ty.scoped_var.mp small)
      rw [occursWithin, missing]
      by_cases same : table.find id = sought
      · rw [if_pos same]
        exact .met (same ▸ lookup)
      · rw [if_neg same]
        exact .unbound lookup same found
  | @bound fuel id ty found inside ih =>
      obtain ⟨rank, slot⟩ := binding?_eq_some.mp found
      have lookup := solved.finds (Ty.scoped_var.mp small)
      rw [occursWithin, found]
      by_cases same : table.find id = sought
      · rw [if_pos same]
        exact .met (same ▸ lookup)
      · rw [if_neg same]
        exact .bound lookup same slot (ih (solved.binding_scoped found).1)

theorem Solved.seeks (solved : table.Solved general) (id : Nat) {ty : Ty}
    (small : ty.Scoped table.size) : table.Seeks (table.find id) ty (table.occurs id ty) :=
  (solved.enough small).seeks solved _ small

/-! ### Generalizing -/

theorem Solved.resolves_self (solved : table.Solved general) {ty : Ty}
    (unbound : ∀ id ∈ ty.vars, table.Unbound id) : table.Resolves ty ty := by
  have small : ty.Scoped table.size := fun id mentioned => (unbound id mentioned).lt
  have resolves := solved.resolves small
  rwa [solved.resolve small, solved.fill_of_unbound unbound] at resolves

mutual

theorem Solved.generalizes (solved : table.Solved general) (names : List Nat) {ty : Ty}
    (resolved : Ty) (unbound : ∀ id ∈ resolved.vars, table.Unbound id)
    (resolves : table.Resolves ty resolved) :
    table.Generalizes names ty (resolved.nameVars names).1 (resolved.nameVars names).2 := by
  match resolved with
  | .base kind =>
      simp only [Ty.nameVars]
      exact .base resolves
  | .array element =>
      have inside := Solved.generalizes solved names element unbound
        (solved.resolves_self unbound)
      rw [Ty.nameVars_array]
      exact .array resolves inside
  | .function params result =>
      have resultUnbound : ∀ id ∈ result.vars, table.Unbound id := fun id mentioned =>
        unbound id (Ty.mem_vars_function.mpr (Or.inr mentioned))
      have insides := Solved.generalizesAll solved names params fun param member id mentioned =>
        unbound id (Ty.mem_vars_function.mpr (Or.inl ⟨param, member, mentioned⟩))
      have inside := Solved.generalizes solved (Ty.nameVarsList names params).2 result
        resultUnbound (solved.resolves_self resultUnbound)
      rw [Ty.nameVars_function]
      exact .function resolves insides inside
  | .var id =>
      rw [Ty.nameVars_var]
      exact .var resolves
  | .generic number =>
      simp only [Ty.nameVars]
      exact .generic resolves

theorem Solved.generalizesAll (solved : table.Solved general) (names : List Nat) (types : List Ty)
    (unbound : ∀ ty ∈ types, ∀ id ∈ ty.vars, table.Unbound id) :
    table.GeneralizesAll names types (Ty.nameVarsList names types).1
      (Ty.nameVarsList names types).2 := by
  match types with
  | [] => exact .nil
  | ty :: rest =>
      obtain ⟨here, others⟩ := List.forall_mem_cons.mp unbound
      rw [Ty.nameVarsList_cons]
      exact .cons (Solved.generalizes solved names ty here (solved.resolves_self here))
        (Solved.generalizesAll solved _ rest others)

end

/-! ### Unifying -/

section Unifying

variable {bound : Nat} {expected found : Ty} {run : VarTable × Except UnifyError Unit}

theorem Settled.binds (settled : table.Settled) {root : Nat} {ty : Ty}
    (unbound : table.Unbound root) (small : ty.Scoped table.size) :
    table.Binds root ty (table.bind root ty) := by
  obtain ⟨general, solved⟩ := settled
  obtain ⟨rank, free⟩ := unbound
  have seeks := solved.seeks root small
  rw [find_of_root free] at seeks
  rw [bind]
  cases met : table.occurs root ty with
  | true =>
      rw [met] at seeks
      exact .infinite (.root free) seeks (solved.resolves small)
  | false =>
      rw [met] at seeks
      exact .bound seeks (.root free)

theorem Settled.widens (settled : run.1.Settled) (expectedSmall : expected.Scoped run.1.size)
    (foundSmall : found.Scoped run.1.size) :
    Widens expected found run (enclose expected found run) := by
  obtain ⟨later, outcome⟩ := run
  obtain ⟨general, solved⟩ := settled
  cases outcome with
  | ok _ => exact .ok
  | error error =>
      cases error with
      | infinite root ty => exact .infinite
      | mismatch left right =>
          exact .mismatch (solved.resolves expectedSmall) (solved.resolves foundSmall)

theorem Settled.clashes (settled : table.Settled) {left right : Ty}
    (leftSmall : left.Scoped table.size) (rightSmall : right.Scoped table.size)
    (apart : ¬ left.HeadsAgree right) (leftStructured : left.isVar = false)
    (rightStructured : right.isVar = false) :
    table.UnifiesHeads left right
      (table, .error (.mismatch (table.resolve left) (table.resolve right))) := by
  obtain ⟨general, solved⟩ := settled
  exact .clash apart leftStructured rightStructured (solved.resolves leftSmall)
    (solved.resolves rightSmall)

section Parts

variable {fuel : Nat} {unify : VarTable → Ty → Ty → VarTable × Except UnifyError Unit}

theorem unifiesRoots {left right : Nat} (leftRoot : table.Unbound left)
    (rightRoot : table.Unbound right) :
    table.UnifiesHeads (.var left) (.var right)
      (unifyHeads unify table (.var left) (.var right)) := by
  obtain ⟨rank, free⟩ := leftRoot
  obtain ⟨otherRank, otherFree⟩ := rightRoot
  rw [unifyHeads]
  by_cases same : left = right
  · rw [if_pos same, same]
    exact .same right
  · rw [if_neg same]
    exact .union same (.root free) (.root otherFree)

-- What is needed of the parts of types: unifying them is sound, and it ends.
variable (unifying : ∀ {table : VarTable} {expected found : Ty}, table.Settled →
  table.Light bound → table.Ready bound fuel expected found →
    table.Unifying bound [(expected, found)] (unify table expected found))
variable (single : ∀ {table : VarTable} {expected found : Ty}, table.Settled →
  table.Light bound → table.Ready bound fuel expected found →
    table.Unifies expected found (unify table expected found))

include unifying single

theorem unifiesAll (pairs : List (Ty × Ty)) (settled : table.Settled) (light : table.Light bound)
    (ready : ∀ pair ∈ pairs, table.Ready bound fuel pair.1 pair.2) :
    table.UnifiesAll pairs (unifyPairs unify table pairs) := by
  induction pairs generalizing table with
  | nil => exact .nil
  | cons pair rest ih =>
      obtain ⟨expected, found⟩ := pair
      have here := ready (expected, found) List.mem_cons_self
      have first := unifying settled light here
      have runs := single settled light here
      rw [unifyPairs]
      rcases ran : unify table expected found with ⟨middle, outcome⟩
      rw [ran] at first runs
      cases outcome with
      | error error => exact .failed runs
      | ok _ =>
          refine .onward runs (ih first.settled first.light fun pair member => ?_)
          exact (ready pair (List.mem_cons_of_mem _ member)).later first.extended first.size

theorem unifiesArrays {left right : Ty} (settled : table.Settled) (light : table.Light bound)
    (ready : table.Ready bound (fuel + 1) (.array left) (.array right)) :
    table.UnifiesHeads (.array left) (.array right)
      (unifyHeads unify table (.array left) (.array right)) := by
  have ran := unifying settled light ready.element
  exact .array (single settled light ready.element) (ran.settled.widens
    (ready.expectedSmall.mono ran.extended.size) (ready.foundSmall.mono ran.extended.size))

theorem unifiesFunctions {leftParams rightParams : List Ty} {left right : Ty}
    (settled : table.Settled) (light : table.Light bound)
    (ready : table.Ready bound (fuel + 1) (.function leftParams left)
      (.function rightParams right)) :
    table.UnifiesHeads (.function leftParams left) (.function rightParams right)
      (unifyHeads unify table (.function leftParams left) (.function rightParams right)) := by
  rw [unifyHeads]
  by_cases lengths : leftParams.length = rightParams.length
  · have ran := unifyPairs_unifying unifying _ settled light ready.parts
    rw [if_pos lengths]
    exact .function lengths (unifiesAll unifying single _ settled light ready.parts)
      (ran.settled.widens (ready.expectedSmall.mono ran.extended.size)
        (ready.foundSmall.mono ran.extended.size))
  · rw [if_neg lengths]
    refine settled.clashes ready.expectedSmall ready.foundSmall ?_ rfl rfl
    rintro ⟨⟩
    exact lengths ‹_›

theorem unifiesHeads {left right : Ty} (settled : table.Settled) (light : table.Light bound)
    (ready : table.Ready bound (fuel + 1) left right)
    (leftRoot : ∀ id, left = .var id → table.Unbound id)
    (rightRoot : ∀ id, right = .var id → table.Unbound id) :
    table.UnifiesHeads left right (unifyHeads unify table left right) := by
  have leftSmall := ready.expectedSmall
  have rightSmall := ready.foundSmall
  have clash := settled.clashes leftSmall rightSmall
  cases left with
  | «var» root =>
      cases right with
      | «var» id => exact unifiesRoots (leftRoot root rfl) (rightRoot id rfl)
      | _ => exact .bindLeft rfl (settled.binds (leftRoot _ rfl) rightSmall)
  | base kind =>
      cases right with
      | «var» root => exact .bindRight rfl (settled.binds (rightRoot _ rfl) leftSmall)
      | base other =>
          rw [unifyHeads]
          by_cases same : kind = other
          · rw [if_pos same, same]
            exact .base other
          · rw [if_neg same]
            refine .clash ?_ rfl rfl (.base kind) (.base other)
            rintro ⟨⟩
            exact same rfl
      | _ => exact clash (by rintro ⟨⟩) rfl rfl
  | generic number =>
      cases right with
      | «var» root => exact .bindRight rfl (settled.binds (rightRoot _ rfl) leftSmall)
      | generic other =>
          rw [unifyHeads]
          by_cases same : number = other
          · rw [if_pos same, same]
            exact .generic other
          · rw [if_neg same]
            refine .clash ?_ rfl rfl (.generic number) (.generic other)
            rintro ⟨⟩
            exact same rfl
      | _ => exact clash (by rintro ⟨⟩) rfl rfl
  | array left =>
      cases right with
      | «var» root => exact .bindRight rfl (settled.binds (rightRoot _ rfl) leftSmall)
      | array right => exact unifiesArrays unifying single settled light ready
      | _ => exact clash (by rintro ⟨⟩) rfl rfl
  | function leftParams left =>
      cases right with
      | «var» root => exact .bindRight rfl (settled.binds (rightRoot _ rfl) leftSmall)
      | function rightParams right => exact unifiesFunctions unifying single settled light ready
      | _ => exact clash (by rintro ⟨⟩) rfl rfl

end Parts

theorem unifiesWithin {fuel : Nat} (settled : table.Settled) (light : table.Light bound)
    (ready : table.Ready bound fuel expected found) :
    table.Unifies expected found (unifyWithin fuel table expected found) := by
  induction fuel generalizing table expected found with
  | zero => exact absurd (ready.affords.fuel_pos settled light) (Nat.lt_irrefl 0)
  | succ fuel ih =>
      have first := compressHead_redirects settled expected
      have second := compressHead_redirects first.settled found
      have redirects := first.trans second
      have foundSmall := ready.foundSmall.mono first.extends.size
      have expectedHead := settled.heads ready.expectedSmall
      have foundHead := first.settled.heads foundSmall
      obtain ⟨general, solved⟩ := settled
      obtain ⟨middleGeneral, middleSolved⟩ := first.settled
      obtain ⟨leftSmall, leftRoot⟩ := solved.head ready.expectedSmall
      obtain ⟨rightSmall, rightRoot⟩ := middleSolved.head foundSmall
      rw [unifyWithin]
      refine .heads expectedHead foundHead ?_
      refine unifiesHeads (unifyWithin_unifying fuel) ih redirects.settled (redirects.light light)
        ⟨leftSmall.mono redirects.extends.size, rightSmall.mono second.extends.size,
          light.head ready.expectedLight, (first.light light).head ready.foundLight,
          ready.affords.head.later redirects.extends redirects.size⟩ ?_ ?_
      · exact fun id same => redirects.unbound.mpr (leftRoot id same)
      · exact fun id same => second.unbound.mpr (rightRoot id same)

theorem Settled.unifies (settled : table.Settled) (expectedSmall : expected.Scoped table.size)
    (foundSmall : found.Scoped table.size) :
    table.Unifies expected found (table.unify expected found) := by
  have light : table.Light (expected.weight + found.weight + table.weight) :=
    (light_weight table).mono (by omega)
  have expectedPositive := Ty.weight_pos expected
  have foundPositive := Ty.weight_pos found
  exact unifiesWithin settled light
    ⟨expectedSmall, foundSmall, by omega, by omega, affords_of_weight expectedSmall (by omega)⟩

end Unifying

/-! ### All operations -/

/-- Whatever was done to a table before, successfully or not: links lead to roots, no variable is
reached from itself through bindings, all operations on its variables and types end with what is
computed, and looking up variables and heads does not change what types resolve to. -/
theorem Reachable.runs_end (reachable : table.Reachable) :
    (∀ id < table.size, table.Finds id (table.find id) ∧
      Relinks (table.find id) table id (table.compress id)) ∧
    (∀ id, ¬ Relation.TransGen table.Mentions id id) ∧
    ∀ ty : Ty, ty.Scoped table.size →
      table.Heads ty (table.head ty) (table.compressHead ty) ∧
      table.Resolves ty (table.resolve ty) ∧
      (∀ id < table.size, table.Seeks (table.find id) ty (table.occurs id ty)) ∧
      (∃ names, table.Generalizes [] ty (table.generalize ty) names) ∧
      (∀ other : Ty, other.Scoped table.size →
        table.Unifies ty other (table.unify ty other)) ∧
      (∀ id, (table.compress id).resolve ty = table.resolve ty) ∧
      ∀ other, (table.compressHead other).resolve ty = table.resolve ty := by
  have settled := reachable.settled
  have ⟨general, solved⟩ := settled
  refine ⟨fun id inside => ?_, solved.acyclic, fun ty small => ⟨settled.heads small,
    solved.resolves small, fun id _ => solved.seeks id small, ?_,
    fun other otherSmall => settled.unifies small otherSmall,
    fun id => (compress_redirects settled id).resolve settled small,
    fun other => (compressHead_redirects settled other).resolve settled small⟩⟩
  · obtain ⟨lookup, relinks⟩ := settled.compresses inside
    exact ⟨lookup, relinks⟩
  · refine ⟨_, solved.generalizes [] _ (fun id mentioned => ?_) (solved.resolves small)⟩
    rw [solved.resolve small] at mentioned
    exact solved.unbound_fill small mentioned

/-- Three variables; the first two were joined, and unifying two function types has bound them to an
array of the third before it failed. -/
def halfway : VarTable :=
  let unbound := empty.fresh.2.fresh.2.fresh.2
  let union := (unbound.unify (.var 0) (.var 1)).1
  (union.unify (.function [.var 1] (.var 2)) (.function [.array (.var 2)] (.array (.var 2)))).1

theorem halfway_reachable : halfway.Reachable := by
  have unbound : empty.fresh.2.fresh.2.fresh.2.Reachable := .fresh (.fresh (.fresh .empty))
  refine .unify (.unify unbound (Ty.scoped_var.mpr ?_) (Ty.scoped_var.mpr ?_))
    (Ty.scoped_function.mpr ⟨List.forall_mem_singleton.mpr (Ty.scoped_var.mpr ?_),
      Ty.scoped_var.mpr ?_⟩)
    (Ty.scoped_function.mpr ⟨List.forall_mem_singleton.mpr (Ty.scoped_array.mpr
      (Ty.scoped_var.mpr ?_)), Ty.scoped_array.mpr (Ty.scoped_var.mpr ?_)⟩)
  all_goals decide +kernel

theorem halfway_runs_end :
    halfway.Reachable ∧ halfway.Finds 1 0 ∧ halfway.Mentions 1 2 ∧
      ¬ Relation.TransGen halfway.Mentions 1 1 ∧
      halfway.Resolves (.var 1) (.array (.var 2)) ∧ halfway.Seeks 2 (.var 1) true ∧
      (halfway.compress 1).resolve (.var 1) = .array (.var 2) ∧
      ∃ later, halfway.Unifies (.var 1) (.var 2)
        (later, .error (.infinite (.var 2) (.array (.var 2)))) := by
  have inside : ∀ id, id < 3 → (Ty.var id).Scoped halfway.size := fun id small =>
    Ty.scoped_var.mpr (Nat.lt_of_lt_of_le small (by decide +kernel))
  have first := inside 1 (by decide)
  obtain ⟨lookups, acyclic, operations⟩ := Reachable.runs_end halfway_reachable
  obtain ⟨_, resolves, seeks, _, unifies, kept, _⟩ := operations (.var 1) first
  refine ⟨halfway_reachable, (lookups 1 (by decide +kernel)).1, ⟨_, rfl, 2, ?_, rfl⟩, acyclic 1,
    resolves, seeks 2 (by decide +kernel), kept 1, _, unifies (.var 2) (inside 2 (by decide))⟩
  exact Ty.mem_vars_array.mpr (Ty.mem_vars_var.mpr rfl)

end VarTable

end NodeGraph
