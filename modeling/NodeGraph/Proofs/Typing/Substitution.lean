import Mathlib.Logic.Function.Basic
import NodeGraph.Typing.VarTable

/-!
Substitution in types. Variables and generics are filled at once; instances of a type fill its
generics, solutions of a table its variables.
-/

namespace NodeGraph.Ty

theorem induction {motive : Ty → Prop} (base : ∀ kind, motive (.base kind))
    (array : ∀ element, motive element → motive (.array element))
    (function : ∀ params result, (∀ param ∈ params, motive param) → motive result →
      motive (.function params result))
    (var : ∀ id, motive (.var id)) (generic : ∀ number, motive (.generic number)) :
    ∀ ty, motive ty
  | .base kind => base kind
  | .array element => array element (induction base array function var generic element)
  | .function params result =>
      function params result
        (fun param _ => induction base array function var generic param)
        (induction base array function var generic result)
  | .var id => var id
  | .generic number => generic number

mutual

/-- The type with other types for its variables and generics. -/
def fill (vars generics : Nat → Ty) : Ty → Ty
  | .base kind => .base kind
  | .array element => .array (element.fill vars generics)
  | .function params result =>
      .function (fillList vars generics params) (result.fill vars generics)
  | .var id => vars id
  | .generic number => generics number

def fillList (vars generics : Nat → Ty) : List Ty → List Ty
  | [] => []
  | ty :: rest => ty.fill vars generics :: fillList vars generics rest

end

mutual

def vars : Ty → List Nat
  | .base _ | .generic _ => []
  | .array element => element.vars
  | .function params result => varsList params ++ result.vars
  | .var id => [id]

def varsList : List Ty → List Nat
  | [] => []
  | ty :: rest => ty.vars ++ varsList rest

end

def instanceBy (generics : Nat → Ty) (ty : Ty) : Ty := ty.fill .var generics

def Scoped (size : Nat) (ty : Ty) : Prop := ∀ id ∈ ty.vars, id < size

variable {vars other generics more : Nat → Ty} {size : Nat}

theorem fillList_eq (types : List Ty) :
    fillList vars generics types = types.map (fill vars generics) := by
  induction types with
  | nil => rfl
  | cons ty rest ih => rw [fillList, ih, List.map_cons]

theorem varsList_eq (types : List Ty) : varsList types = types.flatMap Ty.vars := by
  induction types with
  | nil => rfl
  | cons ty rest ih => rw [varsList, ih, List.flatMap_cons]

@[simp] theorem fill_base (kind : BaseType) : (Ty.base kind).fill vars generics = .base kind := rfl

@[simp] theorem fill_array (element : Ty) :
    (Ty.array element).fill vars generics = .array (element.fill vars generics) := rfl

@[simp] theorem fill_function (params : List Ty) (result : Ty) :
    (Ty.function params result).fill vars generics =
      .function (params.map (fill vars generics)) (result.fill vars generics) :=
  congrArg (Ty.function · _) (fillList_eq params)

@[simp] theorem fill_var (id : Nat) : (Ty.var id).fill vars generics = vars id := rfl

@[simp] theorem fill_generic (number : Nat) :
    (Ty.generic number).fill vars generics = generics number := rfl

theorem mem_vars_array {id : Nat} {element : Ty} :
    id ∈ (Ty.array element).vars ↔ id ∈ element.vars := Iff.rfl

theorem mem_vars_function {id : Nat} {params : List Ty} {result : Ty} :
    id ∈ (Ty.function params result).vars ↔
      (∃ param ∈ params, id ∈ param.vars) ∨ id ∈ result.vars := by
  rw [Ty.vars, varsList_eq, List.mem_append, List.mem_flatMap]

theorem mem_vars_var {id other : Nat} : id ∈ (Ty.var other).vars ↔ id = other :=
  List.mem_singleton

theorem scoped_array {element : Ty} : (Ty.array element).Scoped size ↔ element.Scoped size :=
  Iff.rfl

theorem scoped_function {params : List Ty} {result : Ty} :
    (Ty.function params result).Scoped size ↔
      (∀ param ∈ params, param.Scoped size) ∧ result.Scoped size := by
  constructor
  · intro small
    exact ⟨fun param member id mentioned =>
        small id (mem_vars_function.mpr (Or.inl ⟨param, member, mentioned⟩)),
      fun id mentioned => small id (mem_vars_function.mpr (Or.inr mentioned))⟩
  · rintro ⟨params, result⟩ id mentioned
    rcases mem_vars_function.mp mentioned with ⟨param, member, inside⟩ | inside
    · exact params param member id inside
    · exact result id inside

theorem scoped_var {id : Nat} : (Ty.var id).Scoped size ↔ id < size := by
  simp [Scoped, Ty.vars]

theorem scoped_base (kind : BaseType) : (Ty.base kind).Scoped size := by
  simp [Scoped, Ty.vars]

theorem Scoped.mono {ty : Ty} (small : ty.Scoped size) {larger : Nat} (grows : size ≤ larger) :
    ty.Scoped larger :=
  fun id mentioned => Nat.lt_of_lt_of_le (small id mentioned) grows

theorem fill_congr (ty : Ty) (agree : ∀ id ∈ ty.vars, vars id = other id) :
    ty.fill vars generics = ty.fill other generics := by
  induction ty using induction with
  | base kind => rw [fill_base, fill_base]
  | array element ih =>
      rw [fill_array, fill_array, ih fun id mentioned => agree id (mem_vars_array.mpr mentioned)]
  | function params result params_ih ih =>
      rw [fill_function, fill_function,
        ih fun id mentioned => agree id (mem_vars_function.mpr (Or.inr mentioned))]
      congr 1
      refine List.map_congr_left fun param member => params_ih param member ?_
      exact fun id mentioned =>
        agree id (mem_vars_function.mpr (Or.inl ⟨param, member, mentioned⟩))
  | var id =>
      rw [fill_var, fill_var]
      exact agree id (mem_vars_var.mpr rfl)
  | generic number => rw [fill_generic, fill_generic]

/-- Two assignments are the same on the first variables. -/
def AgreeBelow (size : Nat) (vars other : Nat → Ty) : Prop := ∀ id, id < size → other id = vars id

theorem AgreeBelow.refl (size : Nat) (vars : Nat → Ty) : AgreeBelow size vars vars :=
  fun _ _ => rfl

theorem AgreeBelow.trans {larger : Nat} {vars middle other : Nat → Ty}
    (first : AgreeBelow size vars middle) (second : AgreeBelow larger middle other)
    (grows : size ≤ larger) : AgreeBelow size vars other :=
  fun id inside => (second id (Nat.lt_of_lt_of_le inside grows)).trans (first id inside)

theorem AgreeBelow.assign (size : Nat) (vars : Nat → Ty) (ty : Ty) :
    AgreeBelow size vars (Function.update vars size ty) :=
  fun _ inside => Function.update_of_ne (Nat.ne_of_lt inside) _ _

theorem Scoped.fill_eq {ty : Ty} (small : ty.Scoped size) (agree : AgreeBelow size vars other) :
    ty.fill other generics = ty.fill vars generics :=
  fill_congr ty fun id mentioned => agree id (small id mentioned)

theorem fill_fill (ty : Ty) :
    (ty.fill vars generics).fill other more =
      ty.fill (fun id => (vars id).fill other more)
        (fun number => (generics number).fill other more) := by
  induction ty using induction with
  | base kind => simp
  | array element ih => simp [ih]
  | function params result params_ih ih =>
      simp only [fill_function, ih, List.map_map]
      congr 1
      exact List.map_congr_left params_ih
  | var id => simp
  | generic number => simp

theorem fill_self (ty : Ty) : ty.fill .var .generic = ty := by
  induction ty using induction with
  | base kind => simp
  | array element ih => simp [ih]
  | function params result params_ih ih =>
      rw [fill_function, ih]
      congr 1
      exact (List.map_congr_left params_ih).trans (List.map_id' params)
  | var id => simp
  | generic number => simp

theorem mem_vars_fill {id : Nat} (ty : Ty) :
    id ∈ (ty.fill vars .generic).vars ↔ ∃ inner ∈ ty.vars, id ∈ (vars inner).vars := by
  induction ty using induction with
  | base kind => simp [Ty.vars]
  | array element ih => rw [fill_array, Ty.vars, Ty.vars, ih]
  | function params result params_ih ih =>
      rw [fill_function, mem_vars_function, ih]
      constructor
      · rintro (⟨param, member, mentioned⟩ | ⟨inner, inside, mentioned⟩)
        · obtain ⟨before, listed, rfl⟩ := List.mem_map.mp member
          obtain ⟨inner, inside, found⟩ := (params_ih before listed).mp mentioned
          exact ⟨inner, mem_vars_function.mpr (Or.inl ⟨before, listed, inside⟩), found⟩
        · exact ⟨inner, mem_vars_function.mpr (Or.inr inside), mentioned⟩
      · rintro ⟨inner, inside, found⟩
        rcases mem_vars_function.mp inside with ⟨param, member, mentioned⟩ | mentioned
        · exact Or.inl ⟨_, List.mem_map_of_mem member,
            (params_ih param member).mpr ⟨inner, mentioned, found⟩⟩
        · exact Or.inr ⟨inner, mentioned, found⟩
  | var inner => simp [Ty.vars]
  | generic number => simp [Ty.vars]

theorem weight_pos (ty : Ty) : 0 < ty.weight := by
  cases ty <;> simp [weight]

theorem weight_le_weightList {ty : Ty} {types : List Ty} (member : ty ∈ types) :
    ty.weight ≤ weightList types := by
  induction types with
  | nil => cases member
  | cons first rest ih =>
      rw [weightList]
      rcases List.mem_cons.mp member with same | later
      · rw [same]
        omega
      · have smaller := ih later
        omega

theorem weight_le_fill (ty : Ty) {id : Nat} (mentioned : id ∈ ty.vars) :
    (vars id).weight ≤ (ty.fill vars generics).weight := by
  induction ty using induction with
  | base kind => simp [Ty.vars] at mentioned
  | array element ih =>
      have inside := ih (mem_vars_array.mp mentioned)
      rw [fill_array, weight]
      omega
  | function params result params_ih ih =>
      rw [fill_function, weight]
      rcases mem_vars_function.mp mentioned with ⟨param, member, inside⟩ | inside
      · have smaller := params_ih param member inside
        have listed := weight_le_weightList (List.mem_map_of_mem (f := fill vars generics) member)
        omega
      · have smaller := ih inside
        omega
  | var other => exact Nat.le_of_eq (by rw [mem_vars_var.mp mentioned, fill_var])
  | generic number => simp [Ty.vars] at mentioned

mutual

def height : Ty → Nat
  | .array element => element.height + 1
  | .function params result => max (heightList params) result.height + 1
  | .base _ | .var _ | .generic _ => 1

def heightList : List Ty → Nat
  | [] => 0
  | ty :: rest => max ty.height (heightList rest)

end

theorem heightList_le (types : List Ty) (bound : Nat) :
    heightList types ≤ bound ↔ ∀ ty ∈ types, ty.height ≤ bound := by
  induction types with
  | nil => simp [heightList]
  | cons ty rest ih => rw [heightList, Nat.max_le, ih, List.forall_mem_cons]

def isVar : Ty → Bool
  | .var _ => true
  | _ => false

theorem weight_lt_fill {ty : Ty} (structured : ty.isVar = false) {id : Nat}
    (mentioned : id ∈ ty.vars) : (vars id).weight < (ty.fill vars generics).weight := by
  cases ty with
  | base kind => simp [Ty.vars] at mentioned
  | array element =>
      have inside : (vars id).weight ≤ (element.fill vars generics).weight :=
        weight_le_fill element (mem_vars_array.mp mentioned)
      rw [fill_array, weight]
      omega
  | function params result =>
      rw [fill_function, weight]
      rcases mem_vars_function.mp mentioned with ⟨param, member, inside⟩ | inside
      · have smaller : (vars id).weight ≤ (param.fill vars generics).weight :=
          weight_le_fill param inside
        have listed := weight_le_weightList (List.mem_map_of_mem (f := fill vars generics) member)
        have positive := weight_pos (result.fill vars generics)
        omega
      · have smaller : (vars id).weight ≤ (result.fill vars generics).weight :=
          weight_le_fill result inside
        omega
  | var other => cases structured
  | generic number => simp [Ty.vars] at mentioned

end NodeGraph.Ty
