import NodeGraph.Typing.Ty

/-!
Type variables. A table holds one slot for every variable: a link to another variable of its class,
or the root of a class, which alone may be bound to a type. Unions go by rank, so links stay
short; an occurs check keeps bindings acyclic.

Chains of links and bindings are followed with fuel that the table itself bounds: along an
acyclic path every variable is met at most once.
-/

namespace NodeGraph

inductive VarSlot where
  | root (rank : Nat) (binding : Option Ty)
  | link (parent : Nat)

structure VarTable where
  slots : Array VarSlot

/-- Why two types cannot be made equal; the types are resolved. -/
inductive UnifyError where
  | mismatch (expected found : Ty)
  | infinite (root ty : Ty)

def UnifyError.message : UnifyError → String
  | .mismatch expected found => "cannot unify " ++ expected.display ++ " with " ++ found.display
  | .infinite root ty => root.display ++ " occurs in " ++ ty.display

mutual

def Ty.weight : Ty → Nat
  | .array element => element.weight + 1
  | .function params result => Ty.weightList params + result.weight + 1
  | .base _ | .var _ | .generic _ => 1

def Ty.weightList : List Ty → Nat
  | [] => 0
  | ty :: rest => ty.weight + Ty.weightList rest

end

def VarSlot.weight : VarSlot → Nat
  | .root _ (some binding) => binding.weight + 1
  | _ => 1

namespace VarTable

def empty : VarTable := ⟨#[]⟩

def size (table : VarTable) : Nat := table.slots.size

def isEmpty (table : VarTable) : Bool := table.slots.isEmpty

def fresh (table : VarTable) : Ty × VarTable :=
  (.var table.size, ⟨table.slots.push (.root 0 none)⟩)

def freshList (table : VarTable) : Nat → List Ty × VarTable
  | 0 => ([], table)
  | count + 1 =>
      let (unknown, table) := table.fresh
      let (rest, table) := table.freshList count
      (unknown :: rest, table)

def follow (table : VarTable) : Nat → Nat → Nat
  | 0, id => id
  | fuel + 1, id =>
      match table.slots[id]? with
      | some (.link parent) => table.follow fuel parent
      | _ => id

def find (table : VarTable) (id : Nat) : Nat := table.follow table.size id

def binding? (table : VarTable) (id : Nat) : Option Ty :=
  match table.slots[table.find id]? with
  | some (.root _ binding) => binding
  | _ => none

def redirect (table : VarTable) (id parent : Nat) : VarTable :=
  ⟨table.slots.setIfInBounds id (.link parent)⟩

/-- Points the links on the way from a variable at the root. -/
def relink (table : VarTable) (root : Nat) : Nat → Nat → VarTable
  | 0, _ => table
  | fuel + 1, id =>
      match table.slots[id]? with
      | some (.link parent) => (table.redirect id root).relink root fuel parent
      | _ => table

/-- What looking up a variable leaves: its path is compressed. -/
def compress (table : VarTable) (id : Nat) : VarTable :=
  table.relink (table.find id) table.size id

def rank (table : VarTable) (root : Nat) : Nat :=
  match table.slots[root]? with
  | some (.root rank _) => rank
  | _ => 0

def weight (table : VarTable) : Nat :=
  table.slots.foldl (fun total slot => total + slot.weight) 0

def headWithin (table : VarTable) : Nat → Ty → Ty
  | fuel + 1, .var id =>
      match table.binding? id with
      | some bound => table.headWithin fuel bound
      | none => .var (table.find id)
  | _, ty => ty

/-- The type with bindings followed until it is not a bound variable. -/
def head (table : VarTable) (ty : Ty) : Ty := table.headWithin (table.size + 1) ty

def compressHeadWithin (table : VarTable) : Nat → Ty → VarTable
  | fuel + 1, .var id =>
      let compressed := table.compress id
      match compressed.binding? id with
      | some bound => compressed.compressHeadWithin fuel bound
      | none => compressed
  | _, _ => table

/-- What looking up the head of a type leaves. -/
def compressHead (table : VarTable) (ty : Ty) : VarTable :=
  table.compressHeadWithin (table.size + 1) ty

def resolveWithin (table : VarTable) : Nat → Ty → Ty
  | 0, ty => ty
  | fuel + 1, .var id =>
      match table.binding? id with
      | some bound => table.resolveWithin fuel bound
      | none => .var (table.find id)
  | fuel + 1, .array element => .array (table.resolveWithin fuel element)
  | fuel + 1, .function params result =>
      .function (params.map (table.resolveWithin fuel)) (table.resolveWithin fuel result)
  | _ + 1, ty => ty

/-- The type with every bound variable replaced and every other one named by its root. -/
def resolve (table : VarTable) (ty : Ty) : Ty :=
  table.resolveWithin (ty.weight + table.weight) ty

def occursWithin (table : VarTable) (root : Nat) : Nat → Ty → Bool
  | 0, _ => false
  | fuel + 1, .var id =>
      if table.find id = root then true
      else
        match table.binding? id with
        | some bound => table.occursWithin root fuel bound
        | none => false
  | fuel + 1, .array element => table.occursWithin root fuel element
  | fuel + 1, .function params result =>
      params.any (table.occursWithin root fuel) || table.occursWithin root fuel result
  | _ + 1, _ => false

/-- Whether a variable's class is met in a type when bindings are followed. -/
def occurs (table : VarTable) (id : Nat) (ty : Ty) : Bool :=
  table.occursWithin (table.find id) (ty.weight + table.weight) ty

def setBinding (table : VarTable) (root : Nat) (ty : Ty) : VarTable :=
  match table.slots[root]? with
  | some (.root rank _) => ⟨table.slots.setIfInBounds root (.root rank (some ty))⟩
  | _ => table

/-- Ranks grow no further. -/
def maxRank : Nat := 255

/-- Joins two classes of different unbound roots. The left root stays a root unless its rank is
smaller. -/
def union (table : VarTable) (left right : Nat) : VarTable :=
  let (child, parent) :=
    if table.rank left < table.rank right then (left, right) else (right, left)
  let linked := table.slots.setIfInBounds child (.link parent)
  if table.rank left = table.rank right then
    match linked[parent]? with
    | some (.root rank binding) =>
        ⟨linked.setIfInBounds parent (.root (min (rank + 1) maxRank) binding)⟩
    | _ => ⟨linked⟩
  else ⟨linked⟩

/-- Binds an unbound root, unless it occurs in the type. -/
def bind (table : VarTable) (root : Nat) (ty : Ty) : VarTable × Except UnifyError Unit :=
  if table.occurs root ty then (table, .error (.infinite (.var root) (table.resolve ty)))
  else (table.setBinding root ty, .ok ())

/-- Tells a mismatch further inside in terms of the types around it. -/
def widen (table : VarTable) (expected found : Ty) : UnifyError → UnifyError
  | .mismatch _ _ => .mismatch (table.resolve expected) (table.resolve found)
  | infinite => infinite

def unifyPairs (unify : VarTable → Ty → Ty → VarTable × Except UnifyError Unit) :
    VarTable → List (Ty × Ty) → VarTable × Except UnifyError Unit
  | table, [] => (table, .ok ())
  | table, (expected, found) :: rest =>
      match unify table expected found with
      | (table, .ok ()) => unifyPairs unify table rest
      | failed => failed

/-- The outcome for two types whose heads agree, from the outcome for their parts. -/
def enclose (expected found : Ty) (parts : VarTable × Except UnifyError Unit) :
    VarTable × Except UnifyError Unit :=
  (parts.1, parts.2.mapError (parts.1.widen expected found))

/-- Makes two types equal whose variables, if they are variables, are unbound roots. -/
def unifyHeads (unify : VarTable → Ty → Ty → VarTable × Except UnifyError Unit)
    (table : VarTable) (expected found : Ty) : VarTable × Except UnifyError Unit :=
  match expected, found with
  | .var left, .var right => (if left = right then table else table.union left right, .ok ())
  | .var root, other => table.bind root other
  | other, .var root => table.bind root other
  | .base left, .base right =>
      (table, if left = right then .ok () else .error (.mismatch (.base left) (.base right)))
  | .generic left, .generic right =>
      (table, if left = right then .ok () else .error (.mismatch (.generic left) (.generic right)))
  | .array left, .array right => enclose (.array left) (.array right) (unify table left right)
  | .function leftParams left, .function rightParams right =>
      let expected := Ty.function leftParams left
      let found := Ty.function rightParams right
      if leftParams.length = rightParams.length then
        enclose expected found
          (unifyPairs unify table (leftParams.zip rightParams ++ [(left, right)]))
      else (table, .error (.mismatch (table.resolve expected) (table.resolve found)))
  | left, right => (table, .error (.mismatch (table.resolve left) (table.resolve right)))

def unifyWithin : Nat → VarTable → Ty → Ty → VarTable × Except UnifyError Unit
  | 0, table, expected, found =>
      (table, .error (.mismatch (table.resolve expected) (table.resolve found)))
  | fuel + 1, table, expected, found =>
      let expectedHead := table.head expected
      let table := table.compressHead expected
      let foundHead := table.head found
      unifyHeads (unifyWithin fuel) (table.compressHead found) expectedHead foundHead

/-- Makes two types equal. A failure leaves the bindings that were made before it. Every level of
the recursion goes down one constructor of the resolved types, whose depth no binding made on the
way can raise above this fuel. -/
def unify (table : VarTable) (expected found : Ty) : VarTable × Except UnifyError Unit :=
  unifyWithin ((table.size + 1) * (expected.weight + found.weight + table.weight) + 1) table
    expected found

end VarTable

/-! ### Generic names for unbound variables -/

namespace Ty

/-- The number of a variable among `names`, which gets it at the end if it is new. -/
def nameOf (names : List Nat) (id : Nat) : Nat × List Nat :=
  match names.idxOf? id with
  | some number => (number, names)
  | none => (names.length, names ++ [id])

mutual

/-- Replaces variables by generics, numbered by their first appearance. -/
def nameVars (names : List Nat) : Ty → Ty × List Nat
  | .var id =>
      let (number, names) := nameOf names id
      (.generic number, names)
  | .array element =>
      let (element, names) := nameVars names element
      (.array element, names)
  | .function params result =>
      let (params, names) := nameVarsList names params
      let (result, names) := nameVars names result
      (.function params result, names)
  | ty => (ty, names)

def nameVarsList (names : List Nat) : List Ty → List Ty × List Nat
  | [] => ([], names)
  | ty :: rest =>
      let (ty, names) := nameVars names ty
      let (rest, names) := nameVarsList names rest
      (ty :: rest, names)

end

end Ty

/-- The variables that stand for the generics of the types being instantiated. -/
abbrev Instances := List (Nat × Ty)

namespace VarTable

/-- The resolved type with generics for its unbound variables. -/
def generalize (table : VarTable) (ty : Ty) : Ty := ((table.resolve ty).nameVars []).1

def generalizeAll (table : VarTable) (types : List Ty) : List Ty :=
  (Ty.nameVarsList [] (types.map table.resolve)).1

mutual

/-- Replaces generics by new variables, the same one for the same number. -/
def instantiateWith (table : VarTable) (instances : Instances) : Ty → Ty × Instances × VarTable
  | .generic number =>
      match instances.lookup number with
      | some unknown => (unknown, instances, table)
      | none =>
          let (unknown, table) := table.fresh
          (unknown, (number, unknown) :: instances, table)
  | .array element =>
      let (element, instances, table) := table.instantiateWith instances element
      (.array element, instances, table)
  | .function params result =>
      let (params, instances, table) := table.instantiateListWith instances params
      let (result, instances, table) := table.instantiateWith instances result
      (.function params result, instances, table)
  | ty => (ty, instances, table)

def instantiateListWith (table : VarTable) (instances : Instances) :
    List Ty → List Ty × Instances × VarTable
  | [] => ([], instances, table)
  | ty :: rest =>
      let (ty, instances, table) := table.instantiateWith instances ty
      let (rest, instances, table) := table.instantiateListWith instances rest
      (ty :: rest, instances, table)

end

def instantiate (table : VarTable) (ty : Ty) : Ty × VarTable :=
  let (ty, _, table) := table.instantiateWith [] ty
  (ty, table)

def instantiateAll (table : VarTable) (types : List Ty) : List Ty × VarTable :=
  let (types, _, table) := table.instantiateListWith [] types
  (types, table)

end VarTable

end NodeGraph
