import Mathlib
import NodeGraph.Primitive.Builtin

/-!
The palette. Primitives are held by name, and apart from that they are listed by category. Through
any registrations and removals the two agree: a category lists the primitives whose present
signature has it, each once, and the one registered last at the end.
-/

namespace NodeGraph

inductive RegistryEdit where
  | register (primitive : Primitive)
  | unregister (name : String)

namespace RegistryEdit

def name : RegistryEdit → String
  | register primitive => primitive.signature.name
  | unregister name => name

def primitive? : RegistryEdit → Option Primitive
  | register primitive => some primitive
  | unregister _ => none

def registers (name : String) : RegistryEdit → Bool
  | register primitive => primitive.signature.name == name
  | unregister _ => false

@[simp] theorem name_register (primitive : Primitive) :
    (register primitive).name = primitive.signature.name := rfl

@[simp] theorem name_unregister (name : String) : (unregister name).name = name := rfl

@[simp] theorem primitive?_register (primitive : Primitive) :
    (register primitive).primitive? = some primitive := rfl

@[simp] theorem primitive?_unregister (name : String) : (unregister name).primitive? = none := rfl

@[simp] theorem registers_register (primitive : Primitive) (name : String) :
    (register primitive).registers name = (primitive.signature.name == name) := rfl

def current? (edits : List RegistryEdit) (name : String) : Option Primitive :=
  (edits.reverse.find? (·.name == name)).bind primitive?

def lastRegistration (edits : List RegistryEdit) (name : String) : Nat :=
  edits.length - edits.reverse.findIdx (·.registers name)

theorem current?_concat (edits : List RegistryEdit) (edit : RegistryEdit) (name : String) :
    current? (edits ++ [edit]) name =
      if edit.name = name then edit.primitive? else current? edits name := by
  rw [current?, current?, List.reverse_append, List.reverse_singleton, List.singleton_append,
    List.find?_cons]
  by_cases same : edit.name = name
  · simp [same]
  · rw [if_neg same, beq_false_of_ne same]

theorem lastRegistration_concat (edits : List RegistryEdit) (edit : RegistryEdit) (name : String) :
    lastRegistration (edits ++ [edit]) name =
      if edit.registers name then edits.length + 1 else lastRegistration edits name := by
  rw [lastRegistration, lastRegistration, List.reverse_append, List.reverse_singleton,
    List.singleton_append, List.findIdx_cons, List.length_append, List.length_singleton]
  cases edit.registers name with
  | true => rfl
  | false => exact Nat.add_sub_add_right _ 1 _

theorem lastRegistration_le (edits : List RegistryEdit) (name : String) :
    lastRegistration edits name ≤ edits.length :=
  Nat.sub_le _ _

end RegistryEdit

namespace Registry

open RegistryEdit

def after (registry : Registry) : RegistryEdit → Registry
  | .register primitive => registry.register primitive
  | .unregister name => registry.unregister name

def run (registry : Registry) (edits : List RegistryEdit) : Registry := edits.foldl after registry

theorem find?_put (primitive : Primitive) (primitives : List Primitive) (name : String) :
    (put primitive primitives).find? (fun other => other.signature.name == name) =
      if primitive.signature.name = name then some primitive
      else primitives.find? (fun other => other.signature.name == name) := by
  induction primitives with
  | nil => by_cases same : primitive.signature.name = name <;> simp [put, same]
  | cons first rest ih =>
      rw [put]
      by_cases replaced : first.signature.name = primitive.signature.name
      · by_cases same : primitive.signature.name = name <;> simp [replaced, same]
      · by_cases here : first.signature.name = name
        · have other : primitive.signature.name ≠ name := fun same =>
            replaced (here.trans same.symm)
          simp [here, other, Ne.symm other]
        · simp [replaced, here, ih]

theorem mem_names_put (primitive : Primitive) (primitives : List Primitive) (name : String) :
    name ∈ (put primitive primitives).map (·.signature.name) ↔
      name = primitive.signature.name ∨ name ∈ primitives.map (·.signature.name) := by
  induction primitives with
  | nil => simp [put]
  | cons first rest ih =>
      rw [put]
      by_cases replaced : first.signature.name = primitive.signature.name
      · simp [replaced]
      · simp only [beq_iff_eq, replaced, if_false, List.map_cons, List.mem_cons, ih]
        tauto

theorem nodup_put {primitives : List Primitive}
    (distinct : (primitives.map (·.signature.name)).Nodup) (primitive : Primitive) :
    ((put primitive primitives).map (·.signature.name)).Nodup := by
  induction primitives with
  | nil => exact List.nodup_singleton _
  | cons first rest ih =>
      obtain ⟨new, others⟩ := List.nodup_cons.mp distinct
      rw [put]
      by_cases replaced : first.signature.name = primitive.signature.name
      · simpa [replaced] using distinct
      · rw [if_neg (by simpa using replaced), List.map_cons, List.nodup_cons, mem_names_put]
        exact ⟨fun member => member.elim replaced new, ih others⟩

theorem find?_register (registry : Registry) (primitive : Primitive) (name : String) :
    (registry.register primitive).find? name =
      if primitive.signature.name = name then some primitive else registry.find? name :=
  find?_put primitive registry.primitives name

theorem find?_unregister (registry : Registry) (freed name : String) :
    (registry.unregister freed).find? name =
      if freed = name then none else registry.find? name := by
  rw [find?, find?, unregister, List.find?_filter]
  by_cases same : freed = name
  · rw [if_pos same, List.find?_eq_none]
    intro primitive _
    simp [same]
  · rw [if_neg same]
    congr 1
    funext primitive
    by_cases here : primitive.signature.name = name <;> simp [here, Ne.symm same]

theorem find?_after (registry : Registry) (edit : RegistryEdit) (name : String) :
    (registry.after edit).find? name =
      if edit.name = name then edit.primitive? else registry.find? name := by
  cases edit with
  | register primitive => exact find?_register registry primitive name
  | unregister freed => exact find?_unregister registry freed name

theorem name_of_find? {registry : Registry} {name : String} {primitive : Primitive}
    (found : registry.find? name = some primitive) : primitive.signature.name = name := by
  simpa using List.find?_some found

theorem nodup_names_after {registry : Registry} (distinct : registry.names.Nodup)
    (edit : RegistryEdit) : (registry.after edit).names.Nodup := by
  cases edit with
  | register primitive => exact nodup_put distinct primitive
  | unregister name => exact distinct.sublist (List.filter_sublist.map _)

/-- What holds of a registry after some edits, from an empty one on. -/
structure Records (registry : Registry) (edits : List RegistryEdit) : Prop where
  distinct : registry.names.Nodup
  found : ∀ name, registry.find? name = current? edits name
  listed : ∀ category name, (category, name) ∈ registry.palette ↔
    ∃ signature, registry.signature? name = some signature ∧ signature.category = category
  ordered : registry.palette.Pairwise fun first second =>
    lastRegistration edits first.2 < lastRegistration edits second.2

theorem records_empty : empty.Records [] where
  distinct := List.nodup_nil
  found := fun _ => rfl
  listed := fun _ _ => by simp [empty, signature?, find?]
  ordered := List.Pairwise.nil

variable {registry : Registry} {edits : List RegistryEdit}

theorem unlist_sublist (registry : Registry) (name : String) :
    (registry.unlist name).Sublist registry.palette := by
  rw [unlist]
  split
  · exact List.filter_sublist
  · exact List.Sublist.refl _

theorem Records.mem_unlist (records : registry.Records edits) (freed : String) (category : Category)
    (name : String) :
    (category, name) ∈ registry.unlist freed ↔
      name ≠ freed ∧ (category, name) ∈ registry.palette := by
  have there := records.listed category name
  rw [unlist]
  split
  · rename_i previous known
    rw [List.mem_filter, bne_iff_ne, Ne, Prod.mk.injEq]
    constructor
    · rintro ⟨member, other⟩
      refine ⟨?_, member⟩
      rintro rfl
      obtain ⟨signature, same, placed⟩ := there.mp member
      cases known.symm.trans same
      exact other ⟨placed.symm, rfl⟩
    · rintro ⟨other, member⟩
      exact ⟨member, fun same => other same.2⟩
  · rename_i unknown
    refine ⟨fun member => ⟨?_, member⟩, And.right⟩
    rintro rfl
    obtain ⟨signature, same, _⟩ := there.mp member
    cases unknown.symm.trans same

theorem Records.unlist_ordered (records : registry.Records edits) (edit : RegistryEdit) :
    (registry.unlist edit.name).Pairwise fun first second =>
      lastRegistration (edits ++ [edit]) first.2 < lastRegistration (edits ++ [edit]) second.2 := by
  have kept : ∀ entry ∈ registry.unlist edit.name,
      lastRegistration (edits ++ [edit]) entry.2 = lastRegistration edits entry.2 := by
    rintro ⟨category, name⟩ member
    have other := ((records.mem_unlist edit.name category name).mp member).1
    rw [lastRegistration_concat]
    cases edit with
    | register primitive => exact if_neg (by simpa using Ne.symm other)
    | unregister freed => rfl
  refine (records.ordered.sublist (unlist_sublist registry edit.name)).imp_of_mem ?_
  intro first second firstMember secondMember less
  rw [kept first firstMember, kept second secondMember]
  exact less

theorem Records.after (records : registry.Records edits) (edit : RegistryEdit) :
    (registry.after edit).Records (edits ++ [edit]) where
  distinct := nodup_names_after records.distinct edit
  found := by
    intro name
    rw [find?_after, current?_concat, records.found]
  listed := by
    intro category name
    have there := records.listed category name
    have remains := records.mem_unlist edit.name category name
    rw [signature?] at there ⊢
    rw [find?_after]
    cases edit with
    | register primitive =>
        change (category, name) ∈ registry.unlist primitive.signature.name ++
          [(primitive.signature.category, primitive.signature.name)] ↔ _
        rw [name_register] at remains
        rw [List.mem_append, List.mem_singleton, Prod.mk.injEq]
        by_cases same : primitive.signature.name = name
        · subst same
          simp [remains, eq_comm]
        · simp [remains, same, Ne.symm same, there]
    | unregister freed =>
        change (category, name) ∈ registry.unlist freed ↔ _
        rw [name_unregister] at remains
        by_cases same : freed = name
        · subst same
          simp [remains]
        · simp [remains, same, Ne.symm same, there]
  ordered := by
    have kept := records.unlist_ordered edit
    cases edit with
    | register primitive =>
        refine List.pairwise_append.mpr ⟨kept, List.pairwise_singleton _ _, ?_⟩
        rintro ⟨category, name⟩ member ⟨_, _⟩ last
        cases List.mem_singleton.mp last
        have other := ((records.mem_unlist _ category name).mp member).1
        rw [lastRegistration_concat, lastRegistration_concat,
          if_neg (by simpa using Ne.symm other), if_pos (by simp)]
        exact Nat.lt_succ_of_le (lastRegistration_le edits name)
    | unregister freed => exact kept

theorem Records.run (records : registry.Records edits) (more : List RegistryEdit) :
    (registry.run more).Records (edits ++ more) := by
  induction more generalizing registry edits with
  | nil =>
      rw [List.append_nil]
      exact records
  | cons edit rest ih =>
      rw [List.append_cons]
      exact ih (records.after edit)

theorem mem_byCategory {category : Category} {name : String} :
    name ∈ registry.byCategory category ↔ (category, name) ∈ registry.palette := by
  simp [byCategory]

theorem Records.byCategory_ordered (records : registry.Records edits) (category : Category) :
    (registry.byCategory category).Pairwise fun first second =>
      lastRegistration edits first < lastRegistration edits second := by
  rw [byCategory, List.pairwise_map]
  exact records.ordered.sublist List.filter_sublist

theorem Records.byCategory_nodup (records : registry.Records edits) (category : Category) :
    (registry.byCategory category).Nodup :=
  (records.byCategory_ordered category).imp fun less same => absurd (same ▸ less) (Nat.lt_irrefl _)

def signatures (registry : Registry) : List Signature := registry.primitives.map (·.signature)

def ofCategory (registry : Registry) (category : Category) : List Signature :=
  (registry.byCategory category).filterMap registry.signature?

def sortedByName (signatures : List Signature) : List Signature :=
  signatures.mergeSort fun left right => left.name ≤ right.name

theorem grouped_eq (registry : Registry) :
    registry.grouped =
      (Category.all.filter fun category => !(registry.ofCategory category).isEmpty).map
        fun category => (category, sortedByName (registry.ofCategory category)) := by
  have general : ∀ categories : List Category,
      categories.filterMap (fun category =>
        if (registry.ofCategory category).isEmpty then none
        else some (category, sortedByName (registry.ofCategory category))) =
      (categories.filter fun category => !(registry.ofCategory category).isEmpty).map
        fun category => (category, sortedByName (registry.ofCategory category)) := by
    intro categories
    induction categories with
    | nil => rfl
    | cons category rest ih =>
        cases empty : (registry.ofCategory category).isEmpty <;>
          simp only [List.filterMap_cons, List.filter_cons, empty, ih, Bool.not_true,
            Bool.not_false, Bool.false_eq_true, if_true, if_false, List.map_cons]
  exact general Category.all

theorem mem_signatures_iff (distinct : registry.names.Nodup) (signature : Signature) :
    signature ∈ registry.signatures ↔ registry.signature? signature.name = some signature := by
  rw [signatures, signature?, List.mem_map, Option.map_eq_some_iff]
  constructor
  · rintro ⟨primitive, member, rfl⟩
    refine ⟨primitive, ?_, rfl⟩
    cases found : registry.find? primitive.signature.name with
    | none => simpa using List.find?_eq_none.mp found primitive member
    | some other =>
        have same := List.inj_on_of_nodup_map distinct member (List.mem_of_find?_eq_some found)
          (name_of_find? found).symm
        rw [same]
  · rintro ⟨primitive, found, same⟩
    exact ⟨primitive, List.mem_of_find?_eq_some found, same⟩

theorem name_of_signature? {name : String} {signature : Signature}
    (known : registry.signature? name = some signature) : signature.name = name := by
  obtain ⟨primitive, found, rfl⟩ := Option.map_eq_some_iff.mp known
  exact name_of_find? found

theorem Records.mem_ofCategory (records : registry.Records edits) (category : Category)
    (signature : Signature) :
    signature ∈ registry.ofCategory category ↔
      signature ∈ registry.signatures ∧ signature.category = category := by
  rw [ofCategory, List.mem_filterMap, mem_signatures_iff records.distinct]
  constructor
  · rintro ⟨name, listed, known⟩
    obtain ⟨other, same, placed⟩ := (records.listed category name).mp (mem_byCategory.mp listed)
    cases known.symm.trans same
    rw [name_of_signature? known]
    exact ⟨known, placed⟩
  · rintro ⟨known, placed⟩
    refine ⟨signature.name, mem_byCategory.mpr ?_, known⟩
    exact (records.listed category _).mpr ⟨signature, known, placed⟩

theorem Records.names_ofCategory (records : registry.Records edits) (category : Category) :
    (registry.ofCategory category).map (·.name) = registry.byCategory category := by
  have general : ∀ names : List String, (∀ name ∈ names, (registry.signature? name).isSome) →
      (names.filterMap registry.signature?).map (·.name) = names := by
    intro names known
    induction names with
    | nil => rfl
    | cons name rest ih =>
        obtain ⟨here, later⟩ := List.forall_mem_cons.mp known
        obtain ⟨signature, known⟩ := Option.isSome_iff_exists.mp here
        rw [List.filterMap_cons_some known, List.map_cons, name_of_signature? known, ih later]
  refine general _ fun name listed => ?_
  obtain ⟨signature, known, _⟩ := (records.listed category name).mp (mem_byCategory.mp listed)
  rw [known]
  rfl

theorem Records.sorted (records : registry.Records edits) (category : Category) :
    (sortedByName (registry.ofCategory category)).Pairwise (·.name < ·.name) := by
  have ascending : (sortedByName (registry.ofCategory category)).Pairwise (·.name ≤ ·.name) := by
    refine (List.pairwise_mergeSort (fun first second third => ?_) (fun first second => ?_)
      (registry.ofCategory category)).imp of_decide_eq_true
    · simpa using le_trans
    · simpa using le_total first.name second.name
  have distinct : (sortedByName (registry.ofCategory category)).Pairwise
      fun first second => first.name ≠ second.name := by
    rw [← List.pairwise_map (f := fun signature : Signature => signature.name) (R := (· ≠ ·))]
    refine ((List.mergeSort_perm _ _).map _).nodup_iff.mpr ?_
    rw [records.names_ofCategory]
    exact records.byCategory_nodup category
  exact (ascending.and distinct).imp fun both => lt_of_le_of_ne both.1 both.2

theorem Records.grouped_perm (records : registry.Records edits) :
    (registry.grouped.flatMap (·.2)).Perm registry.signatures := by
  have once : registry.signatures.Nodup := by
    refine List.Nodup.of_map (fun signature : Signature => signature.name) ?_
    rw [signatures, List.map_map]
    exact records.distinct
  have apart : (Category.all.filter fun category =>
      !(registry.ofCategory category).isEmpty).Nodup :=
    List.Nodup.filter _ (by decide)
  rw [grouped_eq, List.flatMap_map, List.perm_ext_iff_of_nodup ?_ once]
  · intro signature
    simp only [List.mem_flatMap, List.mem_filter, sortedByName, List.mem_mergeSort,
      records.mem_ofCategory]
    constructor
    · rintro ⟨_, _, member, _⟩
      exact member
    · intro member
      have here := (records.mem_ofCategory signature.category signature).mpr ⟨member, rfl⟩
      refine ⟨signature.category, ⟨?_, ?_⟩, member, rfl⟩
      · cases signature.category <;> decide
      · simpa using List.ne_nil_of_mem here
  · refine List.nodup_flatMap.mpr ⟨fun category _ => ?_, apart.imp fun different => ?_⟩
    · refine (records.sorted category).imp ?_
      rintro first _ less rfl
      exact lt_irrefl _ less
    · intro signature left right
      simp only [sortedByName, List.mem_mergeSort, records.mem_ofCategory] at left right
      exact different (left.2.symm.trans right.2)

/-- The two indexes of a registry after some edits, in step with the edits and with each other. -/
structure InStep (registry : Registry) (edits : List RegistryEdit) : Prop where
  registered : ∀ name, registry.find? name = current? edits name
  names_once : registry.names.Nodup
  listed : ∀ category name, name ∈ registry.byCategory category ↔
    ∃ signature, registry.signature? name = some signature ∧ signature.category = category
  listed_once : ∀ category, (registry.byCategory category).Nodup
  latest_last : ∀ category, (registry.byCategory category).Pairwise fun first second =>
    lastRegistration edits first < lastRegistration edits second
  groups : (registry.grouped.map (·.1)).Sublist Category.all
  grouped : ∀ group ∈ registry.grouped, group.2 ≠ [] ∧
    (∀ signature ∈ group.2, signature.category = group.1) ∧ group.2.Pairwise (·.name < ·.name)
  grouped_once : (registry.grouped.flatMap (·.2)).Perm registry.signatures

theorem Records.inStep (records : registry.Records edits) : registry.InStep edits where
  registered := records.found
  names_once := records.distinct
  listed := fun category name => mem_byCategory.trans (records.listed category name)
  listed_once := records.byCategory_nodup
  latest_last := records.byCategory_ordered
  groups := by
    rw [grouped_eq, List.map_map]
    simp [Function.comp_def]
  grouped := by
    intro group member
    rw [grouped_eq] at member
    obtain ⟨category, nonempty, rfl⟩ := List.mem_map.mp member
    refine ⟨?_, fun signature listed => ?_, records.sorted category⟩
    · have found : registry.ofCategory category ≠ [] := by
        simpa using (List.mem_filter.mp nonempty).2
      exact fun none => found (List.Perm.nil_eq (none ▸ List.mergeSort_perm _ _)).symm
    · rw [sortedByName, List.mem_mergeSort, records.mem_ofCategory] at listed
      exact listed.2
  grouped_once := records.grouped_perm

/-- The registrations that make the registry that sessions start with. -/
def installation : List RegistryEdit :=
  (Math.primitives ++ Logic.primitives ++ Geometric.primitives ++ Chromatic.primitives ++
    Collection.primitives).map .register

theorem builtin_eq : builtin = empty.run installation := by
  rw [builtin, registerAll, installation, run, List.foldl_map]
  rfl

/-- The category index never drifts: after any registrations and removals, of new and of known
names, both indexes of the registry tell what the edits say. -/
theorem categories_in_step (edits : List RegistryEdit) :
    (empty.run edits).InStep edits ∧ (builtin.run edits).InStep (installation ++ edits) := by
  have fromEmpty : ∀ edits, (empty.run edits).InStep edits :=
    fun edits => (records_empty.run edits).inStep
  refine ⟨fromEmpty edits, ?_⟩
  have joined : builtin.run edits = empty.run (installation ++ edits) := by
    rw [builtin_eq, run, run, run, List.foldl_append]
  rw [joined]
  exact fromEmpty _

def flag (name : String) (category : Category) : Primitive :=
  .nullary ⟨name, category, "", ⟨[], .boolean⟩⟩ (.boolean true)

/-- A name that is registered again keeps its place among the names and goes to the end of its
category, also when that is another one. -/
example :
    let registry := empty.run
      [.register (flag "a" .math), .register (flag "b" .math), .register (flag "c" .logic),
        .register (flag "a" .math), .register (flag "b" .logic)]
    registry.names = ["a", "b", "c"] ∧ registry.byCategory .math = ["a"] ∧
      registry.byCategory .logic = ["c", "b"] := by
  decide

end Registry

end NodeGraph
