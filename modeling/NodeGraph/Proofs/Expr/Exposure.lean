import Mathlib.Data.List.Basic
import NodeGraph.Expr.Free
import NodeGraph.Proofs.Expr.Views

/-!
Captured bindings. A closure keeps everything that was bound where it was made, though its body
reads only the names that are free in it. What an evaluation gives does not depend on the rest, as
long as no primitive looks at it.
-/

namespace NodeGraph

def Bindings.pick (bindings : Bindings) (names : List String) : Bindings :=
  names.filterMap fun name => (bindings.lookup name).map (name, ·)

mutual

/-- The value with no more of its functions than calls of them show: neither their origins nor the
bindings that their bodies do not read. -/
def Value.exposed : Value → Value
  | .array items => .array (Value.exposedList items)
  | .function callable => .function callable.exposed
  | .number real => .number real
  | .integer whole => .integer whole
  | .boolean truth => .boolean truth
  | .point place => .point place
  | .rect area => .rect area
  | .color shade => .color shade
  | .text string => .text string
  | .image handle => .image handle
  | .error message => .error message

def Value.exposedList : List Value → List Value
  | [] => []
  | value :: rest => value.exposed :: Value.exposedList rest

def Value.exposedBindings : List (String × Value) → List (String × Value)
  | [] => []
  | (name, value) :: rest => (name, value.exposed) :: Value.exposedBindings rest

def Callable.exposed : Callable → Callable
  | .primitive name => .primitive name
  | .closure _ params body bindings =>
      .closure [] params body
        (Bindings.pick (Value.exposedBindings bindings) (body.freeNamesUnder [params]))

end

theorem exposedList_eq (values : List Value) :
    Value.exposedList values = values.map Value.exposed := by
  induction values with
  | nil => rfl
  | cons value rest ih => rw [Value.exposedList, ih, List.map_cons]

theorem exposedBindings_eq (bindings : Bindings) :
    Value.exposedBindings bindings = bindings.map fun entry => (entry.1, entry.2.exposed) := by
  induction bindings with
  | nil => rfl
  | cons binding rest ih =>
      obtain ⟨name, value⟩ := binding
      rw [Value.exposedBindings, ih, List.map_cons]

def Bindings.shown (bindings : Bindings) (name : String) : Option Value :=
  (bindings.lookup name).map Value.exposed

theorem lookup_exposedBindings (bindings : Bindings) (name : String) :
    (Value.exposedBindings bindings).lookup name = bindings.shown name := by
  induction bindings with
  | nil => rfl
  | cons binding rest ih =>
      obtain ⟨other, value⟩ := binding
      rw [Bindings.shown, Value.exposedBindings, List.lookup_cons, List.lookup_cons]
      split
      · rfl
      · exact ih

theorem lookup_pick {bindings : Bindings} {names : List String} {name : String}
    (member : name ∈ names) : (bindings.pick names).lookup name = bindings.lookup name := by
  induction names with
  | nil => cases member
  | cons first rest ih =>
      rw [Bindings.pick, List.filterMap_cons]
      by_cases same : name = first
      · subst same
        cases found : bindings.lookup name with
        | some value => simp
        | none =>
            simp only [Option.map_none]
            -- The name may be listed again, but it is not bound there either.
            refine List.lookup_eq_none_iff.mpr fun entry listed => ?_
            obtain ⟨other, _, bound⟩ := List.mem_filterMap.mp listed
            obtain ⟨value, present, rfl⟩ := Option.map_eq_some_iff.mp bound
            rw [bne_iff_ne]
            rintro rfl
            rw [found] at present
            cases present
      · have later := ih ((List.mem_cons.mp member).resolve_left same)
        rw [Bindings.pick] at later
        cases bindings.lookup first with
        | none => exact later
        | some value =>
            rw [Option.map_some, List.lookup_cons, beq_eq_false_iff_ne.mpr same]
            exact later

theorem pick_exposedBindings {bindings others : Bindings} {names : List String} :
    Bindings.pick (Value.exposedBindings bindings) names =
        Bindings.pick (Value.exposedBindings others) names ↔
      ∀ name ∈ names, bindings.shown name = others.shown name := by
  constructor
  · intro same name member
    have found := congrArg (List.lookup name) same
    rwa [lookup_pick member, lookup_pick member, lookup_exposedBindings, lookup_exposedBindings]
      at found
  · intro same
    refine List.filterMap_congr fun name member => ?_
    rw [lookup_exposedBindings, lookup_exposedBindings, same name member]

def View.exposed : View where
  value := Value.exposed
  callable := Callable.exposed
  array := fun items => by rw [Value.exposed, exposedList_eq]
  function := fun called => by rw [Value.exposed]
  simple := by
    intro shown notArray notFunction
    cases shown with
    | array _ => cases notArray
    | function _ => cases notFunction
    | _ => rfl

/-- A primitive that observes neither the identity of functions nor the bindings that they keep
without reading them. -/
def Primitive.IgnoresCaptures (primitive : Primitive) : Prop :=
  ∀ left right : List Value, left.map Value.exposed = right.map Value.exposed →
    (primitive.apply left).map Value.exposed = (primitive.apply right).map Value.exposed

def Registry.IgnoresCaptures (registry : Registry) : Prop :=
  ∀ primitive ∈ registry.primitives, primitive.IgnoresCaptures

mutual

theorem Expr.mem_freeNamesUnder {name : String} {scopes others : List (List String)} (expr : Expr)
    (free : name ∈ expr.freeNamesUnder scopes)
    (unbound : others.any (·.contains name) = true → scopes.any (·.contains name) = true)
    (around : scopes.isEmpty = others.isEmpty) : name ∈ expr.freeNamesUnder others := by
  match expr with
  | .constant _ => cases free
  | .variable other =>
      rw [freeNamesUnder] at free ⊢
      split at free
      · cases free
      · rename_i outside
        obtain rfl := List.mem_singleton.mp free
        rw [if_neg fun bound => outside (unbound bound)]
        exact List.mem_singleton_self name
  | .argument index =>
      rw [freeNamesUnder] at free ⊢
      rwa [← around]
  | .primitive _ operands =>
      rw [freeNamesUnder] at free ⊢
      exact mem_freeNamesUnderList operands free unbound around
  | .apply operator operands =>
      rw [freeNamesUnder, List.mem_append] at free ⊢
      exact free.imp (fun free => mem_freeNamesUnder operator free unbound around)
        fun free => mem_freeNamesUnderList operands free unbound around
  | .map array callable =>
      rw [freeNamesUnder, List.mem_append] at free ⊢
      exact free.imp (fun free => mem_freeNamesUnder array free unbound around)
        fun free => mem_freeNamesUnder callable free unbound around
  | .lambda params body =>
      rw [freeNamesUnder] at free ⊢
      refine mem_freeNamesUnder body free (fun bound => ?_) rfl
      rw [List.any_cons, Bool.or_eq_true] at bound ⊢
      exact bound.imp_right unbound

theorem Expr.mem_freeNamesUnderList {name : String} {scopes others : List (List String)}
    (exprs : List Expr) (free : name ∈ freeNamesUnderList scopes exprs)
    (unbound : others.any (·.contains name) = true → scopes.any (·.contains name) = true)
    (around : scopes.isEmpty = others.isEmpty) : name ∈ freeNamesUnderList others exprs := by
  match exprs with
  | [] => cases free
  | expr :: rest =>
      rw [freeNamesUnderList, List.mem_append] at free ⊢
      exact free.imp (fun free => mem_freeNamesUnder expr free unbound around)
        fun free => mem_freeNamesUnderList rest free unbound around

end

namespace Frame

variable {around : List (List String)} {names : List String} {left right : Frame}

/-- Frames that show the same to expressions that read some names, among lambdas around them whose
arguments are those of the frame. -/
structure Shares (around : List (List String)) (names : List String) (left right : Frame) :
    Prop where
  named : ∀ name ∈ names, left.bindings.shown name = right.bindings.shown name
  argued : ∀ index : UInt64,
    (around.isEmpty = true → Expr.inputName index.toNat ∈ names) →
      (left.argumentAt index.toNat).exposed = (right.argumentAt index.toNat).exposed

theorem Shares.bind (shares : Shares around names left right) (name : String)
    {value other : Value} (values : value.exposed = other.exposed) :
    Shares around names (left.bind name value) (right.bind name other) where
  named := by
    intro wanted read
    have earlier := shares.named wanted read
    rw [Bindings.shown, Bindings.shown, Frame.bind, Frame.bind, List.lookup_cons, List.lookup_cons]
    split
    · exact congrArg some values
    · exact earlier
  argued := shares.argued

mutual

theorem Shares.agrees (shares : Shares around names left right)
    (unbound : ∀ name, around.any (·.contains name) = false) (expr : Expr)
    (reads : expr.freeNamesUnder around ⊆ names) : View.exposed.Agrees left right expr expr := by
  match expr with
  | .constant _ => exact .constant rfl
  | .variable name =>
      refine .variable (View.exposed.valueOf (shares.named name (reads ?_)))
      rw [Expr.freeNamesUnder, unbound name]
      exact List.mem_singleton_self name
  | .argument index =>
      refine .argument (shares.argued index fun outside => reads ?_)
      rw [Expr.freeNamesUnder, outside]
      exact List.mem_singleton_self _
  | .primitive _ operands =>
      rw [Expr.freeNamesUnder] at reads
      exact .primitive (shares.agreesAll unbound operands reads)
  | .apply operator operands =>
      rw [Expr.freeNamesUnder, List.append_subset] at reads
      exact .apply (shares.agrees unbound operator reads.1)
        (shares.agreesAll unbound operands reads.2)
  | .map array callable =>
      rw [Expr.freeNamesUnder, List.append_subset] at reads
      exact .map (shares.agrees unbound array reads.1) (shares.agrees unbound callable reads.2)
  | .lambda params body =>
      rw [Expr.freeNamesUnder] at reads
      refine .lambda fun _ _ => ?_
      have captured : ∀ name ∈ body.freeNamesUnder [params], name ∈ names := by
        intro name free
        refine reads (body.mem_freeNamesUnder free (fun bound => ?_) rfl)
        rw [List.any_cons, unbound name, Bool.or_false] at bound
        rw [List.any_cons, bound, Bool.true_or]
      have picked := pick_exposedBindings.mpr
        fun name free => shares.named name (captured name free)
      simp only [View.exposed, Callable.exposed, picked]

theorem Shares.agreesAll (shares : Shares around names left right)
    (unbound : ∀ name, around.any (·.contains name) = false) (exprs : List Expr)
    (reads : Expr.freeNamesUnderList around exprs ⊆ names) :
    View.exposed.AgreesAll left right exprs exprs := by
  match exprs with
  | [] => exact .nil
  | expr :: rest =>
      rw [Expr.freeNamesUnderList, List.append_subset] at reads
      exact .cons (shares.agrees unbound expr reads.1) (shares.agreesAll unbound rest reads.2)

end

theorem shown_zip (params : List String) {arguments operands : List Value}
    (alike : arguments.map Value.exposed = operands.map Value.exposed) (name : String) :
    Bindings.shown (params.zip arguments).reverse name =
      Bindings.shown (params.zip operands).reverse name := by
  have mapped : ∀ arguments : List Value, Value.exposedBindings (params.zip arguments).reverse =
      (params.zip (arguments.map Value.exposed)).reverse := by
    intro arguments
    rw [exposedBindings_eq, List.map_reverse, List.zip_map_right]
    rfl
  rw [← lookup_exposedBindings, ← lookup_exposedBindings, mapped, mapped, alike]

theorem shares_ofCall {params : List String} {body : Expr} {bindings others : Bindings}
    {arguments operands : List Value}
    (captured : ∀ name ∈ body.freeNamesUnder [params], bindings.shown name = others.shown name)
    (alike : arguments.map Value.exposed = operands.map Value.exposed)
    (many : params.length ≤ arguments.length) :
    Shares [[]] (body.freeNamesUnder [[]]) (.ofCall bindings params arguments)
      (.ofCall others params operands) where
  named := by
    intro name free
    have passed := shown_zip params alike name
    rw [Bindings.shown, Bindings.shown] at passed ⊢
    rw [ofCall, ofCall, List.lookup_append, List.lookup_append]
    cases found : (params.zip arguments).reverse.lookup name with
    | some value =>
        rw [found] at passed
        obtain ⟨other, given, same⟩ := Option.map_eq_some_iff.mp passed.symm
        rw [given]
        exact congrArg some same.symm
    | none =>
        rw [found] at passed
        rw [Option.map_eq_none_iff.mp passed.symm]
        refine captured name (body.mem_freeNamesUnder free (fun bound => ?_) rfl)
        have isParam : name ∈ (params.zip arguments).map Prod.fst := by
          rw [List.map_fst_zip many]
          simpa using bound
        obtain ⟨entry, listed, rfl⟩ := List.mem_map.mp isParam
        have apart := List.lookup_eq_none_iff.mp found entry (List.mem_reverse.mpr listed)
        simp at apart
  argued := by
    intro index _
    have lengths : arguments.length = operands.length := by simpa using congrArg List.length alike
    have same := congrArg (·[index.toNat]?) alike
    simp only [List.getElem?_map] at same
    exact View.exposed.argumentAt lengths same

end Frame

theorem View.exposed_lawful : View.exposed.Lawful where
  primitive := by
    intro name called same
    cases called with
    | primitive other =>
        simp only [View.exposed, Callable.exposed, Callable.primitive.injEq] at same
        rw [same]
    | closure _ _ _ _ => simp [View.exposed, Callable.exposed] at same
  closure := by
    intro _ params body bindings called same
    cases called with
    | primitive _ => simp [View.exposed, Callable.exposed] at same
    | closure place otherParams shown others =>
        simp only [View.exposed, Callable.exposed, Callable.closure.injEq, true_and] at same
        obtain ⟨rfl, rfl, picked⟩ := same
        refine ⟨place, body, others, rfl, rfl, fun arguments operands alike many => ?_⟩
        have enough : params.length ≤ arguments.length := by
          rw [many, Expr.lambdaArity]
          cases params <;> simp
        exact (Frame.shares_ofCall (pick_exposedBindings.mp picked) alike enough).agrees
          (fun _ => rfl) body fun _ free => free

end NodeGraph
