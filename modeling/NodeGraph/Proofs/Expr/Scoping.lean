import NodeGraph.Proofs.Expr.Watching
import NodeGraph.Proofs.Typing.Soundness

/-!
Scoping. An expression all of whose names and arguments a frame shows misses nothing there, and
makes only functions that miss nothing when they are called, wherever they are passed to. Some names
may be excepted, as going astray.
-/

namespace NodeGraph

/-- Only names that go astray are missed, and the result is good. -/
structure Watched.Finds {result : Type} (astray : String → Prop) (good : result → Prop)
    (watched : Watched result) : Prop where
  missed : ∀ miss ∈ watched.missed, ∃ name, astray name ∧ miss = .unbound name
  good : ∀ value, watched.outcome = .ok value → good value

namespace Watched.Finds

variable {astray : String → Prop} {first result : Type} {good : result → Prop}

theorem pure {value : result} (fine : good value) :
    (Pure.pure value : Watched result).Finds astray good :=
  ⟨fun _ member => absurd member List.not_mem_nil, fun _ same => Except.ok.inj same ▸ fine⟩

theorem invoke {registry : Registry} {name : String} {operands : List Value} {good : Value → Prop}
    (fine : ∀ value, registry.invoke name operands = .ok value → good value) :
    (watchInvoke registry name operands).Finds astray good :=
  ⟨fun _ member => absurd member List.not_mem_nil, fine⟩

theorem bind {before : first → Prop} {watched : Watched first} {next : first → Watched result}
    (finds : watched.Finds astray before)
    (rest : ∀ value, before value → (next value).Finds astray good) :
    (watched >>= next).Finds astray good := by
  obtain ⟨missed, applied, outcome⟩ := watched
  cases outcome with
  | error fault => exact ⟨finds.missed, fun _ same => nomatch same⟩
  | ok value =>
      obtain ⟨later, fine⟩ := rest value (finds.good value rfl)
      refine ⟨fun miss member => ?_, fine⟩
      rcases List.mem_append.mp member with early | late
      · exact finds.missed miss early
      · exact later miss late

theorem map {before : first → Prop} {watched : Watched first} {change : first → result}
    (finds : watched.Finds astray before) (fine : ∀ value, before value → good (change value)) :
    (change <$> watched).Finds astray good := by
  rw [map_eq_pure_bind]
  exact finds.bind fun value before => .pure (fine value before)

theorem mapM {items : List first} {each : first → Watched result}
    (finds : ∀ item ∈ items, (each item).Finds astray good) :
    (items.mapM each).Finds astray fun values => ∀ value ∈ values, good value := by
  induction items with
  | nil => exact .pure fun _ member => nomatch member
  | cons item rest ih =>
      rw [List.mapM_cons]
      refine (finds item List.mem_cons_self).bind fun value fine => ?_
      refine (ih fun other member => finds other (List.mem_cons_of_mem _ member)).bind
        fun values all => .pure ?_
      exact List.forall_mem_cons.mpr ⟨fine, all⟩

end Watched.Finds

section Scoping

variable (astray : String → Prop)

namespace Expr

mutual

/-- All that an expression reads is among the names or goes astray, or is an argument that may be
read; and its constants have no functions inside. -/
def InScope (names : List String) (readable : Nat → Prop) : Expr → Prop
  | .constant value => value.plain = true
  | .variable name => name ∈ names ∨ astray name
  | .argument index => readable index.toNat
  | .primitive _ operands => AllInScope names readable operands
  | .apply operator operands =>
      operator.InScope names readable ∧ AllInScope names readable operands
  | .map array callable => array.InScope names readable ∧ callable.InScope names readable
  | .lambda params body => body.InScope (params ++ names) (· < lambdaArity params body)

def AllInScope (names : List String) (readable : Nat → Prop) : List Expr → Prop
  | [] => True
  | expr :: rest => expr.InScope names readable ∧ AllInScope names readable rest

end

variable {astray}

mutual

theorem InScope.mono {names more : List String} (grown : ∀ name ∈ names, name ∈ more)
    {readable : Nat → Prop} {expr : Expr} (within : expr.InScope astray names readable) :
    expr.InScope astray more readable := by
  match expr with
  | .constant value => exact within
  | .variable name => exact within.imp (grown name) id
  | .argument index => exact within
  | .primitive name operands => exact AllInScope.mono grown within
  | .apply operator operands => exact ⟨within.1.mono grown, AllInScope.mono grown within.2⟩
  | .map array callable => exact ⟨within.1.mono grown, within.2.mono grown⟩
  | .lambda params body =>
      have body : body.InScope astray (params ++ names) (· < lambdaArity params body) := within
      refine body.mono fun name member => ?_
      rw [List.mem_append] at member ⊢
      exact member.imp id (grown name)

theorem AllInScope.mono {names more : List String} (grown : ∀ name ∈ names, name ∈ more)
    {readable : Nat → Prop} {exprs : List Expr} (within : AllInScope astray names readable exprs) :
    AllInScope astray more readable exprs := by
  match exprs with
  | [] => trivial
  | expr :: rest => exact ⟨within.1.mono grown, AllInScope.mono grown within.2⟩

end

end Expr

/-- Every function inside shows to its body all that the body reads. -/
inductive Value.Closed : Value → Prop
  | simple {value : Value} (noArray : value.isArray = false)
      (noFunction : value.isFunction = false) : Closed value
  | array {items : List Value} (all : ∀ item ∈ items, Closed item) : Closed (.array items)
  | primitive (name : String) : Closed (.function (.primitive name))
  | closure {origin : Origin} {params : List String} {body : Expr} {bindings : Bindings}
      (within : body.InScope astray (params ++ bindings.map Prod.fst)
        (· < Expr.lambdaArity params body))
      (all : ∀ entry ∈ bindings, Closed entry.2) :
      Closed (.function (.closure origin params body bindings))

/-- What a frame shows, of closed values; the arguments that are not connected are not readable. -/
structure Frame.Shows (names : List String) (readable : Nat → Prop) (vacant : List Nat)
    (frame : Frame) : Prop where
  names : ∀ name ∈ names, name ∈ frame.bindings.map Prod.fst
  arguments : ∀ index, readable index → index < frame.arguments.length ∧ ¬ index ∈ vacant
  bound : ∀ entry ∈ frame.bindings, entry.2.Closed astray
  passed : ∀ value ∈ frame.arguments, value.Closed astray

def WatchedCall.Finds (call : WatchedCall) : Prop :=
  ∀ origin callable arguments, (Value.function callable).Closed astray →
    (∀ argument ∈ arguments, argument.Closed astray) →
      (call origin callable arguments).Finds astray (Value.Closed astray)

def Registry.KeepsClosed (registry : Registry) : Prop :=
  ∀ name operands value, (∀ operand ∈ operands, operand.Closed astray) →
    registry.invoke name operands = .ok value → value.Closed astray

end Scoping

variable {astray : String → Prop} {registry : Registry} {call : WatchedCall} {names : List String}
  {readable : Nat → Prop} {vacant : List Nat} {frame : Frame}

namespace Value

theorem closed_error (message : String) : (Value.error message).Closed astray := .simple rfl rfl

theorem closed_of_isError {value : Value} (broken : value.isError = true) :
    value.Closed astray := by
  cases value with
  | error message => exact closed_error message
  | _ => cases broken

mutual

theorem closed_of_plain (value : Value) (plain : value.plain = true) : value.Closed astray := by
  match value with
  | .function callable => cases plain
  | .array items => exact .array (closed_of_plainList items plain)
  | .number _ | .integer _ | .boolean _ | .point _ | .rect _ | .color _ | .text _ | .image _
  | .error _ => exact .simple rfl rfl

theorem closed_of_plainList (items : List Value) (plain : plainList items = true) :
    ∀ item ∈ items, item.Closed astray := by
  match items with
  | [] => exact fun _ member => nomatch member
  | item :: rest =>
      rw [plainList, Bool.and_eq_true] at plain
      exact List.forall_mem_cons.mpr
        ⟨closed_of_plain item plain.1, closed_of_plainList rest plain.2⟩

end

theorem Closed.items {items : List Value} (closed : (Value.array items).Closed astray) :
    ∀ item ∈ items, item.Closed astray := by
  cases closed with
  | simple noArray _ => cases noArray
  | array all => exact all

end Value

def ClosedOr {result : Type} (astray : String → Prop) (good : result → Prop) :
    Except Value result → Prop
  | .error error => error.Closed astray
  | .ok value => good value

abbrev CallableClosed (astray : String → Prop) : Except Value Callable → Prop :=
  ClosedOr astray fun callable => (Value.function callable).Closed astray

abbrev ItemsClosed (astray : String → Prop) : Except Value (List Value) → Prop :=
  ClosedOr astray fun items => ∀ item ∈ items, item.Closed astray

theorem Value.Closed.operator {value : Value} (closed : value.Closed astray) :
    CallableClosed astray value.operator := by
  cases value with
  | function callable => exact closed
  | _ => exact Value.closed_error _

theorem Value.Closed.mapped {value : Value} (closed : value.Closed astray) :
    ItemsClosed astray value.mapped := by
  cases value with
  | array items => exact closed.items
  | _ => exact Value.closed_error _

theorem callable?_closed (registry : Registry) (name : String) :
    CallableClosed astray (registry.callable? name) := by
  rw [Registry.callable?]
  split
  · exact .primitive name
  · exact Value.closed_error _

namespace Frame.Shows

variable (shows : frame.Shows astray names readable vacant)

include shows

theorem watchName {name : String} (within : name ∈ names ∨ astray name) :
    (frame.watchName name).Finds astray (Value.Closed astray) := by
  cases found : frame.bindings.lookup name with
  | some value =>
      obtain ⟨before, after, parts, _⟩ := List.lookup_eq_some_iff.mp found
      have member : (name, value) ∈ frame.bindings := by
        rw [parts]
        exact List.mem_append_right _ List.mem_cons_self
      refine ⟨fun miss missed => ?_, fun result same => ?_⟩
      · rw [Frame.watchName, found] at missed
        cases missed
      · obtain rfl := Except.ok.inj same
        rw [Frame.valueOf, found]
        exact shows.bound _ member
  | none =>
      have goesAstray : astray name := by
        refine within.resolve_left fun member => ?_
        obtain ⟨entry, inside, same⟩ := List.mem_map.mp (shows.names name member)
        have none := List.lookup_eq_none_iff.mp found entry inside
        rw [same] at none
        simp at none
      refine ⟨fun miss missed => ?_, fun result same => ?_⟩
      · rw [Frame.watchName, found] at missed
        exact ⟨name, goesAstray, List.mem_singleton.mp missed⟩
      · obtain rfl := Except.ok.inj same
        rw [Frame.valueOf, found]
        exact Value.closed_error _

theorem watchArgument {index : Nat} (within : readable index) :
    (frame.watchArgument vacant index).Finds astray (Value.Closed astray) := by
  obtain ⟨inside, occupied⟩ := shows.arguments index within
  refine ⟨fun miss missed => ?_, fun result same => ?_⟩
  · rw [Frame.watchArgument, if_neg occupied, if_pos inside] at missed
    cases missed
  · obtain rfl := Except.ok.inj same
    rw [Frame.argumentAt, List.getElem?_eq_getElem inside]
    exact shows.passed _ (List.getElem_mem inside)

end Frame.Shows

theorem watchCallable_finds {expr : Expr} {value : Watched Value}
    (finds : value.Finds astray (Value.Closed astray)) :
    (Expr.watchCallable registry expr value).Finds astray (CallableClosed astray) := by
  rw [Expr.watchCallable]
  split
  · exact .pure (callable?_closed registry _)
  · exact finds.map fun value closed => closed.operator

theorem watchMap_finds (calls : call.Finds astray) {origin : Origin} {items : List Value}
    (all : ∀ item ∈ items, item.Closed astray) {callable : Except Value Callable}
    (closed : CallableClosed astray callable) :
    (Expr.watchMap registry call origin items callable).Finds astray (Value.Closed astray) := by
  cases callable with
  | error error => exact .pure closed
  | ok callable =>
      rw [Expr.watchMap]
      split
      · exact .pure (Value.closed_error _)
      · rw [watchEach]
        refine Watched.Finds.bind (.mapM fun item member => ?_) fun values all => .pure (.array all)
        have inside := List.mem_of_getElem? (List.mem_zipIdx_iff_getElem?.mp member)
        exact calls _ _ _ closed (List.forall_mem_singleton.mpr (all _ inside))
      · exact .pure (Value.closed_error _)

mutual

theorem watchWith_finds (calls : call.Finds astray) (keeps : registry.KeepsClosed astray)
    (shows : frame.Shows astray names readable vacant) (origin : Origin) (expr : Expr)
    (within : expr.InScope astray names readable) :
    (expr.watchWith registry call vacant frame origin).Finds astray (Value.Closed astray) := by
  match expr with
  | .constant value => exact .pure (value.closed_of_plain within)
  | .variable name => exact shows.watchName within
  | .argument index => exact shows.watchArgument within
  | .primitive name operands =>
      rw [Expr.watchWith]
      split
      · exact .pure (Value.closed_error _)
      · split
        · exact .pure (.primitive name)
        · split
          · exact .pure (Value.closed_error _)
          · refine (watchOperands_finds calls keeps shows origin 0 operands within).bind
              fun values closed => ?_
            cases values with
            | error error => exact .pure closed
            | ok values => exact .invoke fun value => keeps name values value closed
  | .apply operator operands =>
      rw [Expr.watchWith]
      have found := watchWith_finds calls keeps shows (0 :: origin) operator within.1
      refine (watchCallable_finds found).bind fun callable closed => ?_
      cases callable with
      | error error => exact .pure closed
      | ok callable =>
          refine (watchOperands_finds calls keeps shows origin 2 operands within.2).bind
            fun values all => ?_
          cases values with
          | error error => exact .pure all
          | ok values => exact calls _ _ _ closed all
  | .map array callable =>
      rw [Expr.watchWith]
      refine (watchWith_finds calls keeps shows (0 :: origin) array within.1).bind
        fun value closed => ?_
      have mapped := closed.mapped
      generalize value.mapped = items at mapped
      cases items with
      | error error => exact .pure mapped
      | ok items =>
          have found := watchWith_finds calls keeps shows (1 :: origin) callable within.2
          exact (watchCallable_finds found).bind fun callable closed =>
            watchMap_finds calls mapped closed
  | .lambda params body =>
      refine .pure (.closure (Expr.InScope.mono (fun name member => ?_) within) shows.bound)
      rw [List.mem_append] at member ⊢
      exact member.imp id (shows.names name)

theorem watchOperands_finds (calls : call.Finds astray) (keeps : registry.KeepsClosed astray)
    (shows : frame.Shows astray names readable vacant) (origin : Origin) (position : Nat)
    (exprs : List Expr) (within : Expr.AllInScope astray names readable exprs) :
    (Expr.watchOperands registry call vacant frame origin position exprs).Finds astray
      (ItemsClosed astray) := by
  match exprs with
  | [] => exact .pure fun _ member => nomatch member
  | expr :: rest =>
      rw [Expr.watchOperands]
      refine (watchWith_finds calls keeps shows _ expr within.1).bind fun value closed => ?_
      split
      · exact .pure closed
      · refine (watchOperands_finds calls keeps shows origin (position + 1) rest within.2).bind
          fun values all => .pure ?_
        cases values with
        | error error => exact all
        | ok values => exact List.forall_mem_cons.mpr ⟨closed, all⟩

end

theorem Frame.shows_ofCall {bindings : Bindings} {params : List String} {body : Expr}
    {arguments : List Value} (bound : ∀ entry ∈ bindings, entry.2.Closed astray)
    (all : ∀ argument ∈ arguments, argument.Closed astray)
    (arity : arguments.length = Expr.lambdaArity params body) :
    (Frame.ofCall bindings params arguments).Shows astray (params ++ bindings.map Prod.fst)
      (· < Expr.lambdaArity params body) [] where
  names := by
    intro name member
    rw [Frame.ofCall, List.map_append, List.map_reverse, List.mem_append, List.mem_reverse]
    refine (List.mem_append.mp member).imp (fun inside => ?_) id
    have lengths : params.length ≤ arguments.length := by
      cases params with
      | nil => exact Nat.zero_le _
      | cons first rest => exact Nat.le_of_eq arity.symm
    rwa [List.map_fst_zip lengths]
  arguments := fun index inside => ⟨arity ▸ inside, List.not_mem_nil⟩
  bound := by
    intro entry member
    rcases List.mem_append.mp member with passed | old
    · exact all _ (List.of_mem_zip (List.mem_reverse.mp passed)).2
    · exact bound entry old
  passed := all

theorem watchEntering_finds (keeps : registry.KeepsClosed astray)
    {enter : List String → Expr → Bindings → Watched Value} {callable : Callable}
    {arguments : List Value} (closed : (Value.function callable).Closed astray)
    (all : ∀ argument ∈ arguments, argument.Closed astray)
    (bodies : ∀ params body bindings,
      body.InScope astray (params ++ bindings.map Prod.fst) (· < Expr.lambdaArity params body) →
      (Frame.ofCall bindings params arguments).Shows astray (params ++ bindings.map Prod.fst)
        (· < Expr.lambdaArity params body) [] →
      (enter params body bindings).Finds astray (Value.Closed astray)) :
    (watchEntering registry enter callable arguments).Finds astray (Value.Closed astray) := by
  rw [watchEntering.eq_def]
  split
  · rename_i error found
    exact .pure (Value.closed_of_isError (List.find?_some (p := Value.isError) found))
  · cases callable with
    | primitive name => exact .invoke fun value => keeps name arguments value all
    | closure origin params body bindings =>
        simp only
        split
        · exact .pure (Value.closed_error _)
        · rename_i arity
          cases closed with
          | simple _ noFunction => cases noFunction
          | closure within bound =>
              exact bodies params body bindings within
                (Frame.shows_ofCall bound all (not_not.mp arity))

theorem watchCall_finds (keeps : registry.KeepsClosed astray) (remaining : Nat) :
    (watchCall registry remaining).Finds astray := by
  induction remaining with
  | zero =>
      intro origin callable arguments closed all
      exact watchEntering_finds keeps closed all fun _ _ _ _ _ => .pure (Value.closed_error _)
  | succ remaining ih =>
      intro origin callable arguments closed all
      exact watchEntering_finds keeps closed all fun params body bindings within shows =>
        watchWith_finds ih keeps shows origin body within

theorem Expr.watch_finds (keeps : registry.KeepsClosed astray)
    (shows : frame.Shows astray names readable vacant) (origin : Origin) (expr : Expr)
    (within : expr.InScope astray names readable) :
    (expr.watch registry vacant frame origin).Finds astray (Value.Closed astray) :=
  watchWith_finds (watchCall_finds keeps _) keeps shows origin expr within

end NodeGraph
