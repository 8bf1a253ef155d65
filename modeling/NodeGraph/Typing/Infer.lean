import NodeGraph.Primitive.Registry
import NodeGraph.Typing.Error
import NodeGraph.Typing.VarTable
import NodeGraph.Value.Text

/-!
Type inference. One walk over an expression makes and solves equations between types. Names are
those of the enclosing lambdas, then the node's inputs, then the node's parameters; an argument
belongs to the innermost lambda, or to the inputs outside of all lambdas.
-/

namespace NodeGraph

/-- What is known of an input: the node that feeds it and that node's type. -/
structure InputType where
  source : Option Nat
  ty : Option Ty

/-- The names and the arguments of an enclosing lambda. -/
structure LambdaScope where
  names : List (String × Ty)
  arguments : List Ty

/-- What an expression is typed against: node parameters, last one first, and enclosing lambdas,
innermost first. -/
structure TypeContext where
  registry : Registry
  params : List (String × Ty)
  scopes : List LambdaScope

/-- The equations so far and the types of the inputs read so far. -/
structure InferState where
  table : VarTable
  inputs : Array Ty

abbrev InferM := StateT InferState (Except TypeError)

namespace TypeContext

def ofRegistry (registry : Registry) : TypeContext := ⟨registry, [], []⟩

def bind (context : TypeContext) (name : String) (ty : Ty) : TypeContext :=
  { context with params := (name, ty) :: context.params }

/-- The type of a name that a lambda binds; of equal names in one lambda the last counts. -/
def scoped? (context : TypeContext) (name : String) : Option Ty :=
  context.scopes.findSome? fun scope => scope.names.reverse.lookup name

/-- Whom to blame for a failure at an expression. -/
def culprit (context : TypeContext) (site : Expr) : Culprit :=
  match site with
  | .variable name =>
      if (context.scoped? name).isSome then .expression name
      else
        match Expr.inputSlot? name with
        | some slot => .input slot
        | none => .expression name
  | .argument index =>
      if context.scopes.isEmpty then .input index.toNat else .expression site.print
  | _ => .expression site.print

end TypeContext

namespace InferState

def empty : InferState := ⟨.empty, #[]⟩

/-- Known inputs are instantiated each on its own; unknown ones are new variables. -/
def ofInputs (inputs : List InputType) : InferState :=
  inputs.foldl
    (fun state input =>
      let (ty, table) := match input.ty with
        | some ty => state.table.instantiate ty
        | none => state.table.fresh
      ⟨table, state.inputs.push ty⟩)
    empty

def generalize (state : InferState) (ty : Ty) : Ty := state.table.generalize ty

def inputTy? (state : InferState) (slot : Nat) : Option Ty :=
  state.inputs[slot]?.map state.generalize

def addInputs (state : InferState) (count : Nat) : InferState :=
  let (types, table) := state.table.freshList count
  ⟨table, state.inputs ++ types.toArray⟩

end InferState

namespace Infer

def freshTy : InferM Ty :=
  modifyGet fun state =>
    let (ty, table) := state.table.fresh
    (ty, { state with table })

def freshTys (count : Nat) : InferM (List Ty) :=
  modifyGet fun state =>
    let (types, table) := state.table.freshList count
    (types, { state with table })

def instantiate (scheme : Scheme) : InferM (List Ty × Ty) :=
  modifyGet fun state =>
    let (params, instances, table) := state.table.instantiateListWith [] scheme.params
    let (result, _, table) := table.instantiateWith instances scheme.result
    ((params, result), { state with table })

def head (ty : Ty) : InferM Ty :=
  modifyGet fun state =>
    (state.table.head ty, { state with table := state.table.compressHead ty })

/-- Tells a unification failure in generic names, both types numbered together. -/
def blame (table : VarTable) (culprit : Culprit) : UnifyError → TypeError
  | .mismatch expected found =>
      match table.generalizeAll [expected, found] with
      | [expected, found] => .unification expected found culprit
      | _ => .unification expected found culprit
  | .infinite root ty =>
      match table.generalizeAll [root, ty] with
      | [root, ty] => .infinite root ty culprit
      | _ => .infinite root ty culprit

/-- Unifies; a failure is blamed on the culprit, which is computed only then. -/
def unify (expected found : Ty) (culprit : Unit → Culprit) : InferM Unit := fun state =>
  match state.table.unify expected found with
  | (table, .ok ()) => .ok ((), { state with table })
  | (table, .error error) => .error (blame table (culprit ()) error)

/-- The type of an input, which may be read before it is connected up to a bound. -/
def input (slot : Nat) : InferM Ty := fun state =>
  match state.inputs[slot]? with
  | some ty => .ok (ty, state)
  | none =>
      if slot ≥ Expr.maxArguments then
        .error (.argumentOutOfRange slot Expr.maxArguments)
      else
        let grown := state.addInputs (slot + 1 - state.inputs.size)
        match grown.inputs[slot]? with
        | some ty => .ok (ty, grown)
        | none => .error (.argumentOutOfRange slot Expr.maxArguments)

mutual

/-- Errors and functions have any type; the items of an array have one. -/
def valueTy : Value → InferM Ty
  | .number _ | .integer _ => return .number
  | .boolean _ => return .boolean
  | .text _ => return .text
  | .point _ => return .point
  | .rect _ => return .rect
  | .color _ => return .color
  | .image _ => return .image
  | .error _ | .function _ => freshTy
  | .array items => do
      let element ← freshTy
      itemsTy (fun _ => .expression (Value.array items).display) element items
      return .array element

def itemsTy (culprit : Unit → Culprit) (element : Ty) : List Value → InferM Unit
  | [] => return ()
  | item :: rest => do
      let ty ← valueTy item
      unify element ty culprit
      itemsTy culprit element rest

end

def variableTy (context : TypeContext) (name : String) : InferM Ty :=
  match context.scoped? name with
  | some ty => return ty
  | none =>
      match Expr.inputSlot? name with
      | some slot => input slot
      | none =>
          match context.params.lookup name with
          | some ty => return ty
          | none => throw (.unboundVariable name)

def argumentTy (context : TypeContext) (index : Nat) : InferM Ty :=
  match context.scopes with
  | [] => input index
  | scope :: _ =>
      match scope.arguments[index]? with
      | some ty => return ty
      | none => throw (.argumentOutOfRange index scope.arguments.length)

/-- Unifies parameters with the types of operands, blaming the operand. -/
def unifyOperands (context : TypeContext) : List Ty → List Ty → List Expr → InferM Unit
  | param :: params, found :: types, operand :: operands => do
      unify param found fun _ => context.culprit operand
      unifyOperands context params types operands
  | _, _, _ => return ()

mutual

def exprTy (context : TypeContext) : Expr → InferM Ty
  | .constant value => valueTy value
  | .variable name => variableTy context name
  | .argument index => argumentTy context index.toNat
  | .primitive name operands => do
      match context.registry.signature? name with
      | none => throw (.unknownPrimitive name)
      | some signature =>
          let (params, result) ← instantiate signature.scheme
          if operands.isEmpty then
            return if params.isEmpty then result else .function params result
          else if operands.length ≠ params.length then
            throw (.arityMismatch params.length operands.length
              (Expr.primitive name operands).print)
          else
            checkOperands context params operands
            return result
  | .apply operator operands => do
      let operatorTy ← exprTy context operator
      let operandTys ← exprTys context operands
      match ← head operatorTy with
      | .function params result =>
          if params.length ≠ operandTys.length then
            throw (.arityMismatch params.length operandTys.length
              (Expr.apply operator operands).print)
          else
            unifyOperands context params operandTys operands
            return result
      | other =>
          let result ← freshTy
          unify (.function operandTys result) other fun _ => context.culprit operator
          return result
  | .map array callable => do
      let arrayTy ← exprTy context array
      let element ← freshTy
      unify (.array element) arrayTy fun _ => context.culprit array
      let callableTy ← exprTy context callable
      match ← head callableTy with
      | .function [param] result =>
          unify param element fun _ => context.culprit array
          return .array result
      | .function params _ =>
          throw (.arityMismatch params.length 1 (Expr.map array callable).print)
      | other =>
          let result ← freshTy
          unify (.function [element] result) other fun _ => context.culprit callable
          return .array result
  | .lambda params body => do
      let arity := Expr.lambdaArity params body
      if arity > Expr.maxArguments then
        throw (.argumentOutOfRange (arity - 1) Expr.maxArguments)
      else
        let arguments ← freshTys arity
        let scope : LambdaScope := ⟨params.zip arguments, arguments⟩
        let result ← exprTy { context with scopes := scope :: context.scopes } body
        return .function arguments result

def exprTys (context : TypeContext) : List Expr → InferM (List Ty)
  | [] => return []
  | expr :: rest => do
      let ty ← exprTy context expr
      let types ← exprTys context rest
      return ty :: types

/-- Types each operand and unifies it with its parameter before the next one. -/
def checkOperands (context : TypeContext) (params : List Ty) : List Expr → InferM Unit
  | [] => return ()
  | operand :: operands =>
      match params with
      | [] => return ()
      | param :: params => do
          let found ← exprTy context operand
          unify param found fun _ => context.culprit operand
          checkOperands context params operands

end

end Infer

/-- The generalized type of an expression without inputs or parameters. -/
def inferClosed (registry : Registry) (expr : Expr) : Except TypeError Ty := do
  let (ty, state) ← (Infer.exprTy (.ofRegistry registry) expr).run .empty
  return state.generalize ty

/-- Places a failure at a node; the origin is the source of the input it is blamed on. -/
def locate (node : Nat) (inputs : List InputType) (parameter : String) (error : TypeError) :
    NodeTypeError :=
  let origin := match error.culprit? with
    | some (.input slot) => ((inputs[slot]?.bind (·.source)).getD node)
    | _ => node
  ⟨node, origin, parameter, error⟩

/-- Types parameters in order, each seeing those before it. -/
def inferParams (node : Nat) (inputs : List InputType) :
    TypeContext → InferState → List (String × Expr) →
      Except NodeTypeError (TypeContext × InferState)
  | context, state, [] => .ok (context, state)
  | context, state, (name, expr) :: rest =>
      match (Infer.exprTy context expr).run state with
      | .ok (ty, state) => inferParams node inputs (context.bind name ty) state rest
      | .error error => .error (locate node inputs name error)

/-- The type of a node: that of its output, which sees all the other parameters. -/
def inferNode (registry : Registry) (node : Nat) (params : List (String × Expr))
    (inputs : List InputType) : Except NodeTypeError Ty := do
  let named := params.filter fun param => param.1 != Expr.outputName
  let (context, state) ←
    inferParams node inputs (.ofRegistry registry) (.ofInputs inputs) named
  match params.lookup Expr.outputName with
  | none =>
      .error (locate node inputs Expr.outputName (.unboundVariable Expr.outputName))
  | some output =>
      match (Infer.exprTy context output).run state with
      | .ok (ty, state) => return state.generalize ty
      | .error error => .error (locate node inputs Expr.outputName error)

end NodeGraph
