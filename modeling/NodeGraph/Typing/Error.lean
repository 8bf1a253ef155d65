import NodeGraph.Typing.Ty

/-!
Failures of type inference, in an expression and in a node of a graph.
-/

namespace NodeGraph

inductive Culprit where
  | input (slot : Nat)
  | expression (text : String)
  deriving DecidableEq, Repr

def Culprit.text : Culprit → String
  | .input slot => "input " ++ natText slot
  | .expression text => "`" ++ text ++ "`"

inductive TypeError where
  | unification (expected found : Ty) (culprit : Culprit)
  | infinite (root ty : Ty) (culprit : Culprit)
  | arityMismatch (expected found : Nat) (expression : String)
  | unboundVariable (name : String)
  | argumentOutOfRange (index available : Nat)
  | unknownPrimitive (name : String)

namespace TypeError

def kind : TypeError → String
  | .unification _ _ _ => "UnificationFailure"
  | .infinite _ _ _ => "InfiniteType"
  | .arityMismatch _ _ _ => "ArityMismatch"
  | .unboundVariable _ => "UnboundVariable"
  | .argumentOutOfRange _ _ => "ArgumentOutOfRange"
  | .unknownPrimitive _ => "UnknownPrimitive"

def message : TypeError → String
  | .unification expected found culprit =>
      "cannot unify " ++ expected.display ++ " with " ++ found.display ++
        " (in " ++ culprit.text ++ ")"
  | .infinite root ty culprit =>
      "infinite type: " ++ root.display ++ " occurs in " ++ ty.display ++
        " (in " ++ culprit.text ++ ")"
  | .arityMismatch expected found expression =>
      "arity mismatch in `" ++ expression ++ "`: expected " ++ natText expected ++
        " operand(s), found " ++ natText found
  | .unboundVariable name => "unbound variable '" ++ name ++ "'"
  | .argumentOutOfRange index available =>
      "argument #" ++ natText index ++ " is out of range (" ++
        natText available ++ " available)"
  | .unknownPrimitive name => "unknown primitive '" ++ name ++ "'"

def culprit? : TypeError → Option Culprit
  | .unification _ _ culprit | .infinite _ _ culprit => some culprit
  | _ => none

end TypeError

/-- A type failure at a node. The origin is the node that feeds the blamed input, or the node
itself. -/
structure NodeTypeError where
  node : Nat
  origin : Nat
  parameter : String
  error : TypeError

def NodeTypeError.message (failure : NodeTypeError) : String :=
  "type error in node " ++ natText failure.node ++ " (caused by node " ++
    natText failure.origin ++ "): " ++ failure.error.message

end NodeGraph
