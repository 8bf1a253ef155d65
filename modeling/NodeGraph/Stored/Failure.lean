import NodeGraph.Stored.Ty
import NodeGraph.Validation.Report

/-!
Validation errors in their stored form: an object whose only key names the kind of the error.
-/

namespace NodeGraph.Stored

/-- The kind of an error and what is stored with it. -/
def readKind : Json → Option (String × Json)
  | .object [field] => some field
  | _ => none

def readIndex : Json → Option Nat := readNatural UInt64.size

def readIndices : Json → Option (List Nat)
  | .array items => items.mapM readIndex
  | _ => none

def readCulprit (json : Json) : Option Culprit := do
  match ← readKind json with
  | ("Input", slot) => return .input (← readIndex slot)
  | ("Expression", text) => return .expression (← readText text)
  | _ => none

def readTypeError (json : Json) : Option TypeError := do
  let (kind, content) ← readKind json
  match kind with
  | "UnificationFailure" =>
      match ← requiredFields ["expected", "found", "culprit"] content with
      | [expected, found, culprit] =>
          return .unification (← readTy maxDepth false expected) (← readTy maxDepth false found)
            (← readCulprit culprit)
      | _ => none
  | "InfiniteType" =>
      match ← requiredFields ["var", "ty", "culprit"] content with
      | [root, ty, culprit] =>
          return .infinite (← readTy maxDepth false root) (← readTy maxDepth false ty)
            (← readCulprit culprit)
      | _ => none
  | "ArityMismatch" =>
      match ← requiredFields ["expected", "found", "expression"] content with
      | [expected, found, expression] =>
          return .arityMismatch (← readIndex expected) (← readIndex found) (← readText expression)
      | _ => none
  | "UnboundVariable" => return .unboundVariable (← readText content)
  | "ArgumentOutOfRange" =>
      match ← requiredFields ["index", "available"] content with
      | [index, available] => return .argumentOutOfRange (← readIndex index) (← readIndex available)
      | _ => none
  | "UnknownPrimitive" => return .unknownPrimitive (← readText content)
  | _ => none

def readNodeTypeError (json : Json) : Option NodeTypeError := do
  match ← requiredFields ["node", "origin", "parameter", "error"] json with
  | [node, origin, parameter, error] =>
      return ⟨← readIndex node, ← readIndex origin, ← readText parameter, ← readTypeError error⟩
  | _ => none

def readValidationError (json : Json) : Option ValidationError := do
  let (kind, content) ← readKind json
  match kind with
  | "CycleDetected" => return .cycle (← readIndices content)
  | "DanglingEdge" =>
      match ← requiredFields ["node", "slot", "target"] content with
      | [node, slot, target] =>
          return .danglingEdge (← readIndex node) (← readIndex slot) (← readIndex target)
      | _ => none
  | "MissingOutput" => return .missingOutput (← readIndex content)
  | "UnknownPrimitive" =>
      match ← requiredFields ["node", "name"] content with
      | [node, name] => return .unknownPrimitive (← readIndex node) (← readText name)
      | _ => none
  | "Type" => return .typing (← readNodeTypeError content)
  | _ => none

end NodeGraph.Stored
