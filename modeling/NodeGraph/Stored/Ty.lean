import NodeGraph.Stored.Fields
import NodeGraph.Typing.Ty

/-!
The stored form of types: an object with the `kind` of the type and what it is `of`.
-/

namespace NodeGraph.Stored

def ofKind (kind : String) (content : Json) : Json :=
  .object [("kind", .string kind), ("of", content)]

mutual

def writeTy : Ty → Json
  | .base kind => ofKind "Base" (.string kind.name)
  | .array element => ofKind "Array" (writeTy element)
  | .function params result =>
      ofKind "Function" (.array [.array (writeTys params), writeTy result])
  | .var id => ofKind "Var" (.ofNat id)
  | .generic number => ofKind "Generic" (.ofNat number)

def writeTys : List Ty → List Json
  | [] => []
  | ty :: rest => writeTy ty :: writeTys rest

end

def baseTypes : List BaseType := [.number, .boolean, .text, .point, .rect, .color, .image]

def baseNamed? (name : String) : Option BaseType :=
  baseTypes.find? fun kind => kind.name == name

def readBase (room : Nat) (held : Bool) (json : Json) : Option BaseType := do
  baseNamed? (← readName room held json)

def tyKinds : List String := ["Base", "Array", "Function", "Var", "Generic"]

def readTy : Nat → Bool → Json → Option Ty
  | 0, _, _ => none
  | room + 1, held, json => do
      let ⟨kind, content, held⟩ ← readTagged "kind" "of" tyKinds held room json
      match kind with
      | "Base" => return .base (← readBase room held content)
      | "Array" => return .array (← readTy room held content)
      | "Function" =>
          match room, content with
          | inner + 2, .array [.array params, result] =>
              return .function (← params.mapM (readTy inner held))
                (← readTy (inner + 1) held result)
          | _, _ => none
      | "Var" => return .var (← readNatural UInt32.size content)
      | "Generic" => return .generic (← readNatural UInt32.size content)
      | _ => none

end NodeGraph.Stored
