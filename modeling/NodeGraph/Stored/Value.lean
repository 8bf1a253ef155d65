import NodeGraph.Stored.Fields
import NodeGraph.Value.Basic

/-!
The stored form of values: an object with the `type` of the value and its `data`. Functions have
no stored form, and floats that are not finite are written as `null`, which does not read back.
-/

namespace NodeGraph.Stored

def writePoint (point : Point) : Json :=
  .object [("x", .ofFloat point.x), ("y", .ofFloat point.y)]

def writeSize (size : Size) : Json :=
  .object [("width", .ofFloat size.width), ("height", .ofFloat size.height)]

def writeRect (rect : Rect) : Json :=
  .object [("origin", writePoint rect.origin), ("size", writeSize rect.size)]

def writeColor (color : Color) : Json :=
  .object [("r", .ofFloat color.red), ("g", .ofFloat color.green), ("b", .ofFloat color.blue),
    ("a", .ofFloat color.alpha)]

def writeImage (image : Image) : Json :=
  .object [("id", .string image.id.text), ("extent", image.extent.elim .null writeRect)]

def typed (type : String) (data : Json) : Json :=
  .object [("type", .string type), ("data", data)]

mutual

def writeValue : Value → Option Json
  | .number real => some (typed "Number" (.ofFloat real))
  | .integer whole => some (typed "Integer" (.ofInt whole.toInt))
  | .boolean truth => some (typed "Boolean" (.bool truth))
  | .point place => some (typed "Point" (writePoint place))
  | .rect area => some (typed "Rect" (writeRect area))
  | .color shade => some (typed "Color" (writeColor shade))
  | .text string => some (typed "String" (.string string))
  | .array items => (writeValuesOnto [] items).map fun written => typed "Array" (.array written)
  | .image handle => some (typed "Image" (writeImage handle))
  | .error message => some (typed "Error" (.string message))
  | .function _ => none

/-- Writes values behind those in `written`, which are in reverse order. -/
def writeValuesOnto (written : List Json) : List Value → Option (List Json)
  | [] => some written.reverse
  | value :: rest =>
      match writeValue value with
      | some json => writeValuesOnto (json :: written) rest
      | none => none

end

def readPoint : Nat → Json → Option Point
  | 0, _ => none
  | _ + 1, json => do
      match ← requiredFields ["x", "y"] json with
      | [x, y] => return ⟨← readFloat x, ← readFloat y⟩
      | _ => none

def readSize : Nat → Json → Option Size
  | 0, _ => none
  | _ + 1, json => do
      match ← requiredFields ["width", "height"] json with
      | [width, height] => return ⟨← readFloat width, ← readFloat height⟩
      | _ => none

def readRect : Nat → Json → Option Rect
  | 0, _ => none
  | room + 1, json => do
      match ← requiredFields ["origin", "size"] json with
      | [origin, size] => return ⟨← readPoint room origin, ← readSize room size⟩
      | _ => none

def readColor : Nat → Json → Option Color
  | 0, _ => none
  | _ + 1, json => do
      match ← requiredFields ["r", "g", "b", "a"] json with
      | [r, g, b, a] => return ⟨← readFloat r, ← readFloat g, ← readFloat b, ← readFloat a⟩
      | _ => none

def readImage : Nat → Json → Option Image
  | 0, _ => none
  | room + 1, json => do
      match ← recordFields ["id", "extent"] 2 json with
      | [some id, extent] =>
          return ⟨← ImageId.ofText? (← readText id), ← readOptional (readRect room) extent⟩
      | _ => none

/-- The types of values that can be stored, in the order of their numbers. -/
def valueTypes : List String :=
  ["Number", "Integer", "Boolean", "Point", "Rect", "Color", "String", "Array", "Image", "Error"]

/-- Reads the data of a value, given how the items of an array are read. -/
def readData (room : Nat) (readMany : Bool → List Json → Option (List Value)) (tagged : Tagged) :
    Option Value :=
  let data := tagged.content
  match tagged.alternative with
  | "Number" => return .number (← readFloat data)
  | "Integer" => return .integer (← readInteger data)
  | "Boolean" => return .boolean (← readBoolean data)
  | "Point" => return .point (← readPoint room data)
  | "Rect" => return .rect (← readRect room data)
  | "Color" => return .color (← readColor room data)
  | "String" => return .text (← readText data)
  | "Array" =>
      match data with
      | .array items => return .array (← readMany tagged.held items)
      | _ => none
  | "Image" => return .image (← readImage room data)
  | "Error" => return .error (← readText data)
  | _ => none

/-- Reads a value with room for so many containers; `held` says whether it was held back. An array
takes room for two, as its items stand in an array of their own. -/
def readValue : Nat → Bool → Json → Option Value
  | 0, _, _ => none
  | 1, held, json => do
      readData 0 (fun _ _ => none) (← readTagged "type" "data" valueTypes held 0 json)
  | room + 2, held, json => do
      readData (room + 1) (fun held items => items.mapM (readValue room held))
        (← readTagged "type" "data" valueTypes held (room + 1) json)

end NodeGraph.Stored
