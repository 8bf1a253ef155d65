import NodeGraph.Primitive.Basic

/-!
Construction and composition of colors.
-/

namespace NodeGraph.Chromatic

/-- A color component must lie in [0, 1]. -/
def component (operand : Value) : Except ValueError Float := do
  let number ← operand.asNumber
  if 0 ≤ number && number ≤ 1 then return number
  else .error (.domain ("color component " ++ Decimal.text number ++ " is outside [0, 1]"))

def rgba (red green blue alpha : Value) : Except ValueError Value := do
  return .color ⟨← component red, ← component green, ← component blue, ← component alpha⟩

def rgb (red green blue : Value) : Except ValueError Value := do
  return .color (.opaqueOf (← component red) (← component green) (← component blue))

def fromHex (operand : Value) : Except ValueError Value := do
  match Color.ofHex (← operand.asText) with
  | .ok color => return .color color
  | .error error => .error (.domain error.message)

def alpha (operand : Value) : Except ValueError Value := do
  return .number (← operand.asColor).alpha

def «over» (top below : Value) : Except ValueError Value := do
  return .color ((← top.asColor).over (← below.asColor))

def mix (first second amount : Value) : Except ValueError Value := do
  let start ← first.asColor
  let finish ← second.asColor
  return .color (start.mix finish (← component amount))

def signature (name : String) (params : List Ty) (result : Ty) (description : String) :
    Signature :=
  ⟨name, .color, description, ⟨params, result⟩⟩

def primitives : List Primitive :=
  [ .quaternary (signature "rgba" [.number, .number, .number, .number] .color
      "Color from RGBA components") rgba,
    .ternary (signature "rgb" [.number, .number, .number] .color
      "Opaque color from RGB components") rgb,
    .unary (signature "color_from_hex" [.text] .color "Parse a hex color") fromHex,
    .unary (signature "color_alpha" [.color] .number "Alpha component of a color") alpha,
    .binary (signature "color_over" [.color, .color] .color
      "Composite the first color over the second") «over»,
    .ternary (signature "color_mix" [.color, .color, .number] .color
      "Linear interpolation between two colors") mix ]

end NodeGraph.Chromatic
