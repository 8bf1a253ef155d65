import NodeGraph.Text.Numeral

/-!
Colors with red, green, blue and alpha components, their hexadecimal notation and their
composition.
-/

namespace NodeGraph

structure Color where
  red : Float
  green : Float
  blue : Float
  alpha : Float

inductive HexError where
  | notAscii (digits : String)
  | badDigit
  | badLength (length : Nat)
  deriving DecidableEq, Repr

def HexError.message : HexError → String
  | .notAscii digits => "Invalid hex color '" ++ digits ++ "': non-hexadecimal characters"
  | .badDigit => "invalid digit found in string"
  | .badLength length =>
      "Invalid hex color format: expected 3, 4, 6, or 8 characters, got " ++
        natText length

namespace Color

def opaqueOf (red green blue : Float) : Color := ⟨red, green, blue, 1⟩

def transparent : Color := ⟨0, 0, 0, 0⟩

/-- Reads one or two characters of a channel; a plus sign may stand before a digit. -/
def channel? : List Char → Option Nat
  | [digit] => hexDigit? digit
  | ['+', digit] => hexDigit? digit
  | [high, low] => do return 16 * (← hexDigit? high) + (← hexDigit? low)
  | _ => none

/-- A channel byte, repeated `scale` times, as a component between 0 and 1. -/
def component (scale : Float) (digits : List Char) : Except HexError Float :=
  match channel? digits with
  | some byte => .ok (byte.toFloat * scale / 255)
  | none => .error .badDigit

/-- Three or four single digits, or six or eight digits in pairs, after any number of `#`. -/
def ofHex (text : String) : Except HexError Color :=
  let digits := text.toList.dropWhile (· == '#')
  if digits.any fun digit => digit.toNat ≥ 128 then .error (.notAscii (String.ofList digits))
  else
    match digits with
    | [r, g, b] => do
        return opaqueOf (← component 17 [r]) (← component 17 [g]) (← component 17 [b])
    | [r, g, b, a] => do
        return ⟨← component 17 [r], ← component 17 [g], ← component 17 [b],
          ← component 17 [a]⟩
    | [r, r', g, g', b, b'] => do
        return opaqueOf (← component 1 [r, r']) (← component 1 [g, g'])
          (← component 1 [b, b'])
    | [r, r', g, g', b, b', a, a'] => do
        return ⟨← component 1 [r, r'], ← component 1 [g, g'], ← component 1 [b, b'],
          ← component 1 [a, a']⟩
    | _ => .error (.badLength digits.length)

/-- The nearest byte of a component clamped to [0, 1]; halves go up and NaN is 0. -/
def byteOf (value : Float) : Nat :=
  let clamped : Float := if value < 0 then 0 else if 1 < value then 1 else value
  (clamped * 255).round.toUInt8.toNat

def hexByte (byte : Nat) : List Char :=
  [Nat.digitChar (byte / 16), Nat.digitChar (byte % 16)].map Char.toUpper

/-- `#RRGGBB`, with the alpha byte behind it unless it is full. -/
def toHex (color : Color) : String :=
  let alpha := byteOf color.alpha
  let base := '#' :: [color.red, color.green, color.blue].flatMap fun part => hexByte (byteOf part)
  String.ofList (if alpha = 255 then base else base ++ hexByte alpha)

def components (color : Color) : List Float := [color.red, color.green, color.blue, color.alpha]

/-- Composition of `top` over `below`. -/
def «over» (top below : Color) : Color :=
  let alpha := top.alpha + below.alpha * (1 - top.alpha)
  if alpha ≤ 0 then transparent
  else
    let blend := fun (upper lower : Float) =>
      (upper * top.alpha + lower * below.alpha * (1 - top.alpha)) / alpha
    ⟨blend top.red below.red, blend top.green below.green, blend top.blue below.blue, alpha⟩

def mix (first second : Color) (amount : Float) : Color :=
  let between := fun (a b : Float) => a + (b - a) * amount
  ⟨between first.red second.red, between first.green second.green,
    between first.blue second.blue, between first.alpha second.alpha⟩

def equal (left right : Color) : Bool :=
  left.red == right.red && left.green == right.green && left.blue == right.blue &&
    left.alpha == right.alpha

def isFinite (color : Color) : Bool := color.components.all Float.isFinite

end Color

end NodeGraph
