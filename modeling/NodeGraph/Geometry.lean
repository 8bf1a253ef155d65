import NodeGraph.Text.Decimal

/-!
Points and axis-aligned rectangles over floats.
-/

namespace NodeGraph

/-- The smaller number; a NaN yields to the other operand, and of equal numbers the left is kept. -/
def smaller (left right : Float) : Float :=
  if left.isNaN then right else if right < left then right else left

/-- The larger number; a NaN yields to the other operand, and of equal numbers the left is kept. -/
def larger (left right : Float) : Float :=
  if left.isNaN then right else if left < right then right else left

structure Point where
  x : Float
  y : Float

structure Size where
  width : Float
  height : Float

/-- A rectangle given by its minimum corner and its size. -/
structure Rect where
  origin : Point
  size : Size

namespace Point

def equal (left right : Point) : Bool := left.x == right.x && left.y == right.y

def isFinite (point : Point) : Bool := point.x.isFinite && point.y.isFinite

def text (point : Point) : String :=
  "(" ++ Decimal.text point.x ++ ", " ++ Decimal.text point.y ++ ")"

end Point

namespace Size

def equal (left right : Size) : Bool :=
  left.width == right.width && left.height == right.height

def isFinite (size : Size) : Bool := size.width.isFinite && size.height.isFinite

def text (size : Size) : String := Decimal.text size.width ++ "x" ++ Decimal.text size.height

end Size

namespace Rect

def of (x y width height : Float) : Rect := ⟨⟨x, y⟩, ⟨width, height⟩⟩

/-- The smallest rectangle that has both points as corners. -/
def fromCorners (first second : Point) : Rect :=
  of (smaller first.x second.x) (smaller first.y second.y)
    (first.x - second.x).abs (first.y - second.y).abs

def maxX (rect : Rect) : Float := rect.origin.x + rect.size.width

def maxY (rect : Rect) : Float := rect.origin.y + rect.size.height

def isEmpty (rect : Rect) : Bool := rect.size.width ≤ 0 || rect.size.height ≤ 0

/-- The maximum edges are outside. -/
def contains (rect : Rect) (point : Point) : Bool :=
  point.x ≥ rect.origin.x && point.x < rect.maxX &&
    point.y ≥ rect.origin.y && point.y < rect.maxY

/-- The smallest rectangle that contains both; an empty one contributes nothing. -/
def union (left right : Rect) : Rect :=
  if left.isEmpty then right
  else if right.isEmpty then left
  else
    let x := smaller left.origin.x right.origin.x
    let y := smaller left.origin.y right.origin.y
    of x y (larger left.maxX right.maxX - x) (larger left.maxY right.maxY - y)

/-- The overlap, of size zero when there is none. -/
def intersection (left right : Rect) : Rect :=
  let x := larger left.origin.x right.origin.x
  let y := larger left.origin.y right.origin.y
  let maxX := smaller left.maxX right.maxX
  let maxY := smaller left.maxY right.maxY
  if maxX ≤ x || maxY ≤ y then of x y 0 0 else of x y (maxX - x) (maxY - y)

def translate (rect : Rect) (offset : Point) : Rect :=
  ⟨⟨rect.origin.x + offset.x, rect.origin.y + offset.y⟩, rect.size⟩

def equal (left right : Rect) : Bool :=
  left.origin.equal right.origin && left.size.equal right.size

def isFinite (rect : Rect) : Bool := rect.origin.isFinite && rect.size.isFinite

def text (rect : Rect) : String :=
  "Rect(" ++ Decimal.text rect.origin.x ++ ", " ++ Decimal.text rect.origin.y ++ ", " ++
    rect.size.text ++ ")"

end Rect

end NodeGraph
