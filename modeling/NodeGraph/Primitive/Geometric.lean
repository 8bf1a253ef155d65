import NodeGraph.Primitive.Basic

/-!
Points and rectangles.
-/

namespace NodeGraph.Geometric

def makePoint (x y : Value) : Except ValueError Value := do
  return .point ⟨← x.asNumber, ← y.asNumber⟩

/-- The size is checked before the corner. -/
def makeRect (x y width height : Value) : Except ValueError Value := do
  let w ← width.asNumber
  let h ← height.asNumber
  if w < 0 || h < 0 then
    .error (.domain ("negative rect size " ++ (Size.mk w h).text))
  else return .rect (.of (← x.asNumber) (← y.asNumber) w h)

def coordinate (read : Point → Float) (operand : Value) : Except ValueError Value := do
  return .number (read (← operand.asPoint))

def extent (read : Rect → Float) (operand : Value) : Except ValueError Value := do
  return .number (read (← operand.asRect))

def combine (join : Rect → Rect → Rect) (left right : Value) : Except ValueError Value := do
  return .rect (join (← left.asRect) (← right.asRect))

def fromCorners (first second : Value) : Except ValueError Value := do
  return .rect (.fromCorners (← first.asPoint) (← second.asPoint))

def origin (operand : Value) : Except ValueError Value := do
  return .point (← operand.asRect).origin

def translate (operand offset : Value) : Except ValueError Value := do
  return .rect ((← operand.asRect).translate (← offset.asPoint))

def contains (operand point : Value) : Except ValueError Value := do
  return .boolean ((← operand.asRect).contains (← point.asPoint))

def imageExtent (operand : Value) : Except ValueError Value := do
  match (← operand.asImage).extent with
  | some rect => return .rect rect
  | none => .error (.domain "image has an infinite extent")

def signature (name : String) (params : List Ty) (result : Ty) (description : String) :
    Signature :=
  ⟨name, .geometry, description, ⟨params, result⟩⟩

def primitives : List Primitive :=
  [ .binary (signature "point" [.number, .number] .point "Point from x and y") makePoint,
    .unary (signature "point_x" [.point] .number "X coordinate of a point")
      (coordinate Point.x),
    .unary (signature "point_y" [.point] .number "Y coordinate of a point")
      (coordinate Point.y),
    .quaternary (signature "rect" [.number, .number, .number, .number] .rect
      "Rect from x, y, width and height") makeRect,
    .binary (signature "rect_from_points" [.point, .point] .rect
      "Smallest rect containing two corner points") fromCorners,
    .unary (signature "rect_origin" [.rect] .point "Minimum corner of a rect") origin,
    .unary (signature "rect_width" [.rect] .number "Width of a rect") (extent (·.size.width)),
    .unary (signature "rect_height" [.rect] .number "Height of a rect") (extent (·.size.height)),
    .binary (signature "rect_union" [.rect, .rect] .rect "Bounding rect of two rects")
      (combine Rect.union),
    .binary (signature "rect_intersection" [.rect, .rect] .rect "Overlap of two rects")
      (combine Rect.intersection),
    .binary (signature "rect_translate" [.rect, .point] .rect "Move a rect by an offset")
      translate,
    .binary (signature "rect_contains" [.rect, .point] .boolean
      "Whether a point lies inside a rect") contains,
    .unary (signature "image_extent" [.image] .rect "Extent of an image") imageExtent ]

end NodeGraph.Geometric
