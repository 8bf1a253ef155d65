import NodeGraph.Geometry

/-!
Handles on images that live outside the graph. Only the identity and the extent are known here.
-/

namespace NodeGraph

/-- A 128-bit identity, written as 32 hexadecimal digits in groups of 8, 4, 4, 4 and 12. -/
structure ImageId where
  bits : BitVec 128
  deriving DecidableEq, Repr

/-- An image; handles are compared by identity alone. -/
structure Image where
  id : ImageId
  extent : Option Rect

def Image.equal (left right : Image) : Bool := left.id == right.id

namespace ImageId

/-- The 32 hexadecimal digits, most significant first. -/
def digits (id : ImageId) : List Char :=
  let shortest := Nat.toDigits 16 id.bits.toNat
  List.replicate (32 - shortest.length) '0' ++ shortest

/-- Puts a hyphen after the eighth, twelfth, sixteenth and twentieth digit. -/
def hyphenate (digits : List Char) : List Char :=
  digits.take 8 ++ '-' :: (digits.drop 8).take 4 ++ '-' :: (digits.drop 12).take 4 ++
    '-' :: (digits.drop 16).take 4 ++ '-' :: digits.drop 20

def text (id : ImageId) : String := String.ofList (hyphenate id.digits)

def shortText (id : ImageId) : String := String.ofList (id.digits.take 8)

def number? (digits : List Char) : Option Nat :=
  digits.foldlM (fun total digit => (hexDigit? digit).map (16 * total + ·)) 0

def ofDigits? (digits : List Char) : Option ImageId :=
  if digits.length = 32 then
    (number? digits).map fun number => ⟨BitVec.ofNat 128 number⟩
  else none

def ofHyphenated? (characters : List Char) : Option ImageId :=
  let bare := characters.filter (· != '-')
  if bare.length = 32 ∧ hyphenate bare = characters then ofDigits? bare else none

/-- Reads bare digits, or the hyphenated groups, on their own, in braces or after `urn:uuid:`. -/
def ofText? (text : String) : Option ImageId :=
  let characters := text.toList
  if characters.length = 32 then ofDigits? characters
  else if characters.length = 36 then ofHyphenated? characters
  else if characters.length = 38 ∧ characters.head? = some '\x7b' ∧
      characters.getLast? = some '\x7d' then
    ofHyphenated? ((characters.drop 1).take 36)
  else if characters.take 9 = "urn:uuid:".toList then ofHyphenated? (characters.drop 9)
  else none

end ImageId

end NodeGraph
