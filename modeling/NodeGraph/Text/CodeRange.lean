/-!
Sets of characters given as sorted ranges of code points.
-/

namespace NodeGraph

/-- Inclusive ranges of code points. -/
abbrev CodeRanges := Array (Nat × Nat)

def CodeRanges.contains (ranges : CodeRanges) (character : Char) : Bool :=
  ranges.any fun (first, last) => first ≤ character.toNat && character.toNat ≤ last

end NodeGraph
