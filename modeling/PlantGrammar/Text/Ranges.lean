/-!
# Ranges of characters

A property of characters is kept as an ascending list of ranges of code points.
-/

namespace PlantGrammar.Text

/-- Whether a code point is in one of the ranges, which ascend. Each pair holds
the first and the last code point of a range. -/
def inRanges : List (Nat × Nat) → Nat → Bool
  | [], _ => false
  | (first, last) :: ranges, n => first ≤ n && (n ≤ last || inRanges ranges n)

end PlantGrammar.Text
