import PlantGrammar.Numeric.Format

/-!
# Rounding a quotient to a binary format

`Format.nearest` is the pattern of the value nearest to a quotient of natural
numbers; a quotient half way between two values goes to the one whose
significand is even, and one beyond the largest value goes to infinity. Reading
decimals and narrowing to single precision both end here.
-/

namespace PlantGrammar.Numeric

/-- The integer nearest to `num / den`; a half goes to the even neighbour. -/
def roundHalfEven (num den : Nat) : Nat :=
  let quotient := num / den
  let rest := num % den
  if 2 * rest < den then quotient
  else if den < 2 * rest then quotient + 1
  else quotient + quotient % 2

/-- The largest `k` with `2 ^ k ≤ num / den`, for positive arguments. -/
def floorLog2 (num den : Nat) : Int :=
  let k : Int := (num.log2 : Int) - den.log2
  if den * Nat.pow 2 k.toNat ≤ num * Nat.pow 2 (-k).toNat then k else k - 1

namespace Format

/-- The pattern of the value nearest to `num / den`, for `den` positive. The
significand is rounded at the place that its leading bit calls for; one that
rounds up to the next power of two carries into the exponent field by itself. -/
def nearest (f : Format) (num den : Nat) : Nat :=
  if num = 0 then 0
  else
    let shift := (floorLog2 num den - f.fractionBits + f.grain).toNat
    let (down, up) := powerOfTwo shift f.grain
    min (shift * f.hidden + roundHalfEven (num * up) (den * down)) f.infinity

end Format

namespace Encoding

/-- The number of format `g` nearest to a number of format `f`. -/
def narrow {f : Format} (g : Format) (e : Encoding f) : Encoding g :=
  if e.isNaN then ⟨e.negative, g.notANumber⟩
  else if e.isFinite then
    let (num, den) := f.ratio e.pattern
    ⟨e.negative, g.nearest num den⟩
  else ⟨e.negative, g.infinity⟩

end Encoding

end PlantGrammar.Numeric
