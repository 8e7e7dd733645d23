import PlantGrammar.Numeric.Rounding

/-!
# Remainders

The remainder of a division that truncates is exact: both numbers are multiples
of the smallest step of their format, and so is what is left.
-/

namespace PlantGrammar.Numeric

/-- A finite pattern's value in steps of `2 ^ (-grain)`. -/
def Format.steps (f : Format) (pattern : Nat) : Nat :=
  f.significand pattern * Nat.pow 2 (f.shift pattern)

/-- What is left of `x` after taking away `y` as often as it fits; the sign is
that of `x`. -/
def Encoding.remainder {f : Format} (x y : Encoding f) : Encoding f :=
  if !x.isFinite || y.isNaN || y.pattern = 0 then ⟨x.negative, f.notANumber⟩
  else if !y.isFinite then x
  else ⟨x.negative, f.nearest (f.steps x.pattern % f.steps y.pattern) (Nat.pow 2 f.grain)⟩

/-- The exact remainder of two single precision numbers. -/
def remainder32 (x y : Float32) : Float32 :=
  ((Encoding.ofFloat32 x).remainder (Encoding.ofFloat32 y)).toFloat32

end PlantGrammar.Numeric
