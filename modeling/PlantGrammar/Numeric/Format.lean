/-!
# Binary formats and their encodings

A binary format is given by two widths. A non-negative number of the format is
a *pattern*: the natural number that its exponent and fraction fields spell.
Patterns grow with the values they stand for, the one after the largest finite
value is infinity, and all above it are not numbers.

`Encoding` pairs a pattern with a sign. `Encoding.ofFloat` and
`Encoding.toFloat` (and their single precision twins) connect encodings with
the machine numbers that the geometry computes in.
-/

namespace PlantGrammar.Numeric

/-- A binary interchange format, by the widths of its two fields. -/
structure Format where
  fractionBits : Nat
  exponentBits : Nat
deriving DecidableEq, Repr

namespace Format

/-- Double precision: the format of every length, angle and coordinate. -/
def binary64 : Format := ⟨52, 11⟩

/-- Single precision: the format of colour channels and of coordinates in a picture. -/
def binary32 : Format := ⟨23, 8⟩

/-- The smallest positive value of the format is `2 ^ (-grain)`. -/
def grain (f : Format) : Nat := Nat.pow 2 (f.exponentBits - 1) - 2 + f.fractionBits

/-- The significand of a normal number lies between this and its double. -/
def hidden (f : Format) : Nat := Nat.pow 2 f.fractionBits

/-- The pattern of infinity, the first that no finite number has. -/
def infinity (f : Format) : Nat := (Nat.pow 2 f.exponentBits - 1) * f.hidden

/-- The pattern that `0 / 0` has: infinity with the top fraction bit set. -/
def notANumber (f : Format) : Nat := f.infinity + f.hidden / 2

/-- The significand of a finite pattern. Below `hidden` the number is subnormal
and its fraction is all there is. -/
def significand (f : Format) (pattern : Nat) : Nat :=
  if pattern < f.hidden then pattern else f.hidden + pattern % f.hidden

/-- How far the significand of a finite pattern is shifted to the left: the value
is `significand * 2 ^ shift` steps of `2 ^ (-grain)`. -/
def shift (f : Format) (pattern : Nat) : Nat := pattern / f.hidden - 1

/-- `2 ^ (up - down)` as numerator and denominator. -/
def powerOfTwo (up down : Nat) : Nat × Nat := (Nat.pow 2 (up - down), Nat.pow 2 (down - up))

/-- The value of a finite pattern as numerator and denominator. -/
def ratio (f : Format) (pattern : Nat) : Nat × Nat :=
  let (num, den) := powerOfTwo (f.shift pattern) f.grain
  (f.significand pattern * num, den)

end Format

/-- A number of a format: its sign and its pattern. Also a non-number has a sign. -/
structure Encoding (f : Format) where
  negative : Bool
  pattern : Nat
deriving DecidableEq, Repr, Inhabited

namespace Encoding

variable {f : Format}

/-- Neither infinite nor a non-number. -/
def isFinite (e : Encoding f) : Bool := e.pattern < f.infinity

/-- Neither finite nor infinite. -/
def isNaN (e : Encoding f) : Bool := f.infinity < e.pattern

/-- The sign and pattern of a word with one sign bit on top. -/
def ofWord (f : Format) (word : Nat) : Encoding f :=
  let top := Nat.pow 2 (f.exponentBits + f.fractionBits)
  ⟨top ≤ word, word % top⟩

/-- The word that spells a sign and a pattern. -/
def toWord (e : Encoding f) : Nat :=
  (if e.negative then Nat.pow 2 (f.exponentBits + f.fractionBits) else 0) + e.pattern

/-- The encoding of a double precision number. -/
def ofFloat (x : Float) : Encoding .binary64 := ofWord _ x.toBits.toNat

/-- The double precision number of an encoding. -/
def toFloat (e : Encoding .binary64) : Float := Float.ofBits (UInt64.ofNat e.toWord)

/-- The encoding of a single precision number. -/
def ofFloat32 (x : Float32) : Encoding .binary32 := ofWord _ x.toBits.toNat

/-- The single precision number of an encoding. -/
def toFloat32 (e : Encoding .binary32) : Float32 := Float32.ofBits (UInt32.ofNat e.toWord)

end Encoding

end PlantGrammar.Numeric
