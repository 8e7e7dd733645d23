/-!
# Scalars

The geometry of a plant needs sums, products, quotients, a few whole numbers and
the two circular functions. `Scalar` collects them, so that the same definitions
compute in double precision and can be read over a field.
-/

namespace PlantGrammar

/-- What coordinates and angles are made of. Equality is that of the arithmetic:
in double precision both zeros are equal and a non-number equals nothing. -/
class Scalar (α : Type) extends Add α, Mul α, Neg α, Div α, BEq α where
  ofInt : Int → α
  cos : α → α
  sin : α → α

/-- Double precision. -/
instance : Scalar Float where
  ofInt := Float.ofInt
  cos := Float.cos
  sin := Float.sin

end PlantGrammar
