import PlantGrammar.Geometry.Scalar

/-!
# Transforms of the plane

A transform is a matrix of three rows and three columns. Products add from left
to right and multiply every entry out, also those of the last row, so that a
non-number spreads as it does in plain arithmetic.
-/

namespace PlantGrammar

variable {α : Type}

/-- A point of the plane. -/
structure Point (α : Type) where
  x : α
  y : α
deriving BEq, Repr, Inhabited

/-- A matrix of homogeneous coordinates, by rows. -/
structure Transform (α : Type) where
  xx : α
  xy : α
  xt : α
  yx : α
  yy : α
  yt : α
  tx : α
  ty : α
  tt : α
deriving Repr, Inhabited

namespace Transform

/-- The entries, row by row. -/
def entries (m : Transform α) : List α := [m.xx, m.xy, m.xt, m.yx, m.yy, m.yt, m.tx, m.ty, m.tt]

variable [Scalar α]

/-- A row times a column. -/
@[inline] def dot (a b c x y z : α) : α := (a * x + b * y) + c * z

/-- The product: what `n` does, seen from where `m` has moved to. -/
def mul (m n : Transform α) : Transform α where
  xx := dot m.xx m.xy m.xt n.xx n.yx n.tx
  xy := dot m.xx m.xy m.xt n.xy n.yy n.ty
  xt := dot m.xx m.xy m.xt n.xt n.yt n.tt
  yx := dot m.yx m.yy m.yt n.xx n.yx n.tx
  yy := dot m.yx m.yy m.yt n.xy n.yy n.ty
  yt := dot m.yx m.yy m.yt n.xt n.yt n.tt
  tx := dot m.tx m.ty m.tt n.xx n.yx n.tx
  ty := dot m.tx m.ty m.tt n.xy n.yy n.ty
  tt := dot m.tx m.ty m.tt n.xt n.yt n.tt

instance : Mul (Transform α) := ⟨mul⟩

/-- Where a point lands. -/
def apply (m : Transform α) (p : Point α) : Point α :=
  ⟨(m.xx * p.x + m.xy * p.y) + m.xt, (m.yx * p.x + m.yy * p.y) + m.yt⟩

/-- Zero, as a scalar. -/
@[inline] def zero : α := Scalar.ofInt 0

/-- One, as a scalar. -/
@[inline] def one : α := Scalar.ofInt 1

/-- Leaves every point in its place. -/
def unit : Transform α := ⟨one, zero, zero, zero, one, zero, zero, zero, one⟩

/-- Moves every point by the same step. -/
def translate (dx dy : α) : Transform α := ⟨one, zero, dx, zero, one, dy, zero, zero, one⟩

/-- Stretches both axes. -/
def scale (sx sy : α) : Transform α := ⟨sx, zero, zero, zero, sy, zero, zero, zero, one⟩

/-- Turns the plane by an angle given by its cosine and sine. -/
def turn (c s : α) : Transform α := ⟨c, -s, zero, s, c, zero, zero, zero, one⟩

/-- Turns the plane by an angle in radians. Where `y` grows downwards, a positive
angle turns clockwise. -/
def rotate (radians : α) : Transform α := turn (Scalar.cos radians) (Scalar.sin radians)

/-- Moves forward by a length, which is towards negative `y`. -/
def advance (length : α) : Transform α := translate zero (-length)

/-- Where the origin lands. -/
def origin (m : Transform α) : Point α := m.apply ⟨zero, zero⟩

end Transform

end PlantGrammar
