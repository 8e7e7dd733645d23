import PlantGrammar.Geometry.Transform

/-!
# Outlines

The outline of a polygon is a list of points that ends where it begins.
`Outline.ofPoints` closes a list of points; `Outline.branch` and `Outline.leaf`
are the two shapes a plant is made of.
-/

namespace PlantGrammar

variable {α : Type} [Scalar α]

/-- The points of an outline, in order. -/
structure Outline (α : Type) where
  points : List (Point α)
deriving Repr, Inhabited

namespace Outline

/-- The outline through some points; the first is repeated at the end where the
last differs from it. -/
def ofPoints (points : List (Point α)) : Outline α :=
  match points.head?, points.getLast? with
  | some first, some last => if first == last then ⟨points⟩ else ⟨points ++ [first]⟩
  | _, _ => ⟨points⟩

/-- The outline through the moved points, closed anew. -/
def transform (m : Transform α) (o : Outline α) : Outline α :=
  ofPoints (o.points.map m.apply)

/-- A branch: a rectangle with a corner on the origin that grows towards
negative `y`. -/
def branch (width length : α) : Outline α :=
  let zero : α := Scalar.ofInt 0
  ofPoints [⟨zero, zero⟩, ⟨width, zero⟩, ⟨width, -length⟩, ⟨zero, -length⟩, ⟨zero, zero⟩]

/-- The corners of a leaf of width and length one, whose tip points to negative
`y`. -/
def kite : List (Int × Int) := [(0, 0), (1, -1), (0, -4), (-1, -1), (0, 0)]

/-- A leaf: the kite, stretched. -/
def leaf (width length : α) : Outline α :=
  ofPoints (kite.map fun (x, y) => ⟨Scalar.ofInt x * width, Scalar.ofInt y * length⟩)

end Outline

end PlantGrammar
