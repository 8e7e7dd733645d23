import PlantGrammar.Geometry.Box
import PlantGrammar.Turtle.Command

/-!
# Painting commands

A canvas replays drawing commands. It keeps a transform and a stack of its own
and paints filled shapes in the coordinates of a surface.
-/

namespace PlantGrammar

variable {α : Type}

/-- A drawing surface, in pixels. -/
structure Surface (α : Type) where
  width : α
  height : α
deriving Repr, Inhabited

namespace Surface

/-- The surface where none is chosen. -/
def standard : Surface Float := ⟨1000, 1000⟩

/-- The middle of the lower edge, from which a plant grows up towards
negative `y`. -/
def origin [Scalar α] (s : Surface α) : Transform α :=
  Transform.translate (s.width / Scalar.ofInt 2) s.height

end Surface

/-- What a shape is part of. -/
inductive ShapeKind where
  | branch
  | leaf
deriving DecidableEq, Repr, Inhabited

/-- A filled polygon in the coordinates of a surface. -/
structure Shape (α : Type) where
  kind : ShapeKind
  outline : Outline α
  color : Color
  alpha : α
deriving Inhabited

/-- A canvas between two commands. -/
structure Canvas (α : Type) where
  transform : Transform α
  /-- The transforms remembered, the last one first. -/
  saved : List (Transform α)
  shapes : Array (Shape α)

namespace Canvas

variable [Scalar α]

/-- An empty canvas for a surface. -/
def start (surface : Surface α) : Canvas α := ⟨surface.origin, [], #[]⟩

/-- Carries out one command. To go back with nothing remembered changes
nothing. -/
def draw (c : Canvas α) : Command α → Canvas α
  | .branch width length color =>
    let shape : Shape α :=
      ⟨.branch, (Outline.branch width length).transform c.transform, color, Scalar.ofInt 1⟩
    { c with
      shapes := c.shapes.push shape
      transform := c.transform * Transform.advance length }
  | .rotate radians => { c with transform := c.transform * Transform.rotate radians }
  | .push => { c with saved := c.transform :: c.saved }
  | .pop =>
    match c.saved with
    | transform :: saved => { c with transform, saved }
    | [] => c
  | .leaf width length color alpha =>
    let shape : Shape α :=
      ⟨.leaf, (Outline.leaf width length).transform c.transform, color, alpha⟩
    { c with shapes := c.shapes.push shape }

/-- Carries out commands in order. -/
def replay (c : Canvas α) (commands : List (Command α)) : Canvas α := commands.foldl draw c

end Canvas

/-- The box of everything painted so far. -/
def Canvas.bounds? (c : Canvas Float) : Option Box :=
  Box.ofOutlines? (c.shapes.toList.map (·.outline))

/-- The shapes of some commands on a fresh canvas. -/
def paint [Scalar α] (commands : List (Command α)) (surface : Surface α) : List (Shape α) :=
  ((Canvas.start surface).replay commands).shapes.toList

end PlantGrammar
