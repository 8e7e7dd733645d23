import PlantGrammar.Color.Basic

/-!
# Drawing commands

What a turtle tells a canvas to do. Every command is relative to where the
commands before it have led.
-/

namespace PlantGrammar

/-- One step of a drawing. -/
inductive Command (α : Type) where
  /-- Draws a branch and moves to its far end. -/
  | branch (width length : α) (color : Color)
  /-- Turns by an angle in radians. -/
  | rotate (radians : α)
  /-- Remembers the place and the direction. -/
  | push
  /-- Goes back to what was remembered last. -/
  | pop
  /-- Draws a leaf without moving. -/
  | leaf (width length : α) (color : Color) (alpha : α)
deriving BEq, Repr, Inhabited

/-- The command with every number in another form. -/
def Command.map {α β : Type} (f : α → β) : Command α → Command β
  | branch width length color => .branch (f width) (f length) color
  | rotate radians => .rotate (f radians)
  | push => .push
  | pop => .pop
  | leaf width length color alpha => .leaf (f width) (f length) color (f alpha)

end PlantGrammar
