import PlantGrammar.Geometry.Transform
import PlantGrammar.Grammar.Basic
import PlantGrammar.Parameters
import PlantGrammar.Turtle.Command

/-!
# The turtle

A turtle walks a word and records drawing commands. `F` draws a branch, `+` and
`-` turn, `[` remembers the pose, and `]` draws a leaf and goes back to the pose
remembered last; every other symbol is passed over in silence. A `]` with nothing
to go back to is recorded by its position.
-/

namespace PlantGrammar

/-- Where a turtle is and which way it faces, and how long its next branch is. -/
structure Pose where
  transform : Transform Float
  branchLength : Float

/-- A turtle on its way. -/
structure Turtle where
  /-- Parameters inside their domains. -/
  parameters : Parameters Float
  pose : Pose
  /-- The poses remembered, the last one first. -/
  saved : List Pose
  commands : Array (Command Float)
  /-- The positions of every `]` that had no pose to go back to. -/
  unbalanced : Array Nat
  /-- The position of the symbol walked last. -/
  cursor : Nat

namespace Turtle

/-- An angle in degrees, in radians. -/
def radians (degrees : Float) : Float := 3.141592653589793 * (degrees / 180)

/-- A turtle at the origin that faces towards negative `y`. The parameters are
moved into their domains; a branch length that cannot be drawn gives way to
theirs. -/
def start (parameters : Parameters Float) (branchLength : Float) : Turtle :=
  let parameters := parameters.clamped
  let branchLength :=
    if branchLength.isFinite ∧ 0 < branchLength then branchLength else parameters.branchLength
  ⟨parameters, ⟨Transform.unit, branchLength⟩, [], #[], #[], 0⟩

/-- How many poses are remembered. -/
def depth (t : Turtle) : Nat := t.saved.length

/-- Records a command. -/
def record (t : Turtle) (command : Command Float) : Turtle :=
  { t with commands := t.commands.push command }

/-- Moves within the present pose. -/
def move (t : Turtle) (step : Transform Float) : Turtle :=
  { t with pose := { t.pose with transform := t.pose.transform * step } }

/-- Draws a branch and moves to its end. -/
def forward (t : Turtle) : Turtle :=
  let length := t.pose.branchLength
  (t.record (.branch t.parameters.branchWidth length t.parameters.branchColor)).move
    (Transform.advance length)

/-- Turns by an angle. -/
def right (t : Turtle) (angle : Float) : Turtle :=
  (t.move (Transform.rotate angle)).record (.rotate angle)

/-- Turns the other way. -/
def left (t : Turtle) (angle : Float) : Turtle := t.right (-angle)

/-- Remembers the pose. -/
def push (t : Turtle) : Turtle := { t with saved := t.pose :: t.saved }.record .push

/-- Goes back to the pose remembered last. Without one the position is noted and
no command recorded. -/
def pop (t : Turtle) : Turtle :=
  match t.saved with
  | pose :: saved => { t with pose, saved }.record .pop
  | [] => { t with unbalanced := t.unbalanced.push t.cursor }

/-- Draws a leaf. -/
def leaf (t : Turtle) : Turtle :=
  t.record (.leaf t.parameters.leafWidth t.parameters.leafLength t.parameters.leafColor
    t.parameters.leafAlpha)

/-- Follows one symbol. -/
def follow (t : Turtle) (symbol : Char) : Turtle :=
  match symbol with
  | 'F' => t.forward
  | '+' => t.right (radians t.parameters.branchAngle)
  | '-' => t.left (radians t.parameters.branchAngle)
  | '[' => t.push
  | ']' => t.leaf.pop
  | _ => t

/-- Follows a word whose first symbol has the given position. -/
def walkFrom (t : Turtle) : (position : Nat) → Word → Turtle
  | _, [] => t
  | position, symbol :: word =>
    walkFrom ({ t with cursor := position }.follow symbol) (position + 1) word

/-- Follows a word; positions count from its first symbol. -/
def walk (t : Turtle) (word : Word) : Turtle := t.walkFrom 0 word

end Turtle

/-- The commands of a word. A `]` without a pose to go back to is passed over. -/
def interpret (word : Word) (parameters : Parameters Float) (branchLength : Float) :
    List (Command Float) :=
  ((Turtle.start parameters branchLength).walk word).commands.toList

/-- The commands of a word; the first `]` without a pose to go back to is a
failure. -/
def interpretStrict (word : Word) (parameters : Parameters Float) (branchLength : Float) :
    Except Failure (List (Command Float)) :=
  let t := (Turtle.start parameters branchLength).walk word
  match t.unbalanced[0]? with
  | some position => .error (.unbalancedBracket position)
  | none => .ok t.commands.toList

end PlantGrammar
