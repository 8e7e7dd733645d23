import PlantGrammar.Turtle.Basic

/-!
# What a turtle can be asked to do

A turtle is steered by calls: single steps, and walks over a whole word. This
module says what each step leaves in the fields of a turtle and proves the
induction that every law of its history rests on: a property that the single
steps keep holds after any calls in any order (`Turtle.Kept.run`).
-/

namespace PlantGrammar.Turtle

/-! ## The fields after a step -/

@[simp] theorem record_parameters (t : Turtle) (c : Command Float) :
    (t.record c).parameters = t.parameters := rfl

@[simp] theorem record_pose (t : Turtle) (c : Command Float) :
    (t.record c).pose = t.pose := rfl

@[simp] theorem record_saved (t : Turtle) (c : Command Float) :
    (t.record c).saved = t.saved := rfl

@[simp] theorem record_commands (t : Turtle) (c : Command Float) :
    (t.record c).commands.toList = t.commands.toList ++ [c] := Array.toList_push

@[simp] theorem record_unbalanced (t : Turtle) (c : Command Float) :
    (t.record c).unbalanced = t.unbalanced := rfl

@[simp] theorem record_cursor (t : Turtle) (c : Command Float) :
    (t.record c).cursor = t.cursor := rfl

@[simp] theorem move_pose (t : Turtle) (m : Transform Float) :
    (t.move m).pose = ⟨t.pose.transform * m, t.pose.branchLength⟩ := rfl

@[simp] theorem move_parameters (t : Turtle) (m : Transform Float) :
    (t.move m).parameters = t.parameters := rfl

@[simp] theorem move_saved (t : Turtle) (m : Transform Float) :
    (t.move m).saved = t.saved := rfl

@[simp] theorem move_commands (t : Turtle) (m : Transform Float) :
    (t.move m).commands = t.commands := rfl

@[simp] theorem move_unbalanced (t : Turtle) (m : Transform Float) :
    (t.move m).unbalanced = t.unbalanced := rfl

@[simp] theorem move_cursor (t : Turtle) (m : Transform Float) :
    (t.move m).cursor = t.cursor := rfl

/-- With nothing remembered only the position is noted. -/
theorem pop_of_nil {t : Turtle} (h : t.saved = []) :
    t.pop = { t with unbalanced := t.unbalanced.push t.cursor } := by
  simp only [pop, h]

/-- The pose remembered last comes back. -/
theorem pop_of_cons {t : Turtle} {pose : Pose} {rest : List Pose}
    (h : t.saved = pose :: rest) :
    t.pop = { t with pose, saved := rest }.record .pop := by
  simp only [pop, h]

/-! ## Calls -/

/-- One call of a turtle. -/
inductive Call where
  | forward
  | right (angle : Float)
  | left (angle : Float)
  | push
  | pop
  | leaf
  | walk (word : Word)

/-- Carries out a call. -/
def call (t : Turtle) : Call → Turtle
  | .forward => t.forward
  | .right angle => t.right angle
  | .left angle => t.left angle
  | .push => t.push
  | .pop => t.pop
  | .leaf => t.leaf
  | .walk word => t.walk word

/-- Carries out calls in order. -/
def run (t : Turtle) (calls : List Call) : Turtle := calls.foldl call t

/-- A property of turtles that the single steps keep. To be at another symbol of a
word counts as a step, for a walk moves the cursor before it follows a symbol. -/
structure Kept (P : Turtle → Prop) : Prop where
  forward : ∀ t, P t → P t.forward
  right : ∀ t angle, P t → P (t.right angle)
  push : ∀ t, P t → P t.push
  pop : ∀ t, P t → P t.pop
  leaf : ∀ t, P t → P t.leaf
  cursor : ∀ t position, P t → P { t with cursor := position }

namespace Kept

variable {P : Turtle → Prop}

theorem follow (h : Kept P) (t : Turtle) (ht : P t) (symbol : Char) :
    P (t.follow symbol) := by
  unfold Turtle.follow
  split
  · exact h.forward t ht
  · exact h.right t _ ht
  · exact h.right t _ ht
  · exact h.push t ht
  · exact h.pop _ (h.leaf t ht)
  · exact ht

theorem walkFrom (h : Kept P) {word : Word} :
    ∀ (t : Turtle) (position : Nat), P t → P (t.walkFrom position word) := by
  induction word with
  | nil => exact fun _ _ ht => ht
  | cons symbol word ih =>
    intro t position ht
    exact ih _ _ (h.follow _ (h.cursor t position ht) symbol)

theorem call (h : Kept P) (t : Turtle) (ht : P t) (c : Call) : P (t.call c) := by
  cases c with
  | forward => exact h.forward t ht
  | right angle => exact h.right t angle ht
  | left angle => exact h.right t (-angle) ht
  | push => exact h.push t ht
  | pop => exact h.pop t ht
  | leaf => exact h.leaf t ht
  | walk word => exact h.walkFrom t 0 ht

/-- What every step keeps, any calls keep. -/
theorem run (h : Kept P) {calls : List Call} : ∀ t : Turtle, P t → P (t.run calls) := by
  induction calls with
  | nil => exact fun _ ht => ht
  | cons c calls ih => exact fun t ht => ih (t.call c) (h.call t ht c)

end Kept

end PlantGrammar.Turtle
