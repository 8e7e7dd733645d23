import PlantGrammar.Proofs.Matching
import PlantGrammar.Proofs.Turtle.Nesting

/-!
# Walking in pieces

A walk counts positions from its own first symbol, and this is all that it keeps to
itself: a turtle writes positions down and never reads one. Turtles that differ in
nothing else (`Turtle.Alike`) stay alike over the same symbols. So it makes no
difference whether a word is walked whole or cut in two, also inside a group, but for
the positions noted behind the cut.
-/

namespace PlantGrammar.Turtle

/-- Two turtles that differ at most in the positions they have noted and in the one
they are at. -/
structure Alike (t u : Turtle) : Prop where
  parameters : t.parameters = u.parameters
  pose : t.pose = u.pose
  saved : t.saved = u.saved
  commands : t.commands = u.commands

namespace Alike

variable {t u v : Turtle}

@[refl] theorem refl (t : Turtle) : Alike t t := ⟨rfl, rfl, rfl, rfl⟩

theorem symm (h : Alike t u) : Alike u t :=
  ⟨h.parameters.symm, h.pose.symm, h.saved.symm, h.commands.symm⟩

theorem trans (h : Alike t u) (h' : Alike u v) : Alike t v :=
  ⟨h.parameters.trans h'.parameters, h.pose.trans h'.pose, h.saved.trans h'.saved,
    h.commands.trans h'.commands⟩

theorem record (h : Alike t u) (command : Command Float) :
    Alike (t.record command) (u.record command) :=
  ⟨h.parameters, h.pose, h.saved, congrArg (·.push command) h.commands⟩

theorem move (h : Alike t u) (step : Transform Float) : Alike (t.move step) (u.move step) where
  parameters := h.parameters
  pose := by rw [move_pose, move_pose, h.pose]
  saved := h.saved
  commands := h.commands

theorem forward (h : Alike t u) : Alike t.forward u.forward := by
  rw [Turtle.forward, Turtle.forward, h.parameters, h.pose]
  exact (h.record _).move _

theorem right (h : Alike t u) (angle : Float) : Alike (t.right angle) (u.right angle) :=
  (h.move _).record _

theorem push (h : Alike t u) : Alike t.push u.push := by
  have hsaved : Alike { t with saved := t.pose :: t.saved } { u with saved := u.pose :: u.saved } :=
    ⟨h.parameters, h.pose, by rw [h.pose, h.saved], h.commands⟩
  exact hsaved.record _

theorem leaf (h : Alike t u) : Alike t.leaf u.leaf := by
  rw [Turtle.leaf, Turtle.leaf, h.parameters]
  exact h.record _

/-- The position that a turtle notes where it cannot go back is all that it does with one. -/
theorem pop (h : Alike t u) : Alike t.pop u.pop := by
  cases hsaved : t.saved with
  | nil =>
    rw [pop_of_nil hsaved, pop_of_nil (h.saved ▸ hsaved)]
    exact ⟨h.parameters, h.pose, h.saved, h.commands⟩
  | cons pose rest =>
    have hback : Alike { t with pose, saved := rest } { u with pose, saved := rest } :=
      ⟨h.parameters, rfl, rfl, h.commands⟩
    rw [pop_of_cons hsaved, pop_of_cons (h.saved ▸ hsaved)]
    exact hback.record _

/-- Alike turtles follow a symbol alike, wherever it stands. -/
theorem follow (h : Alike t u) (symbol : Char) : Alike (t.follow symbol) (u.follow symbol) := by
  unfold Turtle.follow
  split
  · exact h.forward
  · rw [h.parameters]
    exact h.right _
  · rw [h.parameters]
    exact h.right _
  · exact h.push
  · exact h.leaf.pop
  · exact h

/-- To be at another symbol makes no difference. -/
theorem cursor (h : Alike t u) (position other : Nat) :
    Alike { t with cursor := position } { u with cursor := other } :=
  ⟨h.parameters, h.pose, h.saved, h.commands⟩

/-- Alike turtles walk a word alike, from wherever they count. -/
theorem walkFrom {word : Word} :
    ∀ {t u : Turtle} {position other : Nat}, Alike t u →
      Alike (t.walkFrom position word) (u.walkFrom other word) := by
  induction word with
  | nil => exact fun h => h
  | cons symbol word ih => exact fun h => ih ((h.cursor _ _).follow symbol)

end Alike

/-- A walk goes on behind its first part as if it had started there, with the positions
going on too. -/
theorem walkFrom_append {first second : Word} :
    ∀ (t : Turtle) (position : Nat), t.walkFrom position (first ++ second) =
      (t.walkFrom position first).walkFrom (position + first.length) second := by
  induction first with
  | nil => exact fun _ _ => rfl
  | cons symbol first ih =>
    intro t position
    rw [List.cons_append, walkFrom, ih, walkFrom, List.length_cons, Nat.add_right_comm,
      Nat.add_assoc]

/-- **Walking in pieces**: a word that is walked in two pieces gives the commands, the
pose and the poses remembered that it gives as a whole, and the same brackets are noted;
only the positions noted in the second piece count from its own first symbol. -/
theorem walk_append (t : Turtle) (first second : Word) :
    let pieces := (t.walk first).walk second
    let whole := t.walk (first ++ second)
    pieces.commands = whole.commands ∧ pieces.pose = whole.pose ∧ pieces.saved = whole.saved ∧
      ∃ noted : List Nat,
        pieces.unbalanced.toList = (t.walk first).unbalanced.toList ++ noted ∧
          whole.unbalanced.toList =
            (t.walk first).unbalanced.toList ++ noted.map (· + first.length) := by
  intro pieces whole
  have hwhole : whole = (t.walk first).walkFrom (0 + first.length) second :=
    walkFrom_append t 0
  have halike : Alike pieces whole := hwhole ▸ (Alike.refl _).walkFrom
  refine ⟨halike.commands, halike.pose, halike.saved,
    Bracket.strays (t.walk first).depth 0 (marks second), unbalanced_walkFrom _ 0, ?_⟩
  rw [hwhole, unbalanced_walkFrom, Bracket.strays_add]

end PlantGrammar.Turtle
