import PlantGrammar.Proofs.Drawing.Replay
import PlantGrammar.Proofs.Turtle.Calls

/-!
# Turtle and canvas in lock step

A turtle keeps a pose and a stack of poses while it records commands; a canvas
rebuilds both from the commands alone. After any calls the canvas stands where
the turtle stands and remembers what the turtle remembers, and no command ever
sends it back to nothing.
-/

namespace PlantGrammar

/-- A canvas that replays what a turtle has recorded agrees with the turtle, and
the record pops no more than it pushed. -/
structure Turtle.InStep (m : Transform Float) (t : Turtle) : Prop where
  transform :
    ((Canvas.blank m).replay t.commands.toList).transform = t.pose.transform
  saved :
    ((Canvas.blank m).replay t.commands.toList).saved = t.saved.map (·.transform)
  pops : Bracket.ClosesWithin 0 (t.commands.toList.map Bracket.ofCommand)

namespace Turtle.InStep

variable {m : Transform Float} {t : Turtle}

theorem start (parameters : Parameters Float) (branchLength : Float) :
    InStep (start parameters branchLength).pose.transform
      (start parameters branchLength) where
  transform := rfl
  saved := rfl
  pops := Bracket.closesWithin_nil 0

/-- The pushes open in the record are the poses the turtle remembers. -/
theorem openPushes_eq (h : InStep m t) : openPushes t.commands.toList = t.depth := by
  have hlength := (Canvas.blank m).length_saved_replay t.commands.toList
  rw [h.saved, List.length_map] at hlength
  exact hlength.symm

/-- A command may be recorded if it pops no more than the turtle remembers. -/
theorem pops_concat (h : InStep m t) (command : Command Float)
    (hpop : Bracket.ofCommand command = .closing → 0 < t.depth) :
    Bracket.ClosesWithin 0
      ((t.commands.toList ++ [command]).map Bracket.ofCommand) := by
  rw [List.map_append, Bracket.closesWithin_append, ← openPushes, h.openPushes_eq]
  refine ⟨h.pops, ?_⟩
  exact Bracket.closesWithin_cons.mpr ⟨hpop, Bracket.closesWithin_nil _⟩

theorem forward (h : InStep m t) : InStep m t.forward where
  transform := by simp [Turtle.forward, Canvas.draw, h.transform]
  saved := by simp [Turtle.forward, Canvas.draw, h.saved]
  pops := by
    simpa [Turtle.forward] using h.pops_concat (.branch _ _ _) (by simp [Bracket.ofCommand])

theorem right (h : InStep m t) (angle : Float) : InStep m (t.right angle) where
  transform := by simp [Turtle.right, Canvas.draw, h.transform]
  saved := by simp [Turtle.right, Canvas.draw, h.saved]
  pops := by simpa [Turtle.right] using h.pops_concat (.rotate _) (by simp [Bracket.ofCommand])

theorem push (h : InStep m t) : InStep m t.push where
  transform := by simp [Turtle.push, Canvas.draw, h.transform]
  saved := by simp [Turtle.push, Canvas.draw, h.transform, h.saved]
  pops := by simpa [Turtle.push] using h.pops_concat .push (by simp [Bracket.ofCommand])

theorem leaf (h : InStep m t) : InStep m t.leaf where
  transform := by simp [Turtle.leaf, Canvas.draw, h.transform]
  saved := by simp [Turtle.leaf, Canvas.draw, h.saved]
  pops := by simpa [Turtle.leaf] using h.pops_concat (.leaf _ _ _ _) (by simp [Bracket.ofCommand])

/-- A pop with nothing remembered records nothing, so the canvas stays in step. -/
theorem pop (h : InStep m t) : InStep m t.pop := by
  cases hsaved : t.saved with
  | nil =>
    rw [pop_of_nil hsaved]
    exact ⟨h.transform, h.saved, h.pops⟩
  | cons pose rest =>
    rw [pop_of_cons hsaved]
    have hcanvas := h.saved
    rw [hsaved, List.map_cons] at hcanvas
    refine ⟨by simp [Canvas.draw, hcanvas], by simp [Canvas.draw, hcanvas], ?_⟩
    rw [record_commands]
    exact h.pops_concat .pop fun _ => by simp [depth, hsaved]

/-- Every step of a turtle keeps the canvas in step. -/
theorem kept (m : Transform Float) : Kept (InStep m) where
  forward _ h := h.forward
  right _ angle h := h.right angle
  push _ h := h.push
  pop _ h := h.pop
  leaf _ h := h.leaf
  cursor _ _ h := ⟨h.transform, h.saved, h.pops⟩

end Turtle.InStep

/-- **Turtle and canvas stay in lock step**: after any calls a canvas that started
where the turtle did, and has replayed what it recorded, has the transform of the
turtle and remembers the transforms the turtle remembers, in order. On any surface
the canvas remembers as many transforms as the turtle, and every `pop` of the
record finds one. -/
theorem Turtle.replay_commands_run (parameters : Parameters Float)
    (branchLength : Float) (calls : List Turtle.Call) :
    let first := Turtle.start parameters branchLength
    let t := first.run calls
    let c := (Canvas.blank first.pose.transform).replay t.commands.toList
    first.pose.transform = Transform.unit ∧
      c.transform = t.pose.transform ∧ c.saved = t.saved.map (·.transform) ∧
      ∀ surface : Surface Float,
        ((Canvas.start surface).replay t.commands.toList).saved.length = t.depth ∧
          ∀ before after, t.commands.toList = before ++ .pop :: after →
            ((Canvas.start surface).replay before).saved ≠ [] := by
  intro first t c
  have h : InStep first.pose.transform t :=
    (InStep.kept _).run first (InStep.start parameters branchLength)
  refine ⟨rfl, h.transform, h.saved, fun surface => ⟨?_, ?_⟩⟩
  · rw [Canvas.length_saved_replay]
    exact h.openPushes_eq
  · intro before after hsplit
    exact Canvas.saved_ne_nil_of_closesWithin h.pops hsplit

end PlantGrammar
