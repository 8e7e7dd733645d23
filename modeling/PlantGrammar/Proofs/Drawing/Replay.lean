import PlantGrammar.Drawing.Canvas
import PlantGrammar.Proofs.Brackets

/-!
# Replaying commands

`push` and `pop` are the brackets of a drawing. How many transforms a canvas
remembers depends on them alone, not on what is painted between them.
-/

namespace PlantGrammar

variable {α : Type}

/-- What a command does to the transforms that a canvas remembers. -/
def Bracket.ofCommand : Command α → Bracket
  | .push => .opening
  | .pop => .closing
  | _ => .plain

/-- How many pushes of some commands are still open behind them. -/
def openPushes (commands : List (Command α)) : Nat :=
  Bracket.depth 0 (commands.map Bracket.ofCommand)

theorem openPushes_concat (commands : List (Command α)) (command : Command α) :
    openPushes (commands ++ [command]) =
      Bracket.step (openPushes commands) (Bracket.ofCommand command) := by
  rw [openPushes, List.map_append, Bracket.depth_append]
  rfl

namespace Canvas

variable [Scalar α]

/-- An empty canvas with a transform to start from. -/
def blank (m : Transform α) : Canvas α := ⟨m, [], #[]⟩

@[simp] theorem replay_nil (c : Canvas α) : c.replay [] = c := rfl

@[simp] theorem replay_cons (c : Canvas α) (command : Command α)
    (commands : List (Command α)) :
    c.replay (command :: commands) = (c.draw command).replay commands := rfl

@[simp] theorem replay_append (c : Canvas α) (first second : List (Command α)) :
    c.replay (first ++ second) = (c.replay first).replay second := List.foldl_append

theorem length_saved_draw (c : Canvas α) (command : Command α) :
    (c.draw command).saved.length =
      Bracket.step c.saved.length (Bracket.ofCommand command) := by
  cases command with
  | branch width length color => rfl
  | rotate radians => rfl
  | push => rfl
  | pop =>
    cases hsaved : c.saved with
    | nil => simp [draw, hsaved, Bracket.ofCommand, Bracket.step]
    | cons transform rest => simp [draw, hsaved, Bracket.ofCommand, Bracket.step]
  | leaf width length color alpha => rfl

/-- A canvas remembers as many transforms as there are pushes open. -/
theorem length_saved_replay (c : Canvas α) (commands : List (Command α)) :
    (c.replay commands).saved.length =
      Bracket.depth c.saved.length (commands.map Bracket.ofCommand) := by
  induction commands generalizing c with
  | nil => rfl
  | cons command commands ih =>
    rw [replay_cons, ih, length_saved_draw, List.map_cons, Bracket.depth_cons]

/-- Where no more is popped than pushed, every `pop` finds something remembered. -/
theorem saved_ne_nil_of_closesWithin {commands before after : List (Command α)}
    {c : Canvas α}
    (h : Bracket.ClosesWithin c.saved.length (commands.map Bracket.ofCommand))
    (hsplit : commands = before ++ .pop :: after) :
    (c.replay before).saved ≠ [] := by
  rw [hsplit, List.map_append, Bracket.closesWithin_append,
    ← length_saved_replay] at h
  have hpos := (Bracket.closesWithin_cons.mp h.2).1 rfl
  exact List.ne_nil_of_length_pos hpos

end Canvas

end PlantGrammar
