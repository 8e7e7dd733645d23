import PlantGrammar.Proofs.Turtle.Calls

/-!
# How a turtle answers the symbols of a word

A turtle answers each symbol with a few commands (`Turtle.answer`), and a walk
records the answers one after the other. Neither its parameters nor its branch length
ever change (`Turtle.Steady`), so whatever the word, all commands of one kind carry
the same numbers (`Command.DrawnWith`).
-/

namespace PlantGrammar

namespace Turtle

/-- What a turtle records when it follows a symbol. A `]` that finds nothing
remembered is answered by a leaf alone. -/
def answer (t : Turtle) (symbol : Char) : List (Command Float) :=
  match symbol with
  | 'F' => [.branch t.parameters.branchWidth t.pose.branchLength t.parameters.branchColor]
  | '+' => [.rotate (radians t.parameters.branchAngle)]
  | '-' => [.rotate (-radians t.parameters.branchAngle)]
  | '[' => [.push]
  | ']' =>
    .leaf t.parameters.leafWidth t.parameters.leafLength t.parameters.leafColor
      t.parameters.leafAlpha :: if t.saved.isEmpty then [] else [.pop]
  | _ => []

theorem commands_follow (t : Turtle) (symbol : Char) :
    (t.follow symbol).commands.toList = t.commands.toList ++ t.answer symbol := by
  unfold follow answer
  split
  · simp [forward]
  · simp [right]
  · simp [left, right]
  · simp [push]
  · cases hsaved : t.saved with
    | nil => simp [pop, leaf, hsaved]
    | cons pose rest => simp [pop, leaf, hsaved]
  · simp

/-! ## What never changes -/

/-- A turtle draws with some parameters, and with one branch length at its pose and
at every pose that it may go back to. -/
structure Steady (p : Parameters Float) (length : Float) (t : Turtle) : Prop where
  parameters : t.parameters = p
  pose : t.pose.branchLength = length
  saved : ∀ pose ∈ t.saved, pose.branchLength = length

variable {p : Parameters Float} {length : Float} {t : Turtle}

theorem Steady.kept (p : Parameters Float) (length : Float) : Kept (Steady p length) where
  forward t h := ⟨h.parameters, h.pose, h.saved⟩
  right t angle h := ⟨h.parameters, h.pose, h.saved⟩
  push t h := ⟨h.parameters, h.pose, List.forall_mem_cons.mpr ⟨h.pose, h.saved⟩⟩
  pop t h := by
    cases hsaved : t.saved with
    | nil =>
      rw [pop_of_nil hsaved]
      exact ⟨h.parameters, h.pose, h.saved⟩
    | cons pose rest =>
      obtain ⟨hpose, hrest⟩ := List.forall_mem_cons.mp (hsaved ▸ h.saved)
      rw [pop_of_cons hsaved]
      exact ⟨h.parameters, hpose, hrest⟩
  leaf t h := ⟨h.parameters, h.pose, h.saved⟩
  cursor t position h := ⟨h.parameters, h.pose, h.saved⟩

theorem steady_start (parameters : Parameters Float) (branchLength : Float) :
    Steady parameters.clamped (start parameters branchLength).pose.branchLength
      (start parameters branchLength) :=
  ⟨rfl, rfl, nofun⟩

/-- Whatever it is asked to do, a turtle keeps the clamped parameters and the length
it starts with. -/
theorem steady_run (parameters : Parameters Float) (branchLength : Float)
    (calls : List Call) :
    Steady parameters.clamped (start parameters branchLength).pose.branchLength
      ((start parameters branchLength).run calls) :=
  (Steady.kept _ _).run _ (steady_start parameters branchLength)

end Turtle

/-! ## What is recorded -/

/-- A command as a turtle with some parameters and a branch length gives it. -/
def Command.DrawnWith (p : Parameters Float) (length : Float) : Command Float → Prop
  | .branch width drawn color =>
    width = p.branchWidth ∧ drawn = length ∧ color = p.branchColor
  | .rotate angle =>
    angle = Turtle.radians p.branchAngle ∨ angle = -Turtle.radians p.branchAngle
  | .leaf width drawn color alpha =>
    width = p.leafWidth ∧ drawn = p.leafLength ∧ color = p.leafColor ∧ alpha = p.leafAlpha
  | .push => True
  | .pop => True

namespace Turtle

variable {p : Parameters Float} {length : Float} {t : Turtle}

theorem Steady.answer_drawnWith (h : Steady p length t) (symbol : Char) :
    ∀ command ∈ t.answer symbol, command.DrawnWith p length := by
  unfold answer
  rw [h.parameters, h.pose]
  split
  · exact List.forall_mem_singleton.mpr ⟨rfl, rfl, rfl⟩
  · exact List.forall_mem_singleton.mpr (.inl rfl)
  · exact List.forall_mem_singleton.mpr (.inr rfl)
  · exact List.forall_mem_singleton.mpr trivial
  · refine List.forall_mem_cons.mpr ⟨⟨rfl, rfl, rfl, rfl⟩, ?_⟩
    split
    · exact nofun
    · exact List.forall_mem_singleton.mpr trivial
  · exact nofun

/-- A walk records nothing but such commands. -/
theorem Steady.walkFrom_drawnWith {word : Word} :
    ∀ {t : Turtle} {position : Nat}, Steady p length t →
      (∀ command ∈ t.commands.toList, command.DrawnWith p length) →
      ∀ command ∈ (t.walkFrom position word).commands.toList, command.DrawnWith p length := by
  induction word with
  | nil => exact fun _ hcommands => hcommands
  | cons symbol word ih =>
    intro t position h hcommands
    have hhere := (Steady.kept p length).cursor t position h
    refine ih ((Steady.kept p length).follow _ hhere symbol) ?_
    rw [commands_follow]
    exact List.forall_mem_append.mpr ⟨hcommands, hhere.answer_drawnWith symbol⟩

end Turtle

/-- All commands of a word are drawn with the clamped parameters and with the branch
length that the turtle starts with. -/
theorem drawnWith_of_mem_interpret {word : Word} {parameters : Parameters Float}
    {branchLength : Float} {command : Command Float}
    (h : command ∈ interpret word parameters branchLength) :
    command.DrawnWith parameters.clamped
      (Turtle.start parameters branchLength).pose.branchLength :=
  (Turtle.steady_start parameters branchLength).walkFrom_drawnWith nofun command h

end PlantGrammar
