import Mathlib
import PlantGrammar.Proofs.Drawing.Lockstep

/-!
# The stack discipline of a turtle

Three fields of a turtle tell of its stack, and each is updated on its own: the poses
remembered, the commands and the positions of brackets that close nothing. They agree
at any time. The commands pop no more than they have pushed, what they pushed and did
not pop is remembered, and each attempt to go back is on record once, as a command or
as a position.
-/

namespace PlantGrammar

/-! ## Counting pushes and pops -/

section

variable {α : Type}

/-- How many of the commands remember a pose. -/
def pushCount (commands : List (Command α)) : Nat := commands.countP (· matches .push)

/-- How many of the commands go back to a pose. -/
def popCount (commands : List (Command α)) : Nat := commands.countP (· matches .pop)

theorem pushCount_eq (commands : List (Command α)) :
    pushCount commands = (commands.map Bracket.ofCommand).count .opening := by
  rw [pushCount, List.count_eq_countP, List.countP_map]
  refine List.countP_congr fun command _ => ?_
  cases command <;> simp [Bracket.ofCommand]

theorem popCount_eq (commands : List (Command α)) :
    popCount commands = (commands.map Bracket.ofCommand).count .closing := by
  rw [popCount, List.count_eq_countP, List.countP_map]
  refine List.countP_congr fun command _ => ?_
  cases command <;> simp [Bracket.ofCommand]

@[simp] theorem popCount_append (first second : List (Command α)) :
    popCount (first ++ second) = popCount first + popCount second := List.countP_append

end

namespace Turtle

/-! ## Attempts to go back -/

/-- How often a call tries to go back to a pose. -/
def Call.attempts : Call → Nat
  | .pop => 1
  | .walk word => word.count ']'
  | _ => 0

/-- The attempts to go back that are on record: those that found a pose as commands,
the others by their positions. -/
def recorded (t : Turtle) : Nat := t.unbalanced.size + popCount t.commands.toList

theorem recorded_record (t : Turtle) {command : Command Float}
    (h : Bracket.ofCommand command ≠ .closing) : (t.record command).recorded = t.recorded := by
  have hnone : popCount [command] = 0 := by simp [popCount_eq, h]
  rw [recorded, record_unbalanced, record_commands, popCount_append, hnone, Nat.add_zero, recorded]

theorem recorded_forward (t : Turtle) : t.forward.recorded = t.recorded :=
  recorded_record t nofun

theorem recorded_right (t : Turtle) (angle : Float) : (t.right angle).recorded = t.recorded :=
  recorded_record (t.move _) nofun

theorem recorded_push (t : Turtle) : t.push.recorded = t.recorded := by
  have hnone : Bracket.ofCommand (α := Float) .push ≠ .closing := nofun
  exact recorded_record { t with saved := t.pose :: t.saved } hnone

theorem recorded_leaf (t : Turtle) : t.leaf.recorded = t.recorded := recorded_record t nofun

/-- An attempt is recorded whether or not there is a pose to go back to. -/
theorem recorded_pop (t : Turtle) : t.pop.recorded = t.recorded + 1 := by
  cases hsaved : t.saved with
  | nil =>
    rw [pop_of_nil hsaved, recorded, recorded, Array.size_push, Nat.add_right_comm]
  | cons pose rest =>
    rw [pop_of_cons hsaved, recorded, record_unbalanced, record_commands, popCount_append]
    rfl

theorem recorded_follow (t : Turtle) (symbol : Char) :
    (t.follow symbol).recorded = t.recorded + if symbol == ']' then 1 else 0 := by
  unfold follow
  split
  · exact t.recorded_forward
  · exact t.recorded_right _
  · exact t.recorded_right _
  · exact t.recorded_push
  · rw [recorded_pop, recorded_leaf]
    rfl
  · next hclose => rw [if_neg (by simpa using hclose), Nat.add_zero]

/-- A walk attempts to go back once for each `]` of its word. -/
theorem recorded_walkFrom (word : Word) :
    ∀ (t : Turtle) (position : Nat),
      (t.walkFrom position word).recorded = t.recorded + word.count ']' := by
  induction word with
  | nil => exact fun _ _ => rfl
  | cons symbol word ih =>
    intro t position
    rw [walkFrom, ih, recorded_follow, List.count_cons, Nat.add_assoc,
      Nat.add_comm (List.count _ _)]
    rfl

theorem recorded_call (t : Turtle) (c : Call) : (t.call c).recorded = t.recorded + c.attempts := by
  cases c with
  | forward => exact t.recorded_forward
  | right angle => exact t.recorded_right angle
  | left angle => exact t.recorded_right (-angle)
  | push => exact t.recorded_push
  | pop => exact t.recorded_pop
  | leaf => exact t.recorded_leaf
  | walk word => exact recorded_walkFrom word t 0

theorem recorded_run (calls : List Call) :
    ∀ t : Turtle, (t.run calls).recorded = t.recorded + (calls.map Call.attempts).sum := by
  induction calls with
  | nil => exact fun _ => rfl
  | cons c calls ih =>
    intro t
    have hrun : t.run (c :: calls) = (t.call c).run calls := rfl
    rw [hrun, ih, recorded_call, List.map_cons, List.sum_cons, Nat.add_assoc]

/-! ## All three fields -/

/-- **The stack discipline**: after any calls no part of the record from its front on
pops more than it pushes, the turtle remembers as many poses as its record pushes and
does not pop, and the attempts to go back are the pops of the record and the brackets
noted as unbalanced. -/
theorem run_stack_discipline (parameters : Parameters Float) (branchLength : Float)
    (calls : List Call) :
    let t := (start parameters branchLength).run calls
    (∀ part, part <+: t.commands.toList → popCount part ≤ pushCount part) ∧
      t.depth + popCount t.commands.toList = pushCount t.commands.toList ∧
      t.unbalanced.size + popCount t.commands.toList = (calls.map Call.attempts).sum := by
  intro t
  -- stack and commands keep in step, whatever the transform they start from
  have h : InStep Transform.unit t :=
    (InStep.kept _).run _ (InStep.start parameters branchLength)
  refine ⟨fun part hpart => ?_, ?_, ?_⟩
  · have hcount := h.pops _ (hpart.map Bracket.ofCommand)
    rwa [← popCount_eq, ← pushCount_eq, Nat.zero_add] at hcount
  · have hcount := h.pops.depth_add_count
    rwa [← openPushes, h.openPushes_eq, ← popCount_eq, ← pushCount_eq, Nat.zero_add] at hcount
  · have hfresh : (start parameters branchLength).recorded = 0 := rfl
    have hrun := recorded_run calls (start parameters branchLength)
    rwa [hfresh, Nat.zero_add] at hrun

end Turtle

end PlantGrammar
