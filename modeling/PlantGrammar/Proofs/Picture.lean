import PlantGrammar.Plant
import PlantGrammar.Proofs.Drawing.OpenPath
import PlantGrammar.Proofs.Drawing.Tags
import PlantGrammar.Proofs.Outcome
import PlantGrammar.Proofs.Turtle.Answer

/-!
# The picture mirrors the word

On the way from a word to commands, to shapes and to a picture nothing that is seen
is dropped, doubled or moved: each `F` of the word becomes a branch and each `]` a
leaf. What is followed through the stages is how a shape looks (`Look`), which does
not depend on where it is painted.
-/

namespace PlantGrammar

/-- How a shape looks, wherever it is. -/
structure Look (α : Type) where
  kind : ShapeKind
  color : Color
  alpha : α

/-! ## Commands and shapes -/

section

variable {α : Type}

/-- How a shape looks. -/
def Shape.look (s : Shape α) : Look α := ⟨s.kind, s.color, s.alpha⟩

variable [Scalar α]

/-- What is seen of a command. -/
def Command.look? : Command α → Option (Look α)
  | .branch _ _ color => some ⟨.branch, color, Scalar.ofInt 1⟩
  | .leaf _ _ color alpha => some ⟨.leaf, color, alpha⟩
  | _ => none

theorem Command.map_look_shape? (m : Transform α) (command : Command α) :
    (command.shape? m).toList.map Shape.look = command.look?.toList := by
  cases command with
  | branch width length color => rfl
  | rotate radians => rfl
  | push => rfl
  | pop => rfl
  | leaf width length color alpha => rfl

/-- A replay paints what is seen of its commands, one after the other. -/
theorem Canvas.looks_replay (commands : List (Command α)) :
    ∀ c : Canvas α, (c.replay commands).shapes.toList.map Shape.look =
      c.shapes.toList.map Shape.look ++ commands.filterMap Command.look? := by
  rw [List.filterMap_eq_flatMap_toList]
  induction commands with
  | nil => exact fun c => (List.append_nil _).symm
  | cons command commands ih =>
    intro c
    rw [replay_cons, ih, shapes_draw, List.map_append, Command.map_look_shape?, List.append_assoc,
      List.flatMap_cons]

theorem looks_paint (commands : List (Command α)) (surface : Surface α) :
    (paint commands surface).map Shape.look = commands.filterMap Command.look? :=
  Canvas.looks_replay commands _

end

/-! ## Words and commands -/

/-- What is seen of a symbol: a branch of `F` and a leaf of `]`. -/
def Look.ofSymbol? (branchColor leafColor : Color) (leafAlpha : Float) (symbol : Char) :
    Option (Look Float) :=
  if symbol = 'F' then some ⟨.branch, branchColor, 1⟩
  else if symbol = ']' then some ⟨.leaf, leafColor, leafAlpha⟩
  else none

namespace Turtle

variable {p : Parameters Float} {length : Float}

/-- Of an answer the branch or the leaf is seen, whether or not there is a pose to go
back to. -/
theorem Steady.looks_answer {t : Turtle} (h : Steady p length t) (symbol : Char) :
    (t.answer symbol).filterMap Command.look? =
      (Look.ofSymbol? p.branchColor p.leafColor p.leafAlpha symbol).toList := by
  unfold answer Look.ofSymbol?
  rw [h.parameters]
  split
  · rfl
  · rfl
  · rfl
  · rfl
  · split <;> rfl
  · next hforward _ _ _ hclose => rw [if_neg hforward, if_neg hclose]; rfl

/-- A walk records what is seen of its symbols, one after the other. -/
theorem Steady.looks_walkFrom (word : Word) :
    ∀ {t : Turtle} {position : Nat}, Steady p length t →
      (t.walkFrom position word).commands.toList.filterMap Command.look? =
        t.commands.toList.filterMap Command.look? ++
          word.filterMap (Look.ofSymbol? p.branchColor p.leafColor p.leafAlpha) := by
  rw [List.filterMap_eq_flatMap_toList (Look.ofSymbol? _ _ _)]
  induction word with
  | nil => exact fun _ => (List.append_nil _).symm
  | cons symbol word ih =>
    intro t position h
    have hhere := (Steady.kept p length).cursor t position h
    have hnext := (Steady.kept p length).follow _ hhere symbol
    rw [walkFrom, ih hnext, commands_follow, List.filterMap_append, hhere.looks_answer,
      List.append_assoc, List.flatMap_cons]

end Turtle

theorem looks_interpret (word : Word) (parameters : Parameters Float) (branchLength : Float) :
    (interpret word parameters branchLength).filterMap Command.look? =
      word.filterMap (Look.ofSymbol? parameters.branchColor parameters.leafColor
        parameters.clamped.leafAlpha) :=
  (Turtle.steady_start parameters branchLength).looks_walkFrom word

/-! ## Plants -/

namespace Plant

/-- The shapes of a plant are painted from its growth. -/
theorem shapes_eq_map (p : Plant) (surface : Surface Float) :
    p.shapes surface = p.grow.map fun growth =>
      paint (interpret growth.word p.parameters growth.branchLength) surface := by
  rw [shapes, commands]
  cases p.grow with
  | error failure => rfl
  | ok growth => rfl

/-- **The picture mirrors the word**: a plant has shapes unless it fails to grow, and
then for the cause for which it does; its shapes are, in order, a branch for each `F`
of the grown word and a leaf for each `]`, in the colours of the parameters, with full
opacity and with the clamped one of leaves; and the elements of its picture are those
of these shapes. -/
theorem shapes_mirror_word (p : Plant) (surface : Surface Float) :
    (∀ failure, p.shapes surface = .error failure ↔ p.grow = .error failure) ∧
    ∀ growth, p.grow = .ok growth → ∃ shapes picture, p.shapes surface = .ok shapes ∧
      shapes.map Shape.look = growth.word.filterMap (Look.ofSymbol? p.parameters.branchColor
        p.parameters.leafColor p.parameters.clamped.leafAlpha) ∧
      p.picture surface = .ok picture ∧ Svg.paths picture.toList = shapes.map Svg.path := by
  have hshapes := p.shapes_eq_map surface
  refine ⟨fun failure => ?_, fun growth hgrow => ?_⟩
  · rw [hshapes, map_eq_error_iff]
  · let painted := paint (interpret growth.word p.parameters growth.branchLength) surface
    have hpainted : p.shapes surface = .ok painted := by
      rw [hshapes, hgrow]
      rfl
    refine ⟨painted, String.ofList (Svg.document painted surface), hpainted, ?_, ?_, ?_⟩
    · rw [looks_paint, looks_interpret]
    · rw [picture, hpainted]
      rfl
    · rw [String.toList_ofList]
      exact Svg.paths_document painted surface

end Plant

end PlantGrammar
