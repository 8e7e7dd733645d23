import PlantGrammar.Drawing.Svg
import PlantGrammar.Grammar.Catalog
import PlantGrammar.Storage.Folder
import PlantGrammar.Turtle.Basic

/-!
# Plants

A plant is a grammar with parameters and limits. Growing it gives a word, walking
the word gives drawing commands, painting these gives shapes, and the shapes make
a picture.
-/

namespace PlantGrammar

/-- A grammar with all that is needed to draw it. -/
structure Plant where
  rules : RuleSet
  parameters : Parameters Float
  limits : Limits

namespace Plant

/-- A plant within the standard limits, if its parameters are in their domains. -/
def ofRules (rules : RuleSet) (parameters : Parameters Float) : Except Failure Plant := do
  parameters.check
  return ⟨rules, parameters, .standard⟩

/-- A plant of the catalogue. -/
def ofPreset (index : Nat) (parameters : Parameters Float) : Except Failure Plant := do
  let preset ← Preset.ofIndex index
  ofRules preset.rules parameters

/-- The plant within other limits. -/
def withLimits (p : Plant) (limits : Limits) : Plant := { p with limits }

/-- The word after as many generations as the parameters ask for, with the branch
length that is left. -/
def grow (p : Plant) : Except Failure Growth :=
  p.rules.grow p.parameters.iterations p.parameters.branchLength p.parameters.branchFalloff
    p.limits

/-- The commands that draw the plant. -/
def commands (p : Plant) : Except Failure (List (Command Float)) := do
  let growth ← p.grow
  return interpret growth.word p.parameters growth.branchLength

/-- The commands that draw the plant; a `]` that closes nothing is a failure. -/
def commandsStrict (p : Plant) : Except Failure (List (Command Float)) := do
  let growth ← p.grow
  interpretStrict growth.word p.parameters growth.branchLength

/-- The shapes of the plant on a surface. -/
def shapes (p : Plant) (surface : Surface Float) : Except Failure (List (Shape Float)) := do
  return paint (← p.commands) surface

/-- The picture of the plant on a surface. -/
def picture (p : Plant) (surface : Surface Float) : Except Failure String := do
  return String.ofList (Svg.document (← p.shapes surface) surface)

/-- Writes the picture of the plant into a file. -/
def savePicture (p : Plant) (surface : Surface Float) (place : Storage.Place) (name : String) :
    Except Failure Storage.Place := do
  let text ← p.picture surface
  (place.write name text.toUTF8).mapError .storage

end Plant

end PlantGrammar
