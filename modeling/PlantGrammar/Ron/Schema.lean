import PlantGrammar.Grammar.Catalog
import PlantGrammar.Parameters
import PlantGrammar.Ron.Codec
import PlantGrammar.Turtle.Command

/-!
# How the data of a plant is written

The codecs of parameters, rule sets, limits, presets and drawing commands. A text
of parameters may leave fields out, which then keep their standard values; all
other records need every field. Floats are kept as encodings: `Parameters.map` and
`Command.map` lead from and to the numbers that a plant is drawn with.
-/

namespace PlantGrammar.Ron

open Reader Numeric

namespace Codec

/-- Natural numbers below `2 ^ 32`. -/
def uint32 : Codec UInt32 where
  write _ n := writeNatural n.toNat
  read _ _ := do return UInt32.ofNat (← natural (.unsigned 32))

/-- Natural numbers below `2 ^ 64`. -/
def uint64 : Codec UInt64 where
  write _ n := writeNatural n.toNat
  read _ _ := do return UInt64.ofNat (← natural (.unsigned 64))

/-- Numbers of double precision. -/
def float : Codec (Encoding .binary64) where
  write _ x := writeFloat x
  read _ _ := Reader.float

/-- Single characters. -/
def char : Codec Char where
  write _ c := writeChar c
  read _ _ := Reader.char

/-- Words, as strings. -/
def word : Codec Word where
  write _ w := writeString w
  read _ _ := Reader.string

/-- Texts, as strings. -/
def text : Codec String where
  write _ s := writeString s.toList
  read _ _ := do return String.ofList (← Reader.string)

/-- Colours, as strings in hexadecimal notation; any notation of CSS is read. -/
def color : Codec Color where
  write _ c := writeString c.chars
  read _ _ := do
    match Color.parse (← Reader.string) with
    | .ok c => return c
    | .error fault => throw (.refusedText fault.message)

/-! ## Grammars -/

/-- The fields of a rule. -/
def ruleRecord : Record Rule where
  name := "Rule"
  fields := [
    Field.of "predecessor" (·.predecessor) (fun c r => { r with predecessor := c }) char,
    Field.of "successor" (·.successor) (fun w r => { r with successor := w }) word]
  required := true
  initial := default

/-- Rules. -/
def rule : Codec Rule := ruleRecord.codec

/-- The fields of a rule set. -/
def ruleSetRecord : Record RuleSet where
  name := "RuleSet"
  fields := [
    Field.of "axiom" (·.start) (fun w g => { g with start := w }) word,
    Field.of "rules" (·.rules) (fun rs g => { g with rules := rs }) (list rule)]
  required := true
  initial := default

/-- Rule sets. -/
def ruleSet : Codec RuleSet := ruleSetRecord.codec

/-- The fields of limits. -/
def limitsRecord : Record Limits where
  name := "ExpansionLimits"
  fields := [
    Field.of "max_generations" (·.maxGenerations)
      (fun n l => { l with maxGenerations := n }) uint32,
    Field.of "max_symbols" (·.maxSymbols) (fun n l => { l with maxSymbols := n }) uint64]
  required := true
  initial := default

/-- Limits. -/
def limits : Codec Limits := limitsRecord.codec

/-- The fields of a preset. -/
def presetRecord : Record Preset where
  name := "Preset"
  fields := [
    Field.of "name" (·.name) (fun s p => { p with name := s }) text,
    Field.of "rules" (·.rules) (fun g p => { p with rules := g }) ruleSet]
  required := true
  initial := default

/-- Presets. -/
def preset : Codec Preset := presetRecord.codec

/-! ## Parameters -/

/-- The fields of parameters. -/
def parametersRecord : Record (Parameters (Encoding .binary64)) where
  name := "ExpansionParameters"
  fields := [
    Field.of "iterations" (·.iterations) (fun n p => { p with iterations := n }) uint32,
    Field.of "branch_length" (·.branchLength) (fun x p => { p with branchLength := x }) float,
    Field.of "branch_width" (·.branchWidth) (fun x p => { p with branchWidth := x }) float,
    Field.of "branch_angle" (·.branchAngle) (fun x p => { p with branchAngle := x }) float,
    Field.of "branch_color" (·.branchColor) (fun c p => { p with branchColor := c }) color,
    Field.of "branch_length_falloff" (·.branchFalloff)
      (fun x p => { p with branchFalloff := x }) float,
    Field.of "leaf_length" (·.leafLength) (fun x p => { p with leafLength := x }) float,
    Field.of "leaf_width" (·.leafWidth) (fun x p => { p with leafWidth := x }) float,
    Field.of "leaf_color" (·.leafColor) (fun c p => { p with leafColor := c }) color,
    Field.of "leaf_alpha" (·.leafAlpha) (fun x p => { p with leafAlpha := x }) float]
  required := false
  initial := Parameters.standard.map .ofFloat

/-- Parameters. -/
def parameters : Codec (Parameters (Encoding .binary64)) := parametersRecord.codec

/-! ## Commands -/

/-- What a command to draw a branch holds. -/
structure BranchData where
  width : Encoding .binary64
  length : Encoding .binary64
  color : Color
deriving Inhabited

/-- What a command to draw a leaf holds. -/
structure LeafData where
  width : Encoding .binary64
  length : Encoding .binary64
  color : Color
  alpha : Encoding .binary64
deriving Inhabited

/-- The fields of a branch. -/
def branchRecord : Record BranchData where
  name := "DrawBranch"
  fields := [
    Field.of "width" (·.width) (fun x b => { b with width := x }) float,
    Field.of "length" (·.length) (fun x b => { b with length := x }) float,
    Field.of "color" (·.color) (fun c b => { b with color := c }) color]
  required := true
  initial := default

/-- The fields of a leaf. -/
def leafRecord : Record LeafData where
  name := "DrawLeaf"
  fields := [
    Field.of "width" (·.width) (fun x b => { b with width := x }) float,
    Field.of "length" (·.length) (fun x b => { b with length := x }) float,
    Field.of "color" (·.color) (fun c b => { b with color := c }) color,
    Field.of "alpha" (·.alpha) (fun x b => { b with alpha := x }) float]
  required := true
  initial := default

/-- A command at a level of indentation. -/
def writeCommand (level : Nat) : Command (Encoding .binary64) → List Char
  | .branch width length color =>
    "DrawBranch".toList ++ branchRecord.write level ⟨width, length, color⟩
  | .rotate radians => "Rotate".toList ++ '(' :: (writeFloat radians ++ [')'])
  | .push => "PushState".toList
  | .pop => "PopState".toList
  | .leaf width length color alpha =>
    "DrawLeaf".toList ++ leafRecord.write level ⟨width, length, color, alpha⟩

/-- Drawing commands. -/
def command : Codec (Command (Encoding .binary64)) :=
  enumeration "DrawCommand" [
    Variant.fields branchRecord fun b => .branch b.width b.length b.color,
    Variant.single "Rotate" float .rotate,
    Variant.plain "PushState" .push,
    Variant.plain "PopState" .pop,
    Variant.fields leafRecord fun b => .leaf b.width b.length b.color b.alpha] writeCommand

/-- Lists of drawing commands. -/
def commands : Codec (List (Command (Encoding .binary64))) := list command

end Codec

end PlantGrammar.Ron
