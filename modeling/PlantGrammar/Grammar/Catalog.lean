import PlantGrammar.Grammar.Bounded

/-!
# The catalogue of plants

Four grammars that grow well, found by position or by name.
-/

namespace PlantGrammar

/-- A named rule set. -/
structure Preset where
  name : String
  rules : RuleSet
deriving DecidableEq, Repr, Inhabited

namespace Preset

/-- A rule from its two sides. -/
def rule (predecessor : Char) (successor : String) : Rule := ⟨predecessor, successor.toList⟩

/-- The catalogue, in order. The spaces and the mark in the rule of the fern are
symbols like any other: no rule rewrites them and no pen follows them. -/
def all : List Preset := [
  ⟨"bush", "X".toList,
    [rule 'F' "FF", rule 'X' "F+[-F-XF-X][+FF][--XF[+X]][++F-X]"]⟩,
  ⟨"weed", "FX".toList,
    [rule 'F' "FF+[+F-F-F]-[-F+F+F]"]⟩,
  ⟨"thicket", "X".toList,
    [rule 'F' "FX[FX[+XF]]", rule 'X' "FF[+XZ++X-F[+ZX]][-X++F-X]", rule 'Z' "[+F-X-F][++ZX]"]⟩,
  ⟨"fern", "F".toList,
    [rule 'F' "F > F[+F]F[-F]F"]⟩]

/-- The names of the catalogue, in order. -/
def names : List String := all.map (·.name)

/-- The position of the preset that is taken when none is chosen. -/
def defaultIndex : Nat := 2

/-- The preset at a position. -/
def ofIndex (index : Nat) : Except Failure Preset :=
  match all[index]? with
  | some preset => .ok preset
  | none => .error (.unknownPreset (toString index))

/-- The preset of a name; the case of ASCII letters does not matter. -/
def ofName (name : String) : Except Failure Preset :=
  let lower := name.toList.map Char.toLower
  match all.find? fun preset => preset.name.toList.map Char.toLower == lower with
  | some preset => .ok preset
  | none => .error (.unknownPreset name)

end Preset

end PlantGrammar
