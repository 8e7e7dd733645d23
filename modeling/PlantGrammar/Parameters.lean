import PlantGrammar.Color.Css

/-!
# The parameters of a plant

How often a grammar is applied and how its word is drawn. Each number has a
domain: `Parameters.check` refuses what lies outside, with the first offence in
a fixed order, and `Parameters.clamped` moves every number into its domain.
-/

namespace PlantGrammar

/-- How a plant grows and looks. Angles are in degrees. -/
structure Parameters (α : Type) where
  iterations : UInt32
  branchLength : α
  branchWidth : α
  branchAngle : α
  branchColor : Color
  /-- What the branch length is multiplied by in each generation. -/
  branchFalloff : α
  leafLength : α
  leafWidth : α
  leafColor : Color
  /-- The opacity of a leaf. -/
  leafAlpha : α
deriving BEq

namespace Parameters

/-- The parameters with every number in another form. -/
def map {α β : Type} (f : α → β) (p : Parameters α) : Parameters β where
  iterations := p.iterations
  branchLength := f p.branchLength
  branchWidth := f p.branchWidth
  branchAngle := f p.branchAngle
  branchColor := p.branchColor
  branchFalloff := f p.branchFalloff
  leafLength := f p.leafLength
  leafWidth := f p.leafWidth
  leafColor := p.leafColor
  leafAlpha := f p.leafAlpha

/-- The smallest number that clamping leaves. -/
def leastPositive : Float := 1e-6

/-- The largest number of double precision. -/
def greatestFinite : Float := Float.ofBits 0x7FEFFFFFFFFFFFFF

/-- The most generations a plant may have. -/
def maxIterations : UInt32 := 5

/-- The widest angle of a branch, in degrees. -/
def maxBranchAngle : Float := 90

/-- The parameters where none are chosen. -/
def standard : Parameters Float where
  iterations := 3
  branchLength := 30
  branchWidth := 1
  branchAngle := 22.5
  branchColor := Color.ofBytes 0x85 0x52 0x1c 255
  branchFalloff := 0.75
  leafLength := 2
  leafWidth := 2
  leafColor := Color.ofBytes 0x1c 0x85 0x2b 255
  leafAlpha := 0.75

instance : Inhabited (Parameters Float) := ⟨standard⟩

/-! ## Checking -/

/-- Refuses what is not finite and positive. -/
def checkPositive (name : String) (value : Float) : Except Failure Unit :=
  if value.isFinite ∧ 0 < value then .ok ()
  else .error (.invalidParameter name value "must be a positive number")

/-- Refuses what is not positive or above `max`. -/
def checkUpTo (name : String) (value max : Float) (reason : String) : Except Failure Unit :=
  if 0 < value ∧ value ≤ max then .ok ()
  else .error (.invalidParameter name value reason)

/-- Refuses a count of generations above the most there may be. -/
def checkIterations (iterations : UInt32) : Except Failure Unit :=
  if maxIterations < iterations then
    .error (.invalidParameter "iterations" iterations.toFloat "must be between 0 and 5")
  else .ok ()

/-- Refuses parameters of which one is outside its domain. -/
def check (p : Parameters Float) : Except Failure Unit := do
  checkIterations p.iterations
  checkPositive "branch_length" p.branchLength
  checkPositive "branch_width" p.branchWidth
  checkPositive "leaf_length" p.leafLength
  checkPositive "leaf_width" p.leafWidth
  checkUpTo "branch_angle" p.branchAngle maxBranchAngle "must be in (0, 90] degrees"
  checkUpTo "leaf_alpha" p.leafAlpha 1 "must be in (0, 1]"
  checkUpTo "branch_length_falloff" p.branchFalloff 1 "must be in (0, 1]"

/-! ## Clamping -/

/-- A number moved into `[leastPositive, max]`; `fallback` replaces a
non-number. -/
def clampPositive (value max fallback : Float) : Float :=
  if value.isNaN then fallback
  else if value < leastPositive then leastPositive
  else if max < value then max
  else value

/-- The parameters with every number moved into its domain. -/
def clamped (p : Parameters Float) : Parameters Float where
  iterations := min p.iterations maxIterations
  branchLength := clampPositive p.branchLength greatestFinite standard.branchLength
  branchWidth := clampPositive p.branchWidth greatestFinite standard.branchWidth
  branchAngle := clampPositive p.branchAngle maxBranchAngle standard.branchAngle
  branchColor := p.branchColor
  branchFalloff := clampPositive p.branchFalloff 1 standard.branchFalloff
  leafLength := clampPositive p.leafLength greatestFinite standard.leafLength
  leafWidth := clampPositive p.leafWidth greatestFinite standard.leafWidth
  leafColor := p.leafColor
  leafAlpha := clampPositive p.leafAlpha 1 standard.leafAlpha

/-- The parameters with a branch colour read from a text. -/
def withBranchColor {α : Type} (p : Parameters α) (text : String) :
    Except Failure (Parameters α) := do
  return { p with branchColor := ← Color.ofCss text }

/-- The parameters with a leaf colour read from a text. -/
def withLeafColor {α : Type} (p : Parameters α) (text : String) :
    Except Failure (Parameters α) := do
  return { p with leafColor := ← Color.ofCss text }

end Parameters

end PlantGrammar
