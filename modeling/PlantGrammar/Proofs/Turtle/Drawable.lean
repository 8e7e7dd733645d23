import PlantGrammar.Proofs.Clamping
import PlantGrammar.Proofs.Turtle.Answer

/-!
# The numbers of a drawing

A turtle may be given any parameters and any branch length, also infinities and the
non-number. It clamps the parameters and falls back to their length where it cannot
draw with the other one, and from then on changes neither. So all numbers it records
can be drawn, and commands of one kind carry the same.
-/

namespace PlantGrammar

open Turtle

/-- A turtle starts with a length that can be drawn: the one it is given, or else that
of the clamped parameters. -/
theorem Turtle.start_branchLength_drawable (parameters : Parameters Float)
    (branchLength : Float) :
    (start parameters branchLength).pose.branchLength.isFinite = true ∧
      0 < (start parameters branchLength).pose.branchLength := by
  rw [start]
  dsimp only
  split
  · assumption
  · exact parameters.clamped_inDomain.branchLength

/-- **A drawing holds nothing but drawable numbers, and the same ones throughout**: each
branch has one width and one length, each leaf one width, one length and one opacity,
all of them finite and positive and the opacity at most one, and each turn goes by one
angle of at most a right angle to either side. The branch length of the turtle and of
every pose it remembers stays what it was, whatever it is asked to do. -/
theorem interpret_drawable (parameters : Parameters Float) (branchLength : Float) :
    let p := parameters.clamped
    let length :=
      if branchLength.isFinite ∧ 0 < branchLength then branchLength else p.branchLength
    (p.branchWidth.isFinite = true ∧ 0 < p.branchWidth) ∧
      (length.isFinite = true ∧ 0 < length) ∧
      (p.leafWidth.isFinite = true ∧ 0 < p.leafWidth) ∧
      (p.leafLength.isFinite = true ∧ 0 < p.leafLength) ∧
      (0 < p.leafAlpha ∧ p.leafAlpha ≤ 1) ∧ (0 < p.branchAngle ∧ p.branchAngle ≤ 90) ∧
      (∀ word,
        (∀ width drawn color, .branch width drawn color ∈ interpret word parameters branchLength →
          width = p.branchWidth ∧ drawn = length) ∧
        (∀ width drawn color alpha,
          .leaf width drawn color alpha ∈ interpret word parameters branchLength →
            width = p.leafWidth ∧ drawn = p.leafLength ∧ alpha = p.leafAlpha) ∧
        ∀ angle, .rotate angle ∈ interpret word parameters branchLength →
          angle = radians p.branchAngle ∨ angle = -radians p.branchAngle) ∧
      ∀ calls, ((start parameters branchLength).run calls).pose.branchLength = length ∧
        ∀ pose ∈ ((start parameters branchLength).run calls).saved,
          pose.branchLength = length := by
  intro p length
  have hdomain : p.InDomain := parameters.clamped_inDomain
  have hstart : (start parameters branchLength).pose.branchLength = length := rfl
  refine ⟨hdomain.branchWidth, start_branchLength_drawable parameters branchLength,
    hdomain.leafWidth, hdomain.leafLength, hdomain.leafAlpha, hdomain.branchAngle,
    fun word => ⟨?_, ?_, ?_⟩, fun calls => ?_⟩
  · intro width drawn color hmem
    obtain ⟨hwidth, hdrawn, -⟩ := drawnWith_of_mem_interpret hmem
    exact ⟨hwidth, hdrawn⟩
  · intro width drawn color alpha hmem
    obtain ⟨hwidth, hdrawn, -, halpha⟩ := drawnWith_of_mem_interpret hmem
    exact ⟨hwidth, hdrawn, halpha⟩
  · intro angle hmem
    exact drawnWith_of_mem_interpret hmem
  · have hsteady := steady_run parameters branchLength calls
    rw [hstart] at hsteady
    exact ⟨hsteady.pose, hsteady.saved⟩

end PlantGrammar
