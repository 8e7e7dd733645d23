import PlantGrammar.Plant
import PlantGrammar.Proofs.Grammar.Growth
import PlantGrammar.Proofs.Numeric.Product
import PlantGrammar.Proofs.Parameters
import PlantGrammar.Proofs.Turtle.Answer
import PlantGrammar.Proofs.Turtle.Nesting

/-!
# The length of the branches

Growing shrinks the length of a branch once per generation, and a turtle keeps
the length it starts with, whatever the brackets do. So all branches of a plant
are drawn with one length. It is the grown one as long as that is positive; where
the repeated product has run down to zero the turtle falls back to the length of
its own parameters.
-/

namespace PlantGrammar

/-! ## Growing -/

namespace RuleSet

/-- However the words grow, the length shrinks by one factor per generation. -/
theorem grow_branchLength {g : RuleSet} {generations : UInt32} {branchLength falloff : Float}
    {limits : Limits} {growth : Growth}
    (h : g.grow generations branchLength falloff limits = .ok growth) :
    growth.branchLength = (· * falloff)^[generations.toNat] branchLength := by
  rw [grow_eq_map, map_eq_ok_iff] at h
  obtain ⟨word, -, rfl⟩ := h
  rfl

end RuleSet

/-- A length that shrinks by a factor up to one stays finite, and not negative. -/
theorem iterate_mul_isFinite_nonneg {falloff : Float} (hpos : 0 < falloff) (hle : falloff ≤ 1)
    {n : Nat} : ∀ {length : Float}, length.isFinite = true → 0 ≤ length →
      ((· * falloff)^[n] length).isFinite = true ∧ 0 ≤ (· * falloff)^[n] length := by
  induction n with
  | zero => exact fun hfinite hnonneg => ⟨hfinite, hnonneg⟩
  | succ n ih =>
    intro length hfinite hnonneg
    obtain ⟨hfinite', hnonneg'⟩ := Numeric.mul_isFinite_nonneg hfinite hnonneg hpos hle
    exact ih hfinite' hnonneg'

/-! ## Drawing -/

/-- A turtle draws every branch with the length it starts with. -/
theorem eq_start_branchLength_of_mem_interpret {word : Word} {parameters : Parameters Float}
    {branchLength : Float} {width drawn : Float} {color : Color}
    (h : .branch width drawn color ∈ interpret word parameters branchLength) :
    drawn = (Turtle.start parameters branchLength).pose.branchLength :=
  (drawnWith_of_mem_interpret h).2.1

/-- Reading strictly gives nothing but what lenient reading gives. -/
theorem interpretStrict_eq_ok {word : Word} {parameters : Parameters Float}
    {branchLength : Float} {commands : List (Command Float)}
    (h : interpretStrict word parameters branchLength = .ok commands) :
    commands = interpret word parameters branchLength := by
  rw [interpretStrict_eq] at h
  split at h
  · cases h
  · cases h
    rfl

/-! ## Growing and drawing -/

namespace Plant

/-- The parameters of a plant are in their domains, and its growth has their branch length,
times the falloff once per generation. -/
theorem inDomain_of_grow {rules : RuleSet} {parameters : Parameters Float} {plant : Plant}
    {limits : Limits} {growth : Growth} (hplant : ofRules rules parameters = .ok plant)
    (hgrow : (plant.withLimits limits).grow = .ok growth) :
    parameters.InDomain ∧ plant = ⟨rules, parameters, .standard⟩ ∧ growth.branchLength =
      (· * parameters.branchFalloff)^[parameters.iterations.toNat] parameters.branchLength := by
  obtain ⟨hcheck, hdef⟩ := check_bind_eq_ok_iff.mp hplant
  cases hdef
  exact ⟨Parameters.check_eq_ok_iff.mp hcheck, rfl, RuleSet.grow_branchLength hgrow⟩

/-- **The drawn length is the grown length**: the branch length of the parameters
times the falloff, once per generation. It is finite and not negative, and every
branch of the plant has it as long as it is positive; a length that has run down to
zero gives way to the clamped one of the parameters. -/
theorem drawn_eq_grown {rules : RuleSet} {parameters : Parameters Float} {plant : Plant}
    {limits : Limits} {growth : Growth} (hplant : ofRules rules parameters = .ok plant)
    (hgrow : (plant.withLimits limits).grow = .ok growth) :
    growth.branchLength =
        (· * parameters.branchFalloff)^[parameters.iterations.toNat] parameters.branchLength ∧
      growth.branchLength.isFinite = true ∧ 0 ≤ growth.branchLength ∧
      ∃ commands, (plant.withLimits limits).commands = .ok commands ∧
        (∀ strict, (plant.withLimits limits).commandsStrict = .ok strict → strict = commands) ∧
        ∀ width drawn color, .branch width drawn color ∈ commands →
          drawn = if 0 < growth.branchLength then growth.branchLength
            else parameters.clamped.branchLength := by
  obtain ⟨hdomain, rfl, hlength⟩ := inDomain_of_grow hplant hgrow
  have hnonneg : 0 ≤ parameters.branchLength := by
    obtain ⟨hnum, hpos⟩ := Numeric.zero_lt_iff.mp hdomain.branchLength.2
    exact Numeric.zero_le_iff.mpr ⟨hnum, Int.le_of_lt hpos⟩
  obtain ⟨hgrownFinite, hgrownNonneg⟩ :
      growth.branchLength.isFinite = true ∧ 0 ≤ growth.branchLength := by
    rw [hlength]
    exact iterate_mul_isFinite_nonneg hdomain.branchFalloff.1 hdomain.branchFalloff.2
      hdomain.branchLength.1 hnonneg
  refine ⟨hlength, hgrownFinite, hgrownNonneg, _,
    bind_eq_ok_iff.mpr ⟨growth, hgrow, rfl⟩, fun strict hstrict => ?_,
    fun width drawn color hmem => ?_⟩
  · obtain ⟨growth', hgrow', hstrict'⟩ := bind_eq_ok_iff.mp hstrict
    cases hgrow.symm.trans hgrow'
    exact interpretStrict_eq_ok hstrict'
  · -- of the guard of the turtle only the sign is left to decide
    rw [eq_start_branchLength_of_mem_interpret hmem]
    simp [Turtle.start, hgrownFinite]
    rfl

/-- A grammar whose branches fork once in each generation. -/
def fork : RuleSet := ⟨['F'], [⟨'F', ['F', '[', '+', 'F', ']']⟩]⟩

theorem drawn_eq_grown_fork :
    ∃ plant growth, ofRules fork .standard = .ok plant ∧
      (plant.withLimits .unbounded).grow = .ok growth ∧
      growth.branchLength = (· * Parameters.standard.branchFalloff)^[3] 30 ∧
      growth.branchLength.isFinite = true ∧ 0 ≤ growth.branchLength ∧
      ∃ commands, (plant.withLimits .unbounded).commands = .ok commands ∧
        (∀ strict, (plant.withLimits .unbounded).commandsStrict = .ok strict →
          strict = commands) ∧
        ∀ width drawn color, .branch width drawn color ∈ commands →
          drawn = if 0 < growth.branchLength then growth.branchLength
            else Parameters.standard.clamped.branchLength := by
  refine ⟨_, _, rfl, rfl, ?_⟩
  exact @drawn_eq_grown fork .standard _ .unbounded _ rfl rfl

/-- Parameters with the smallest length there is, halved once. -/
def shortest : Parameters Float :=
  { Parameters.standard with iterations := 1, branchLength := Float.ofBits 1, branchFalloff := 0.5 }

/-- A grammar of a single branch. -/
def stick : RuleSet := ⟨['F'], []⟩

/-- A grown length of zero is not drawn. -/
theorem drawn_shortest_ne_grown :
    ∃ plant growth commands, ofRules stick shortest = .ok plant ∧ plant.grow = .ok growth ∧
      plant.commands = .ok commands ∧
      ∃ width drawn color, .branch width drawn color ∈ commands ∧
        drawn ≠ growth.branchLength := by
  refine ⟨_, _, _, rfl, rfl, rfl, 1, 1e-6, shortest.branchColor, ?_, ?_⟩
  · exact List.mem_singleton.mpr rfl
  · intro h
    have hbits := congrArg Float.toBits h
    revert hbits
    decide

end Plant

end PlantGrammar
