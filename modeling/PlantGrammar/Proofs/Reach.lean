import PlantGrammar.Proofs.BranchLength
import PlantGrammar.Proofs.Clamping
import PlantGrammar.Proofs.Drawing.Extent
import PlantGrammar.Proofs.Drawing.Words
import PlantGrammar.Proofs.Turtle.Drawable

/-!
# How far a plant reaches

The lengths and widths of a plant may be any positive numbers, so its coordinates may leave
double precision. They do not as long as its drawing does not come near the end of the
format: the surface, the branches that are drawn, laid end to end, the largest outline, and
for each move a little more for rounding. The words for what is no finite number do not
occur in its picture either, as long as the reach is far from the end of single precision.
-/

namespace PlantGrammar

open Numeric

/-! ## Counting moves -/

theorem moveCount_append (first second : List (Command Float)) :
    moveCount (first ++ second) = moveCount first + moveCount second := by
  rw [moveCount, List.map_append, List.sum_append]
  rfl

namespace Turtle

/-- The symbols that move the canvas. -/
def isMove (symbol : Char) : Bool := symbol ∈ ['F', '+', '-']

theorem moveCount_answer (t : Turtle) (symbol : Char) :
    moveCount (t.answer symbol) = if isMove symbol then 1 else 0 := by
  unfold answer
  split
  · rfl
  · rfl
  · rfl
  · rfl
  · split <;> rfl
  · next hforward hright hleft _ _ =>
    have hstill : isMove symbol = false := by simpa [isMove] using ⟨hforward, hright, hleft⟩
    rw [hstill]
    rfl

/-- A walk moves once for each symbol that moves the canvas. -/
theorem moveCount_walkFrom (word : Word) : ∀ (t : Turtle) (position : Nat),
    moveCount (t.walkFrom position word).commands.toList =
      moveCount t.commands.toList + word.countP isMove := by
  induction word with
  | nil => exact fun _ _ => rfl
  | cons symbol word ih =>
    intro t position
    rw [walkFrom, ih, commands_follow, moveCount_append, moveCount_answer, List.countP_cons,
      Nat.add_assoc, Nat.add_comm (word.countP isMove)]

end Turtle

theorem moveCount_interpret (word : Word) (parameters : Parameters Float)
    (branchLength : Float) :
    moveCount (interpret word parameters branchLength) = word.countP Turtle.isMove :=
  (Turtle.moveCount_walkFrom word (Turtle.start parameters branchLength) 0).trans
    (Nat.zero_add _)

/-! ## The numbers of a plant -/

/-- An angle up to a right one is finite in radians. -/
theorem Turtle.radians_isFinite {degrees : Float} (hpos : 0 < degrees) (hle : degrees ≤ 90) :
    (radians degrees).isFinite = true := by
  have hfinite : degrees.isFinite = true := isFinite_of_le hpos hle rfl
  have hfull : value 180 = 180 := (ofNat_exact (by decide)).2
  have hright : value 90 = 90 := (ofNat_exact (by decide)).2
  have hfour : value 4 = 4 := (ofNat_exact (by decide)).2
  have hpi : value 3.141592653589793 ≤ 4 := hfour ▸ value_mono rfl (by decide) rfl (by decide)
  have hpi' : 0 < value 3.141592653589793 := value_pos rfl (by decide)
  have hvalue : value degrees ≤ 90 := hright ▸ value_mono hfinite hpos rfl hle
  have hvalue' := value_pos hfinite hpos
  have hone : (1 : ℚ) ≤ roof := by simpa using two_pow_le_roof (Nat.zero_le 1023)
  have hroof : (8 : ℚ) ≤ roof := by linarith [two_pow_le_roof (by decide : 3 ≤ 1023)]
  have hquotient := div_near (y := 180) (A := 1) hfinite rfl (by rw [hfull]; norm_num)
    leastNormal_le_one hone (by rw [hfull, abs_le]; constructor <;> linarith)
  have hpart : |value (degrees / 180)| ≤ 2 := by
    have herror := hquotient.error
    rw [hfull] at herror
    obtain ⟨hlow, hhigh⟩ := abs_le.mp herror
    exact abs_le.mpr ⟨by linarith, by linarith⟩
  refine (mul_near (A := 8) rfl hquotient.isFinite (by linarith [leastNormal_le_one])
    hroof ?_).isFinite
  calc |value 3.141592653589793 * value (degrees / 180)| =
        value 3.141592653589793 * |value (degrees / 180)| := by rw [abs_mul, abs_of_pos hpi']
    _ ≤ 4 * 2 := by gcongr
    _ = 8 := by norm_num

/-- A length that shrinks by a factor up to one never grows. -/
theorem value_iterate_mul_le {falloff : Float} (hpos : 0 < falloff) (hle : falloff ≤ 1)
    {n : Nat} : ∀ {length : Float}, length.isFinite = true → 0 ≤ length →
      value ((· * falloff)^[n] length) ≤ value length := by
  induction n with
  | zero => exact fun _ _ => le_refl _
  | succ n ih =>
    intro length hfinite hnonneg
    obtain ⟨hfinite', hnonneg'⟩ := Numeric.mul_isFinite_nonneg hfinite hnonneg hpos hle
    exact (ih hfinite' hnonneg').trans (value_mul_le hfinite hnonneg hpos hle)

namespace Parameters

/-- Clamping does not diminish an accepted length. -/
theorem value_le_value_clampPositive {x fallback : Float} (hfinite : x.isFinite = true)
    (hpos : 0 < x) : value x ≤ value (clampPositive x greatestFinite fallback) := by
  rw [clampPositive_eq_lifted (le_greatestFinite hfinite), lifted]
  split
  · next hsmall =>
    have hle : x ≤ leastPositive :=
      le_iff.mpr ⟨(lt_iff.mp hsmall).1, (lt_iff.mp hsmall).2.1, (lt_iff.mp hsmall).2.2.le⟩
    exact value_mono hfinite hpos rfl hle
  · exact le_refl _

/-- What clamping leaves is a number of full width. -/
theorem leastNormal_le_value {x : Float} (hfinite : x.isFinite = true) (h : leastPositive ≤ x) :
    leastNormal ≤ value x := by
  have hunpack : leastPositive.toModel.unpack =
      .finite .positive 0x10C6F7A0B5ED8D (-72) (by decide) := rfl
  have hvalue : 1 / 2 ^ 72 ≤ value leastPositive := by
    rw [value_of_unpack_positive hunpack]
    norm_num
  have hleast : leastNormal ≤ 1 / 2 ^ 72 := by
    unfold leastNormal
    exact one_div_le_one_div_of_le (by positivity) (pow_le_pow_right₀ one_le_two (by norm_num))
  exact (hleast.trans hvalue).trans (value_mono rfl (by decide) hfinite h)

theorem leastNormal_le_value_leafWidth (p : Parameters Float) :
    leastNormal ≤ value p.clamped.leafWidth :=
  leastNormal_le_value p.clamped_inDomain.leafWidth.1
    (clampPositive_bounds (by decide) (by decide) (by decide)).1

end Parameters

/-! ## Reach -/

/-- All commands in the drawing of a word are regular. -/
theorem regular_of_mem_interpret {word : Word} {parameters : Parameters Float}
    {branchLength : Float} {command : Command Float}
    (h : command ∈ interpret word parameters branchLength) : command.Regular := by
  have hdomain := parameters.clamped_inDomain
  have hwith := drawnWith_of_mem_interpret h
  cases command with
  | branch width length color =>
    obtain ⟨rfl, rfl, -⟩ := hwith
    exact ⟨hdomain.branchWidth.1, (Turtle.start_branchLength_drawable parameters branchLength).1⟩
  | rotate angle =>
    have hturn := Turtle.radians_isFinite hdomain.branchAngle.1 hdomain.branchAngle.2
    rcases hwith with rfl | rfl
    · exact hturn
    · exact (neg_finite hturn).1
  | push => trivial
  | pop => trivial
  | leaf width length color alpha =>
    obtain ⟨rfl, rfl, -, rfl⟩ := hwith
    have halpha := isFinite_of_le hdomain.leafAlpha.1 hdomain.leafAlpha.2 rfl
    exact ⟨⟨hdomain.leafWidth.1, hdomain.leafLength.1, halpha⟩,
      parameters.leastNormal_le_value_leafWidth.trans (le_abs_self _)⟩

namespace Plant

/-- The shapes of a plant, with circular functions of one's own. -/
def shapesWith (c : Circle) (p : Plant) (surface : Surface Float) :
    Except Failure (List (Shape Float)) := do
  return @paint Float c.scalar (← p.commands) surface

/-- With the circular functions of the machine these are the shapes of the plant. -/
theorem shapesWith_machine (p : Plant) (surface : Surface Float) :
    p.shapesWith .machine surface = p.shapes surface := rfl

/-- How far the drawing of a plant may reach on a surface. -/
def reach (p : Plant) (growth : Growth) (surface : Surface Float) : ℚ :=
  drawingReach (interpret growth.word p.parameters growth.branchLength) surface

/-- No branch is drawn longer than the clamped length of the parameters. -/
theorem value_drawn_le {rules : RuleSet} {parameters : Parameters Float} {plant : Plant}
    {limits : Limits} {growth : Growth} (hplant : ofRules rules parameters = .ok plant)
    (hgrow : (plant.withLimits limits).grow = .ok growth) :
    value (Turtle.start plant.parameters growth.branchLength).pose.branchLength ≤
      value plant.parameters.clamped.branchLength := by
  obtain ⟨hdomain, rfl, hlength⟩ := inDomain_of_grow hplant hgrow
  rw [Turtle.start]
  dsimp only
  split
  · rw [hlength]
    refine (value_iterate_mul_le hdomain.branchFalloff.1 hdomain.branchFalloff.2
      hdomain.branchLength.1 ?_).trans (Parameters.value_le_value_clampPositive
        hdomain.branchLength.1 hdomain.branchLength.2)
    obtain ⟨hnum, hpos⟩ := zero_lt_iff.mp hdomain.branchLength.2
    exact zero_le_iff.mpr ⟨hnum, hpos.le⟩
  · exact le_refl _

/-- The reach in terms of the parameters: as if each move were a branch, and with an outline
of each kind. -/
theorem reach_le {rules : RuleSet} {parameters : Parameters Float} {plant : Plant}
    {limits : Limits} {growth : Growth} (hplant : ofRules rules parameters = .ok plant)
    (hgrow : (plant.withLimits limits).grow = .ok growth) (surface : Surface Float) :
    let p := plant.parameters.clamped
    let moves := growth.word.countP Turtle.isMove
    plant.reach growth surface ≤ slack ^ moves *
      (1 + |value surface.width| + |value surface.height| + moves * value p.branchLength +
        (value p.branchWidth + value p.branchLength +
          2 * (value p.leafWidth + 4 * value p.leafLength))) := by
  intro p moves
  have hlength : _ ≤ value p.branchLength := value_drawn_le hplant hgrow
  obtain ⟨hdrawn, hdrawn'⟩ :=
    Turtle.start_branchLength_drawable plant.parameters growth.branchLength
  have hdomain : p.InDomain := plant.parameters.clamped_inDomain
  have hbranchLength := value_pos hdomain.branchLength.1 hdomain.branchLength.2
  have hbranchWidth := value_pos hdomain.branchWidth.1 hdomain.branchWidth.2
  have hleafWidth := value_pos hdomain.leafWidth.1 hdomain.leafWidth.2
  have hleafLength := value_pos hdomain.leafLength.1 hdomain.leafLength.2
  have hpos := value_pos hdrawn hdrawn'
  refine drawingReach_le (moveCount_interpret _ _ _).le hbranchLength.le (by positivity)
    (fun command hcommand => ?_) surface
  have hwith : command.DrawnWith p _ := drawnWith_of_mem_interpret hcommand
  cases command with
  | branch width length color =>
    obtain ⟨rfl, rfl, -⟩ := hwith
    simp only [Command.stride, Command.moves, Command.size, abs_of_pos hpos,
      abs_of_pos hbranchWidth, Nat.cast_one, one_mul]
    constructor <;> linarith
  | leaf width length color alpha =>
    obtain ⟨rfl, rfl, -⟩ := hwith
    simp only [Command.stride, Command.moves, Command.size, abs_of_pos hleafWidth,
      abs_of_pos hleafLength, Nat.cast_zero, zero_mul]
    constructor <;> linarith
  | _ => exact ⟨by simp only [Command.stride, Command.moves]; positivity,
      by simp only [Command.size]; positivity⟩

/-- **A plant within reach has finite coordinates**: for all rules, parameters, limits and
surfaces of finite size, and with any sound circular functions, a plant that grows has
shapes. As long as its reach is at most `2 ^ 1019`, their coordinates are finite, and none
of them is beyond twice the reach. As long as it is at most `2 ^ 125`, the text of the
picture contains neither of the words for a number that is not finite. -/
theorem shapes_within_reach {c : Circle} {p : Plant} {growth : Growth} {surface : Surface Float}
    (hc : c.Sound) (hgrow : p.grow = .ok growth)
    (hsurface : surface.width.isFinite = true ∧ surface.height.isFinite = true) :
    ∃ shapes, p.shapesWith c surface = .ok shapes ∧
      (p.reach growth surface ≤ 2 ^ 1019 → ∀ s ∈ shapes, ∀ point ∈ s.outline.points,
        point.Within (2 * p.reach growth surface)) ∧
      (p.reach growth surface ≤ 2 ^ 125 →
        ¬ "NaN".toList <:+: Svg.document shapes surface ∧
          ¬ "inf".toList <:+: Svg.document shapes surface) := by
  have hdrawn : p.reach growth surface ≤ 2 ^ 1019 → _ := fun hreach =>
    paint_within_reach hc (fun _ => regular_of_mem_interpret) hsurface.1 hsurface.2
      (hreach.trans roof_div.ge)
  refine ⟨_, bind_eq_ok_iff.mpr ⟨_, bind_eq_ok_iff.mpr ⟨growth, hgrow, rfl⟩, rfl⟩, ?_, ?_⟩
  · intro hreach s hs
    exact (hdrawn hreach s hs).2
  · intro hsingle
    have hbelow : 2 * p.reach growth surface < 2 ^ 127 := by
      calc 2 * p.reach growth surface ≤ 2 * 2 ^ 125 := by gcongr
        _ < 2 ^ 127 := by norm_num
    have hwithin := hdrawn (hsingle.trans (pow_le_pow_right₀ one_le_two (by norm_num)))
    refine (Svg.wordless_document hsurface.1 hsurface.2 (fun s hs => (hwithin s hs).1)
      fun s hs point hpoint => ?_).holds_no_word
    obtain ⟨hx, hy, hxle, hyle⟩ := (hwithin s hs).2 point hpoint
    exact ⟨⟨hx, lt_of_le_of_lt hxle hbelow⟩, hy, lt_of_le_of_lt hyle hbelow⟩

/-- Circular functions that know one angle, an eighth of a half turn, and take every other
one for none. -/
def eighth : Circle where
  cos x := if x == Turtle.radians 22.5 then 0.9238795325112867 else 1
  sin x := if x == Turtle.radians 22.5 then 0.3826834323650898 else 0

theorem sound_eighth : eighth.Sound := by
  have hcos : (0.9238795325112867 : Float).toModel.unpack =
      .finite .positive 0x1d906bcf328d46 (-53) (by decide) := rfl
  have hsin : (0.3826834323650898 : Float).toModel.unpack =
      .finite .positive 0x187de2a6aea963 (-54) (by decide) := rfl
  have hone : value 1 = 1 := (ofNat_exact (by decide)).2.trans Nat.cast_one
  have hzero : value 0 = 0 := rfl
  refine ⟨fun x _ => ?_, fun x _ => ?_, fun x _ => ?_⟩
  · rw [eighth]
    dsimp only
    split <;> rfl
  · rw [eighth]
    dsimp only
    split <;> rfl
  · rw [eighth]
    dsimp only
    split
    · rw [value_of_unpack_positive hcos, value_of_unpack_positive hsin]
      norm_num [abs_le]
    · rw [hone, hzero]
      norm_num

/-- The fork on the standard surface is far from the end of any format. -/
theorem reach_fork_le {plant : Plant} {growth : Growth}
    (hplant : ofRules fork .standard = .ok plant)
    (hgrow : (plant.withLimits .unbounded).grow = .ok growth) :
    plant.reach growth .standard ≤ 2 ^ 125 := by
  obtain ⟨hword, hparameters⟩ : growth.word.countP Turtle.isMove = 15 ∧
      plant.parameters.clamped = .standard := by
    cases hplant
    cases hgrow
    exact ⟨by decide, rfl⟩
  have hbound := reach_le hplant hgrow .standard
  dsimp only at hbound
  rw [hword, hparameters] at hbound
  refine hbound.trans ?_
  change slack ^ 15 * (1 + |value (Float.ofNat 1000)| + |value (Float.ofNat 1000)| +
    (15 : Nat) * value (Float.ofNat 30) + (value (Float.ofNat 1) + value (Float.ofNat 30) +
      2 * (value (Float.ofNat 2) + 4 * value (Float.ofNat 2)))) ≤ 2 ^ 125
  have hnumeral : ∀ n < 1001, value (Float.ofNat n) = n :=
    fun n hn => (ofNat_exact (Nat.lt_trans hn (by decide))).2
  rw [hnumeral 1000 (by decide), hnumeral 30 (by decide), hnumeral 1 (by decide),
    hnumeral 2 (by decide)]
  norm_num [slack]

theorem shapes_within_reach_fork :
    eighth.Sound ∧ ∃ plant growth, ofRules fork .standard = .ok plant ∧
      (plant.withLimits .unbounded).grow = .ok growth ∧
      (Surface.standard.width.isFinite = true ∧ Surface.standard.height.isFinite = true) ∧
      plant.reach growth .standard ≤ 2 ^ 125 ∧
      ∃ shapes, (plant.withLimits .unbounded).shapesWith eighth .standard = .ok shapes ∧
        (∀ s ∈ shapes, ∀ point ∈ s.outline.points,
          point.Within (2 * plant.reach growth .standard)) ∧
        ¬ "NaN".toList <:+: Svg.document shapes .standard ∧
          ¬ "inf".toList <:+: Svg.document shapes .standard := by
  obtain ⟨plant, hplant⟩ : ∃ plant, ofRules fork .standard = .ok plant := ⟨_, rfl⟩
  obtain ⟨growth, hgrow⟩ : ∃ growth, (plant.withLimits .unbounded).grow = .ok growth := by
    cases hplant
    exact ⟨_, rfl⟩
  have hreach := reach_fork_le hplant hgrow
  obtain ⟨shapes, hshapes, hwithin, hwords⟩ :=
    @shapes_within_reach eighth _ growth .standard sound_eighth hgrow ⟨rfl, rfl⟩
  exact ⟨sound_eighth, plant, growth, hplant, hgrow, ⟨rfl, rfl⟩, hreach, shapes, hshapes,
    hwithin (hreach.trans (pow_le_pow_right₀ one_le_two (by norm_num))), hwords hreach⟩

/-- Parameters with a leaf length near the end of the format. -/
def longLeaf : Parameters Float :=
  { Parameters.standard with leafLength := Float.ofBits 0x7FE1CCF385EBC8A0 }

/-- A grammar of a single leaf. -/
def loneLeaf : RuleSet := ⟨[']'], []⟩

/-- The tip of a leaf that is too long is nowhere, not even across its axis, and the picture
says so. -/
theorem shapes_longLeaf_not_finite :
    ∃ plant shapes, ofRules loneLeaf longLeaf = .ok plant ∧
      (Surface.standard.width.isFinite = true ∧ Surface.standard.height.isFinite = true) ∧
      plant.shapes .standard = .ok shapes ∧
      (∃ s ∈ shapes, ∃ point ∈ s.outline.points,
        point.x.isFinite = false ∧ point.y.isFinite = false) ∧
      "NaN".toList <:+: Svg.document shapes .standard := by
  refine ⟨_, _, rfl, ⟨rfl, rfl⟩, rfl, ?_, ?_⟩
  · decide +kernel
  · decide +kernel

end Plant

end PlantGrammar
