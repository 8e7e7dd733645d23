import PlantGrammar.Proofs.Drawing.Frame
import PlantGrammar.Proofs.Drawing.Replay
import PlantGrammar.Proofs.Numeric.Whole

/-!
# How far a drawing reaches

A canvas that draws in double precision keeps within a frame: every move is a turn or a
step but for rounding, so the present transform and all it remembers reach as far as the
moves so far allow, and every shape lies within reach of the whole drawing. The circular
functions are taken as they come, as long as they are sound (`Circle.Sound`).
-/

namespace PlantGrammar

open Numeric

/-! ## Circular functions -/

/-- A cosine and a sine in double precision. -/
structure Circle where
  cos : Float → Float
  sin : Float → Float

namespace Circle

/-- Double precision with these circular functions. -/
@[reducible] def scalar (c : Circle) : Scalar Float where
  ofInt := Float.ofInt
  cos := c.cos
  sin := c.sin

/-- The circular functions of the machine. -/
def machine : Circle := ⟨Float.cos, Float.sin⟩

/-- A finite angle has a finite cosine and a finite sine, whose squares add up to one but
for rounding. -/
structure Sound (c : Circle) : Prop where
  cos_isFinite : ∀ x : Float, x.isFinite = true → (c.cos x).isFinite = true
  sin_isFinite : ∀ x : Float, x.isFinite = true → (c.sin x).isFinite = true
  pythagoras : ∀ x : Float, x.isFinite = true →
    |value (c.cos x) ^ 2 + value (c.sin x) ^ 2 - 1| ≤ 1 / 2 ^ 50

end Circle

/-! ## Transforms -/

/-- A transform after some moves, which went so far together. -/
structure Transform.Reaches (f : Frame) (k : Nat) (d : ℚ) (m : Transform Float) : Prop where
  horizontal : Row f k d m.xx m.xy m.xt
  vertical : Row f k d m.yx m.yy m.yt

namespace Transform

variable {f : Frame} {k l : Nat} {d d' stride : ℚ} {m n : Transform Float} {c : Circle}

theorem Reaches.mono (h : m.Reaches f k d) (hl : k ≤ l) (hd : d ≤ d') : m.Reaches f l d' :=
  ⟨h.horizontal.mono hl hd, h.vertical.mono hl hd⟩

theorem Reaches.mul (h : m.Reaches f k d) (hn : Move stride n) (hk : k < f.moves)
    (hd : d + stride ≤ f.path) :
    (@Transform.mul Float c.scalar m n).Reaches f (k + 1) (d + stride) :=
  ⟨h.horizontal.mul hn hk hd, h.vertical.mul hn hk hd⟩

/-- A turn goes nowhere. -/
theorem move_rotate (hc : c.Sound) {angle : Float} (h : angle.isFinite = true) :
    Move 0 (@rotate Float c.scalar angle) := by
  obtain ⟨hzero, hzero'⟩ := ofInt_zero
  obtain ⟨hone, hone'⟩ := ofInt_one
  obtain ⟨hneg, hneg'⟩ := neg_finite (hc.sin_isFinite angle h)
  have hcos := hc.cos_isFinite angle h
  have hsin := hc.sin_isFinite angle h
  have hcircle := (abs_le.mp (hc.pythagoras angle h)).2
  refine ⟨⟨hcos, hneg, hzero, hsin, hcos, hzero, hzero, hzero, hone⟩, rfl, hneg', ?_, ?_, hzero',
    hzero', hone'⟩
  · change value (c.cos angle) ^ 2 + value (c.sin angle) ^ 2 ≤ _
    linarith
  · change |value (Float.ofInt 0)| + |value (Float.ofInt 0)| ≤ 0
    rw [hzero', abs_zero, add_zero]

theorem move_advance {length : Float} (h : length.isFinite = true) :
    Move |value length| (@advance Float c.scalar length) := by
  obtain ⟨hzero, hzero'⟩ := ofInt_zero
  obtain ⟨hone, hone'⟩ := ofInt_one
  obtain ⟨hneg, hneg'⟩ := neg_finite h
  refine ⟨⟨hone, hzero, hzero, hzero, hone, hneg, hzero, hzero, hone⟩, rfl, ?_, ?_, ?_, hzero',
    hzero', hone'⟩
  · change value (Float.ofInt 0) = -value (Float.ofInt 0)
    rw [hzero', neg_zero]
  · change value (Float.ofInt 1) ^ 2 + value (Float.ofInt 0) ^ 2 ≤ _
    rw [hone', hzero']
    norm_num
  · change |value (Float.ofInt 0)| + |value (-length)| ≤ |value length|
    rw [hzero', hneg', abs_zero, zero_add, abs_neg]

end Transform

/-! ## Outlines -/

/-- A point with finite coordinates, none of them beyond a bound. -/
structure Point.Within (b : ℚ) (p : Point Float) : Prop where
  x_isFinite : p.x.isFinite = true
  y_isFinite : p.y.isFinite = true
  abs_x_le : |value p.x| ≤ b
  abs_y_le : |value p.y| ≤ b

/-- A point whose coordinates are of some size taken together. -/
structure Point.Fits (size : ℚ) (p : Point Float) : Prop where
  x_isFinite : p.x.isFinite = true
  y_isFinite : p.y.isFinite = true
  abs_add_le : |value p.x| + |value p.y| ≤ size

namespace Outline

variable {c : Circle} {size : ℚ}

/-- To close an outline adds no new point. -/
theorem mem_of_mem_ofPoints {α : Type} [Scalar α] {points : List (Point α)} {p : Point α}
    (h : p ∈ (ofPoints points).points) : p ∈ points := by
  rw [ofPoints] at h
  split at h
  · next first last hfirst hlast =>
    split at h
    · exact h
    · rcases List.mem_append.mp h with hmem | hclose
      · exact hmem
      · rw [List.mem_singleton.mp hclose]
        exact List.mem_of_mem_head? hfirst
  · exact h

theorem fits_branch {width length : Float} (hwidth : width.isFinite = true)
    (hlength : length.isFinite = true) (hsize : |value width| + |value length| ≤ size) :
    ∀ p ∈ (@branch Float c.scalar width length).points, p.Fits size := by
  obtain ⟨hzero, hzero'⟩ := ofInt_zero
  obtain ⟨hneg, hneg'⟩ := neg_finite hlength
  have hwidth' := abs_nonneg (value width)
  have hlength' := abs_nonneg (value length)
  have hcorner : ∀ x y : Float, x = Float.ofInt 0 ∨ x = width → y = Float.ofInt 0 ∨ y = -length →
      (⟨x, y⟩ : Point Float).Fits size := by
    rintro x y (rfl | rfl) (rfl | rfl)
    · exact ⟨hzero, hzero, by rw [hzero', abs_zero]; linarith⟩
    · exact ⟨hzero, hneg, by rw [hzero', hneg', abs_zero, abs_neg]; linarith⟩
    · exact ⟨hwidth, hzero, by rw [hzero', abs_zero]; linarith⟩
    · exact ⟨hwidth, hneg, by rw [hneg', abs_neg]; linarith⟩
  intro p hp
  have hmem := @mem_of_mem_ofPoints Float c.scalar _ _ hp
  simp only [List.mem_cons, List.not_mem_nil, or_false] at hmem
  rcases hmem with rfl | rfl | rfl | rfl | rfl
  · exact hcorner _ _ (.inl rfl) (.inl rfl)
  · exact hcorner _ _ (.inr rfl) (.inl rfl)
  · exact hcorner _ _ (.inr rfl) (.inr rfl)
  · exact hcorner _ _ (.inl rfl) (.inr rfl)
  · exact hcorner _ _ (.inl rfl) (.inl rfl)

theorem fits_leaf {width length : Float} (hwidth : width.isFinite = true)
    (hlength : length.isFinite = true) (hfull : leastNormal ≤ |value width|) (hroof : size ≤ roof)
    (hsize : 2 * (|value width| + 4 * |value length|) ≤ size) :
    ∀ p ∈ (@leaf Float c.scalar width length).points, p.Fits size := by
  have hlength' := abs_nonneg (value length)
  have hlow : leastNormal ≤ size := by linarith [leastNormal_pos]
  -- a corner of the kite, stretched along one axis
  have hstretch : ∀ (n : Int) (x : Float) (b : ℚ), n.natAbs ≤ 4 → x.isFinite = true →
      |(n : ℚ)| * |value x| ≤ b → b ≤ size →
      (Float.ofInt n * x).isFinite = true ∧ |value (Float.ofInt n * x)| ≤ b + size / 2 ^ 53 := by
    intro n x b hn hx hb hbsize
    obtain ⟨hfinite, hvalue⟩ := ofInt_exact (i := n) (by omega)
    rw [← abs_mul] at hb
    have hnear := mul_near hfinite hx hlow hroof (by rw [hvalue]; linarith)
    rw [hvalue] at hnear
    have herror := abs_sub_abs_le_abs_sub (value (Float.ofInt n * x)) (n * value x)
    exact ⟨hnear.isFinite, by linarith [hnear.error]⟩
  intro p hp
  have hmem := @mem_of_mem_ofPoints Float c.scalar _ _ hp
  obtain ⟨⟨i, j⟩, hij, rfl⟩ := List.mem_map.mp hmem
  have hcorner : ∀ q ∈ kite, q.1.natAbs ≤ 1 ∧ q.2.natAbs ≤ 4 := by decide
  obtain ⟨hi, hj⟩ := hcorner _ hij
  have hcast : ∀ (n : Int) (b : Nat), n.natAbs ≤ b → |(n : ℚ)| ≤ b := by
    intro n b hn
    rw [← Int.cast_abs, Int.abs_eq_natAbs]
    exact_mod_cast hn
  obtain ⟨hx, hxle⟩ := hstretch i width |value width| (hi.trans (by decide)) hwidth
    (mul_le_of_le_one_left (abs_nonneg _) (by exact_mod_cast hcast i 1 hi))
    (by linarith [leastNormal_pos])
  obtain ⟨hy, hyle⟩ := hstretch j length (4 * |value length|) hj hlength
    (by gcongr; exact_mod_cast hcast j 4 hj) (by linarith [leastNormal_pos])
  have hsum : |value (Float.ofInt i * width)| + |value (Float.ofInt j * length)| ≤ size := by
    linarith [leastNormal_pos]
  exact ⟨hx, hy, hsum⟩

end Outline

namespace Transform

variable {f : Frame} {k : Nat} {d : ℚ} {m : Transform Float} {c : Circle}

theorem Reaches.transform (h : m.Reaches f k d) (hk : k ≤ f.moves) (hd : d ≤ f.path)
    {o : Outline Float} (ho : ∀ p ∈ o.points, p.Fits f.size) :
    ∀ p ∈ (@Outline.transform Float c.scalar m o).points, p.Within (2 * f.reach) := by
  intro p hp
  obtain ⟨q, hq, rfl⟩ := List.mem_map.mp (@Outline.mem_of_mem_ofPoints Float c.scalar _ _ hp)
  obtain ⟨hx, hy, hsize⟩ := ho q hq
  obtain ⟨hx', hxle⟩ := h.horizontal.place hk hd hx hy hsize
  obtain ⟨hy', hyle⟩ := h.vertical.place hk hd hx hy hsize
  exact ⟨hx', hy', hxle, hyle⟩

end Transform

/-! ## Drawings -/

namespace Command

/-- How often a command moves the transform. -/
def moves : Command Float → Nat
  | .branch _ _ _ => 1
  | .rotate _ => 1
  | _ => 0

/-- How far a command moves the transform. -/
def stride : Command Float → ℚ
  | .branch _ length _ => |value length|
  | _ => 0

/-- How far the outline of a command reaches. The tip of a leaf is four lengths away, and
twice that leaves room for the rounding of its corners. -/
def size : Command Float → ℚ
  | .branch width length _ => |value width| + |value length|
  | .leaf width length _ _ => 2 * (|value width| + 4 * |value length|)
  | _ => 0

/-- A command whose numbers are finite, and the width of a leaf of full width. -/
def Regular : Command Float → Prop
  | .branch width length _ => width.isFinite = true ∧ length.isFinite = true
  | .rotate angle => angle.isFinite = true
  | .leaf width length _ alpha =>
    (width.isFinite = true ∧ length.isFinite = true ∧ alpha.isFinite = true) ∧
      leastNormal ≤ |value width|
  | .push => True
  | .pop => True

theorem stride_nonneg (command : Command Float) : 0 ≤ command.stride := by
  cases command with
  | branch width length color => exact abs_nonneg _
  | _ => exact le_refl 0

end Command

/-- How often some commands move the transform. -/
def moveCount (commands : List (Command Float)) : Nat := (commands.map Command.moves).sum

/-- How far some commands move the transform, all ways together. -/
def pathLength (commands : List (Command Float)) : ℚ := (commands.map Command.stride).sum

/-- How far the outlines of some commands reach. -/
def outlineSize (commands : List (Command Float)) : ℚ :=
  (commands.map Command.size).foldr max 0

/-- How far the drawing of some commands may reach on a surface. -/
def drawingReach (commands : List (Command Float)) (surface : Surface Float) : ℚ :=
  slack ^ moveCount commands * (1 + |value surface.width| + |value surface.height| +
    pathLength commands + outlineSize commands)

section Measures

variable {commands : List (Command Float)}

@[simp] theorem moveCount_cons (command : Command Float) (commands : List (Command Float)) :
    moveCount (command :: commands) = command.moves + moveCount commands := by
  rw [moveCount, List.map_cons, List.sum_cons]
  rfl

@[simp] theorem pathLength_cons (command : Command Float) (commands : List (Command Float)) :
    pathLength (command :: commands) = command.stride + pathLength commands := by
  rw [pathLength, List.map_cons, List.sum_cons]
  rfl

theorem pathLength_nonneg (commands : List (Command Float)) : 0 ≤ pathLength commands :=
  List.sum_nonneg fun _ h => by
    obtain ⟨command, -, rfl⟩ := List.mem_map.mp h
    exact command.stride_nonneg

@[simp] theorem outlineSize_cons (command : Command Float) (commands : List (Command Float)) :
    outlineSize (command :: commands) = max command.size (outlineSize commands) := rfl

theorem outlineSize_nonneg (commands : List (Command Float)) : 0 ≤ outlineSize commands := by
  induction commands with
  | nil => exact le_refl 0
  | cons command commands ih =>
    rw [outlineSize_cons]
    exact le_max_of_le_right ih

theorem pathLength_le {stride : ℚ} (h : ∀ c ∈ commands, c.stride ≤ c.moves * stride) :
    pathLength commands ≤ moveCount commands * stride := by
  induction commands with
  | nil => simp [pathLength, moveCount]
  | cons command commands ih =>
    obtain ⟨hfirst, hrest⟩ := List.forall_mem_cons.mp h
    rw [pathLength_cons, moveCount_cons, Nat.cast_add, add_mul]
    exact add_le_add hfirst (ih hrest)

theorem outlineSize_le {size : ℚ} (hsize : 0 ≤ size) (h : ∀ c ∈ commands, c.size ≤ size) :
    outlineSize commands ≤ size := by
  induction commands with
  | nil => exact hsize
  | cons command commands ih =>
    obtain ⟨hfirst, hrest⟩ := List.forall_mem_cons.mp h
    rw [outlineSize_cons]
    exact max_le hfirst (ih hrest)

/-- A drawing reaches no farther than one with as many moves, all of them as long, and an
outline as large. -/
theorem drawingReach_le {n : Nat} {stride size : ℚ} (hn : moveCount commands ≤ n)
    (hstride : 0 ≤ stride) (hsize : 0 ≤ size)
    (h : ∀ c ∈ commands, c.stride ≤ c.moves * stride ∧ c.size ≤ size) (surface : Surface Float) :
    drawingReach commands surface ≤ slack ^ n *
      (1 + |value surface.width| + |value surface.height| + n * stride + size) := by
  have hpath : pathLength commands ≤ n * stride := by
    have hmoves : (moveCount commands : ℚ) ≤ n := by exact_mod_cast hn
    exact (pathLength_le fun c hc => (h c hc).1).trans (by gcongr)
  have houtline := outlineSize_le hsize fun c hc => (h c hc).2
  have hpath0 := pathLength_nonneg commands
  have houtline0 := outlineSize_nonneg commands
  have hslack := one_le_slack
  unfold drawingReach
  gcongr

end Measures

/-- The frame of a drawing whose reach is far from the end of the format. -/
def Frame.ofDrawing (commands : List (Command Float)) (surface : Surface Float)
    (h : drawingReach commands surface ≤ roof / 16) : Frame where
  start := 1 + |value surface.width| + |value surface.height|
  path := pathLength commands
  size := outlineSize commands
  moves := moveCount commands
  one_le_start := by
    linarith [abs_nonneg (value surface.width), abs_nonneg (value surface.height)]
  path_nonneg := pathLength_nonneg commands
  size_nonneg := outlineSize_nonneg commands
  spread_le := h

/-- A canvas after some moves, which went so far together, all within a frame. -/
structure Canvas.Within (f : Frame) (k : Nat) (d : ℚ) (canvas : Canvas Float) : Prop where
  transform : canvas.transform.Reaches f k d
  saved : ∀ m ∈ canvas.saved, m.Reaches f k d
  shapes : ∀ s ∈ canvas.shapes.toList, s.alpha.isFinite = true ∧
    ∀ p ∈ s.outline.points, p.Within (2 * f.reach)

namespace Canvas

variable {f : Frame} {k : Nat} {d : ℚ} {canvas : Canvas Float} {c : Circle}

theorem Within.mono {l : Nat} {d' : ℚ} (h : canvas.Within f k d) (hl : k ≤ l) (hd : d ≤ d') :
    canvas.Within f l d' :=
  ⟨h.transform.mono hl hd, fun m hm => (h.saved m hm).mono hl hd, h.shapes⟩

/-- One more shape within the frame leaves all of them within it. -/
theorem Within.shapes_push (h : canvas.Within f k d) {shape : Shape Float}
    (halpha : shape.alpha.isFinite = true)
    (hpoints : ∀ p ∈ shape.outline.points, p.Within (2 * f.reach)) :
    ∀ s ∈ (canvas.shapes.push shape).toList, s.alpha.isFinite = true ∧
      ∀ p ∈ s.outline.points, p.Within (2 * f.reach) := by
  rw [Array.toList_push]
  exact List.forall_mem_append.mpr ⟨h.shapes, List.forall_mem_singleton.mpr ⟨halpha, hpoints⟩⟩

/-- A pop returns to a transform of no more moves, or changes nothing. -/
theorem Within.pop (h : canvas.Within f k d) (c : Circle) :
    (@Canvas.draw Float c.scalar canvas .pop).Within f k d := by
  cases hsaved : canvas.saved with
  | nil =>
    have hsame : @Canvas.draw Float c.scalar canvas .pop = canvas := by
      unfold Canvas.draw
      rw [hsaved]
    rw [hsame]
    exact h
  | cons m rest =>
    have hback : @Canvas.draw Float c.scalar canvas .pop =
        { canvas with transform := m, saved := rest } := by
      unfold Canvas.draw
      rw [hsaved]
    obtain ⟨hm, hrest⟩ := List.forall_mem_cons.mp (hsaved ▸ h.saved)
    rw [hback]
    exact ⟨hm, hrest, h.shapes⟩

/-- **One command** keeps within the frame, as long as it is no larger and there is room
for its move. -/
theorem Within.draw (h : canvas.Within f k d) (hc : c.Sound) {command : Command Float}
    (hregular : command.Regular) (hsize : command.size ≤ f.size) (hk : k + command.moves ≤ f.moves)
    (hd : d + command.stride ≤ f.path) :
    (@Canvas.draw Float c.scalar canvas command).Within f (k + command.moves)
      (d + command.stride) := by
  have hhere := h.mono (Nat.le_add_right k command.moves)
    (le_add_of_nonneg_right command.stride_nonneg)
  have hd' : d ≤ f.path := (le_add_of_nonneg_right command.stride_nonneg).trans hd
  -- only a branch and a turn move the transform
  cases command with
  | branch width length color =>
    obtain ⟨hwidth, hlength⟩ := hregular
    exact ⟨h.transform.mul (Transform.move_advance hlength) hk hd, hhere.saved,
      h.shapes_push ofInt_one.1 (h.transform.transform (Nat.le_of_succ_le hk) hd'
        (Outline.fits_branch hwidth hlength hsize))⟩
  | rotate angle =>
    exact ⟨h.transform.mul (Transform.move_rotate hc hregular) hk hd, hhere.saved, h.shapes⟩
  | push =>
    exact ⟨hhere.transform, List.forall_mem_cons.mpr ⟨hhere.transform, hhere.saved⟩, h.shapes⟩
  | pop => exact hhere.pop c
  | leaf width length color alpha =>
    obtain ⟨⟨hwidth, hlength, halpha⟩, hfull⟩ := hregular
    exact ⟨hhere.transform, hhere.saved, h.shapes_push halpha (h.transform.transform hk hd'
      (Outline.fits_leaf hwidth hlength hfull f.size_le_roof hsize))⟩

/-- All commands keep within the frame, as long as none is too large and there is room for
their moves. -/
theorem Within.replay (hc : c.Sound) {commands : List (Command Float)} :
    ∀ {k : Nat} {d : ℚ} {canvas : Canvas Float}, canvas.Within f k d →
      (∀ command ∈ commands, command.Regular) → outlineSize commands ≤ f.size →
      k + moveCount commands ≤ f.moves → d + pathLength commands ≤ f.path →
      (@Canvas.replay Float c.scalar canvas commands).Within f (k + moveCount commands)
        (d + pathLength commands) := by
  induction commands with
  | nil =>
    intro k d canvas h _ _ _ _
    exact h.mono (Nat.le_add_right k _) (le_add_of_nonneg_right (pathLength_nonneg _))
  | cons command commands ih =>
    intro k d canvas h hregular hsize hk hd
    obtain ⟨hfirst, hrest⟩ := List.forall_mem_cons.mp hregular
    rw [outlineSize_cons, max_le_iff] at hsize
    rw [moveCount_cons, ← Nat.add_assoc] at hk ⊢
    rw [pathLength_cons, ← add_assoc] at hd ⊢
    have hnext := h.draw hc hfirst hsize.1 (Nat.le_of_add_right_le hk)
      ((le_add_of_nonneg_right (pathLength_nonneg _)).trans hd)
    exact ih hnext hrest hsize.2 hk hd

/-- A canvas starts in the frame. -/
theorem within_start (c : Circle) {surface : Surface Float}
    (hwidth : surface.width.isFinite = true) (hheight : surface.height.isFinite = true)
    (hstart : f.start = 1 + |value surface.width| + |value surface.height|) :
    (@Canvas.start Float c.scalar surface).Within f 0 0 := by
  obtain ⟨hzero, hzero'⟩ := ofInt_zero
  obtain ⟨hone, hone'⟩ := ofInt_one
  have htwo : value (Float.ofInt 2) = 2 := by
    simpa using (ofInt_exact (i := 2) (by decide)).2
  have hwidth0 := abs_nonneg (value surface.width)
  have hheight0 := abs_nonneg (value surface.height)
  have hshift : f.shift 0 0 = 1 + |value surface.width| + |value surface.height| := by
    rw [Frame.shift, pow_zero, one_mul, add_zero, hstart]
  -- the middle of the lower edge
  have hroof := f.spread_le_roof (Nat.zero_le _) le_rfl f.path_nonneg
  have hspread := f.shift_le_spread 0 0
  have hhalf : |value surface.width / value (Float.ofInt 2)| = |value surface.width| / 2 := by
    rw [htwo, abs_div, abs_two]
  have hmiddle := div_near (A := 1 + |value surface.width|) hwidth rfl
    (by rw [htwo]; exact two_ne_zero) (by linarith [leastNormal_le_one]) (by linarith)
    (by linarith)
  have hxt : |value (surface.width / Float.ofInt 2)| ≤ f.shift 0 0 := by
    have herror := abs_sub_abs_le_abs_sub (value (surface.width / Float.ofInt 2))
      (value surface.width / value (Float.ofInt 2))
    linarith [hmiddle.error]
  have hyt : |value surface.height| ≤ f.shift 0 0 := by linarith
  refine ⟨⟨⟨hone, hzero, hmiddle.isFinite, le_rfl, ?_, hxt⟩,
    ⟨hzero, hone, hheight, le_rfl, ?_, hyt⟩⟩, nofun, nofun⟩
  · change value (Float.ofInt 1) ^ 2 + value (Float.ofInt 0) ^ 2 ≤ _
    rw [hone', hzero']
    norm_num
  · change value (Float.ofInt 0) ^ 2 + value (Float.ofInt 1) ^ 2 ≤ _
    rw [hone', hzero']
    norm_num

end Canvas

/-- **What is drawn keeps within reach**: no coordinate is beyond twice the reach of the
drawing, as long as that is far from the end of the format. -/
theorem paint_within_reach {c : Circle} (hc : c.Sound) {commands : List (Command Float)}
    {surface : Surface Float} (hregular : ∀ command ∈ commands, command.Regular)
    (hwidth : surface.width.isFinite = true) (hheight : surface.height.isFinite = true)
    (hreach : drawingReach commands surface ≤ roof / 16) :
    ∀ s ∈ @paint Float c.scalar commands surface, s.alpha.isFinite = true ∧
      ∀ p ∈ s.outline.points, p.Within (2 * drawingReach commands surface) := by
  let f := Frame.ofDrawing commands surface hreach
  have hstart := Canvas.within_start (f := f) c hwidth hheight rfl
  have hdrawn := hstart.replay hc hregular (le_refl f.size) (Nat.zero_add _).le (zero_add _).le
  exact hdrawn.shapes

end PlantGrammar
