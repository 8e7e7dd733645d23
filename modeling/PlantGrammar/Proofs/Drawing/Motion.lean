import Mathlib
import PlantGrammar.Proofs.Drawing.OpenPath

/-!
# Moving and turning

Read over a field, where sums and products are exact and any two functions with
`cos r * cos r + sin r * sin r = 1` serve as cosine and sine, a drawing is only moved and
turned. Where a canvas stands is the origin of its surface followed by a motion that the
commands alone decide. So on another surface the same commands paint the same shapes
elsewhere, and each shape is as large as its outline.
-/

namespace PlantGrammar

/-- A field with a cosine and a sine. -/
class Circular (K : Type) [Field K] where
  cos : K → K
  sin : K → K
  cos_mul_cos_add_sin_mul_sin : ∀ r, cos r * cos r + sin r * sin r = 1

noncomputable instance : Circular ℝ where
  cos := Real.cos
  sin := Real.sin
  cos_mul_cos_add_sin_mul_sin r := by
    rw [← sq, ← sq]
    exact Real.cos_sq_add_sin_sq r

/-- Exact arithmetic. -/
instance (priority := low) {K : Type} [Field K] [DecidableEq K] [Circular K] : Scalar K where
  toAdd := inferInstance
  toMul := inferInstance
  toNeg := inferInstance
  toDiv := inferInstance
  toBEq := inferInstance
  ofInt n := n
  cos := Circular.cos
  sin := Circular.sin

/-! ## Motions -/

namespace Transform

section

variable {K : Type} [Field K]

/-- Turns the plane by the angle with cosine `c` and sine `s`, then moves it. -/
def motion (c s x y : K) : Transform K := ⟨c, -s, x, s, c, y, 0, 0, 1⟩

/-- Neither stretches nor mirrors the plane. -/
def IsMotion (m : Transform K) : Prop := ∃ c s x y, c * c + s * s = 1 ∧ m = motion c s x y

end

end Transform

variable {K : Type} [Field K] [DecidableEq K] [Circular K]

namespace Transform

theorem unit_eq_motion : (unit : Transform K) = motion 1 0 0 0 := by
  simp [unit, motion, one, zero, Scalar.ofInt]

theorem translate_eq_motion (dx dy : K) : translate dx dy = motion 1 0 dx dy := by
  simp [translate, motion, one, zero, Scalar.ofInt]

theorem rotate_eq_motion (r : K) :
    rotate r = motion (Circular.cos r) (Circular.sin r) 0 0 := by
  simp [rotate, turn, motion, one, zero, Scalar.ofInt, Scalar.cos, Scalar.sin]

theorem mul_assoc (l m n : Transform K) : l * m * n = l * (m * n) := by
  change mul (mul l m) n = mul l (mul m n)
  simp only [mul, dot, mk.injEq]
  refine ⟨?_, ?_, ?_, ?_, ?_, ?_, ?_, ?_, ?_⟩ <;> ring

theorem motion_mul (c s x y c' s' x' y' : K) :
    motion c s x y * motion c' s' x' y' =
      motion (c * c' - s * s') (s * c' + c * s') (c * x' - s * y' + x) (s * x' + c * y' + y) := by
  change mul _ _ = _
  simp only [mul, dot, motion, mk.injEq]
  refine ⟨?_, ?_, ?_, ?_, ?_, ?_, ?_, ?_, ?_⟩ <;> ring

theorem mul_unit (m : Transform K) : m * unit = m := by
  rw [unit_eq_motion]
  change mul m _ = m
  simp only [mul, dot, motion]
  obtain ⟨⟩ := m
  simp

/-- A product from the left on can be taken from the second factor on. -/
theorem foldl_mul (steps : List (Transform K)) :
    ∀ m n : Transform K, steps.foldl (· * ·) (m * n) = m * steps.foldl (· * ·) n := by
  induction steps with
  | nil => exact fun _ _ => rfl
  | cons step steps ih =>
    intro m n
    rw [List.foldl_cons, List.foldl_cons, mul_assoc, ih]

theorem isMotion_unit : (unit : Transform K).IsMotion := ⟨1, 0, 0, 0, by ring, unit_eq_motion⟩

theorem isMotion_translate (dx dy : K) : (translate dx dy).IsMotion :=
  ⟨1, 0, dx, dy, by ring, translate_eq_motion dx dy⟩

theorem isMotion_rotate (r : K) : (rotate r).IsMotion :=
  ⟨_, _, 0, 0, Circular.cos_mul_cos_add_sin_mul_sin r, rotate_eq_motion r⟩

theorem IsMotion.mul {m n : Transform K} (hm : m.IsMotion) (hn : n.IsMotion) :
    (m * n).IsMotion := by
  obtain ⟨c, s, x, y, hcs, rfl⟩ := hm
  obtain ⟨c', s', x', y', hcs', rfl⟩ := hn
  refine ⟨_, _, _, _, ?_, motion_mul c s x y c' s' x' y'⟩
  calc (c * c' - s * s') * (c * c' - s * s') + (s * c' + c * s') * (s * c' + c * s')
      = (c * c + s * s) * (c' * c' + s' * s') := by ring
    _ = 1 := by rw [hcs, hcs', mul_one]

theorem IsMotion.foldl {steps : List (Transform K)} (h : ∀ step ∈ steps, step.IsMotion) :
    ∀ {m : Transform K}, m.IsMotion → (steps.foldl (· * ·) m).IsMotion := by
  induction steps with
  | nil => exact fun hm => hm
  | cons step steps ih =>
    intro m hm
    obtain ⟨hstep, hsteps⟩ := List.forall_mem_cons.mp h
    exact ih hsteps (hm.mul hstep)

/-! ## What a motion does to points -/

theorem apply_motion (c s x y : K) (p : Point K) :
    (motion c s x y).apply p = ⟨c * p.x - s * p.y + x, s * p.x + c * p.y + y⟩ := by
  simp only [apply, motion, neg_mul, sub_eq_add_neg]

end Transform

/-- The square of the distance between two points. -/
def distSq (p q : Point K) : K := (p.x - q.x) * (p.x - q.x) + (p.y - q.y) * (p.y - q.y)

/-- A motion keeps all distances. -/
theorem Transform.IsMotion.distSq_apply {m : Transform K} (h : m.IsMotion) (p q : Point K) :
    distSq (m.apply p) (m.apply q) = distSq p q := by
  obtain ⟨c, s, x, y, hcs, rfl⟩ := h
  rw [apply_motion, apply_motion]
  calc _ = (c * c + s * s) * distSq p q := by
        simp only [distSq]
        ring
    _ = distSq p q := by rw [hcs, one_mul]

/-- A point moved by a step. -/
def Point.shift (dx dy : K) (p : Point K) : Point K := ⟨p.x + dx, p.y + dy⟩

/-- To move what a motion leaves is to move it by a step. -/
theorem Transform.IsMotion.translate_mul_apply {m : Transform K} (h : m.IsMotion) (dx dy : K)
    (p : Point K) : (translate dx dy * m).apply p = (m.apply p).shift dx dy := by
  obtain ⟨c, s, x, y, -, rfl⟩ := h
  rw [translate_eq_motion, motion_mul, apply_motion, apply_motion, Point.shift, Point.mk.injEq]
  constructor <;> ring

theorem Point.beq_iff_eq {p q : Point K} : (p == q) = true ↔ p = q := by
  obtain ⟨x, y⟩ := p
  obtain ⟨x', y'⟩ := q
  change (x == x' && y == y') = true ↔ _
  simp

namespace Outline

/-- An outline moved by a step. -/
def shift (dx dy : K) (o : Outline K) : Outline K := ⟨o.points.map (Point.shift dx dy)⟩

/-- Two outlines of one shape and size: the points of one are those of the other, in
order, carried over by a map that keeps all distances. -/
def Congruent (o o' : Outline K) : Prop :=
  ∃ f : Point K → Point K, (∀ p q, distSq (f p) (f q) = distSq p q) ∧
    o'.points = o.points.map f

/-- An outline is closed where it ends where it begins. -/
def Closed (o : Outline K) : Prop := o.points.head? = o.points.getLast?

theorem ofPoints_eq_of_closed {points : List (Point K)}
    (h : points.head? = points.getLast?) : ofPoints points = ⟨points⟩ := by
  rw [ofPoints, ← h]
  cases hfirst : points.head? with
  | none => rfl
  | some first => exact if_pos (Point.beq_iff_eq.mpr rfl)

theorem closed_branch (width length : K) : (branch width length).Closed := by
  rw [branch, ofPoints_eq_of_closed rfl]
  rfl

/-- Points that end where they begin do so wherever they are carried. -/
theorem map_closed {α β : Type} {points : List α} (h : points.head? = points.getLast?)
    (f : α → β) : (points.map f).head? = (points.map f).getLast? := by
  rw [List.head?_map, List.getLast?_map, h]

theorem closed_leaf (width length : K) : (leaf width length).Closed := by
  rw [leaf, ofPoints_eq_of_closed (map_closed rfl _)]
  exact map_closed rfl _

/-- A closed outline is carried over point by point. -/
theorem Closed.points_transform {o : Outline K} (h : o.Closed) (m : Transform K) :
    (o.transform m).points = o.points.map m.apply := by
  rw [transform, ofPoints_eq_of_closed (map_closed h m.apply)]

theorem Closed.congruent_transform {o : Outline K} (h : o.Closed) {m : Transform K}
    (hm : m.IsMotion) : o.Congruent (o.transform m) :=
  ⟨m.apply, hm.distSq_apply, h.points_transform m⟩

theorem Closed.transform_translate_mul {o : Outline K} (h : o.Closed) {m : Transform K}
    (hm : m.IsMotion) (dx dy : K) :
    o.transform (Transform.translate dx dy * m) = (o.transform m).shift dx dy := by
  have hpoints : (o.transform (Transform.translate dx dy * m)).points =
      ((o.transform m).shift dx dy).points := by
    rw [shift, h.points_transform, h.points_transform, List.map_map]
    exact List.map_congr_left fun p _ => hm.translate_mul_apply dx dy p
  exact congrArg mk hpoints

end Outline

/-! ## Drawings -/

/-- A shape moved by a step. -/
def Shape.shift (dx dy : K) (s : Shape K) : Shape K := { s with outline := s.outline.shift dx dy }

namespace Command

/-- The outline of what a command paints, before it is moved and turned. -/
def outline? : Command K → Option (Outline K)
  | .branch width length _ => some (Outline.branch width length)
  | .leaf width length _ _ => some (Outline.leaf width length)
  | _ => none

theorem isMotion_of_step? {command : Command K} {m : Transform K}
    (h : command.step? = some m) : m.IsMotion := by
  cases command with
  | branch width length color =>
    cases h
    exact Transform.isMotion_translate _ _
  | rotate radians =>
    cases h
    exact Transform.isMotion_rotate radians
  | push => cases h
  | pop => cases h
  | leaf width length color alpha => cases h

/-- At a place moved by a step a command paints the shape moved by it. -/
theorem shape?_translate_mul {m : Transform K} (hm : m.IsMotion) (dx dy : K)
    (command : Command K) :
    command.shape? (Transform.translate dx dy * m) =
      (command.shape? m).map (Shape.shift dx dy) := by
  cases command with
  | branch width length color =>
    simp only [shape?, Option.map_some, Shape.shift,
      (Outline.closed_branch width length).transform_translate_mul hm]
  | rotate radians => rfl
  | push => rfl
  | pop => rfl
  | leaf width length color alpha =>
    simp only [shape?, Option.map_some, Shape.shift,
      (Outline.closed_leaf width length).transform_translate_mul hm]

/-- What a command paints has the shape and the size of its outline. -/
theorem congruent_shape? {m : Transform K} (hm : m.IsMotion) (command : Command K) :
    Option.Rel Outline.Congruent command.outline? ((command.shape? m).map (·.outline)) := by
  cases command with
  | branch width length color =>
    exact .some ((Outline.closed_branch width length).congruent_transform hm)
  | rotate radians => exact .none
  | push => exact .none
  | pop => exact .none
  | leaf width length color alpha =>
    exact .some ((Outline.closed_leaf width length).congruent_transform hm)

end Command

theorem isMotion_of_mem_stepsOutside {hidden : Nat → Prop} [DecidablePred hidden]
    {commands : List (Command K)} : ∀ m ∈ stepsOutside hidden commands, m.IsMotion := by
  intro m hm
  obtain ⟨⟨command, i⟩, -, hstep⟩ := List.mem_filterMap.mp hm
  by_cases hi : hidden i
  · simp [hi] at hstep
  · exact Command.isMotion_of_step? (by simpa [hi] using hstep)

/-- Commands lead on from where they start. -/
theorem place_eq_mul (m : Transform K) (commands : List (Command K)) :
    place m commands = m * place Transform.unit commands := by
  rw [place, place, ← Transform.foldl_mul, Transform.mul_unit]

theorem isMotion_place_unit (commands : List (Command K)) :
    (place Transform.unit commands).IsMotion :=
  Transform.IsMotion.foldl isMotion_of_mem_stepsOutside Transform.isMotion_unit

theorem placeBelow_eq_mul (m : Transform K) (level : Nat) (commands : List (Command K)) :
    placeBelow m level commands = m * placeBelow Transform.unit level commands := by
  rw [placeBelow, placeBelow, ← Transform.foldl_mul, Transform.mul_unit]

theorem placesBelow_eq_map (m : Transform K) (count : Nat) (commands : List (Command K)) :
    placesBelow m count commands = (placesBelow Transform.unit count commands).map (m * ·) := by
  rw [placesBelow, placesBelow, List.map_reverse, List.map_map]
  exact congrArg List.reverse
    (List.map_congr_left fun level _ => placeBelow_eq_mul m level commands)

theorem isMotion_of_mem_placesBelow_unit {count : Nat} {commands : List (Command K)} :
    ∀ m ∈ placesBelow Transform.unit count commands, m.IsMotion := by
  intro m hm
  obtain ⟨level, -, rfl⟩ := List.mem_map.mp (List.mem_reverse.mp hm)
  exact Transform.IsMotion.foldl isMotion_of_mem_stepsOutside Transform.isMotion_unit

theorem isMotion_place_origin (surface : Surface K) (commands : List (Command K)) :
    (place surface.origin commands).IsMotion :=
  Transform.IsMotion.foldl isMotion_of_mem_stepsOutside (Transform.isMotion_translate _ _)

/-- The origins of two surfaces differ by a step. -/
theorem Surface.origin_eq_translate_mul (S T : Surface K) :
    T.origin = Transform.translate (T.origin.origin.x - S.origin.origin.x)
      (T.origin.origin.y - S.origin.origin.y) * S.origin := by
  simp only [Surface.origin, Transform.origin, Transform.translate_eq_motion,
    Transform.apply_motion, Transform.motion_mul]
  congr 1 <;> ring

/-- What is painted from two places that differ by a step differs by this step. -/
theorem shape?_place_origin (S T : Surface K) (command : Command K)
    (before : List (Command K)) :
    command.shape? (place T.origin before) = (command.shape? (place S.origin before)).map
      (Shape.shift (T.origin.origin.x - S.origin.origin.x)
        (T.origin.origin.y - S.origin.origin.y)) := by
  have hplace : (place S.origin before).IsMotion := isMotion_place_origin S before
  have hmoved : place T.origin before = Transform.translate (T.origin.origin.x - S.origin.origin.x)
      (T.origin.origin.y - S.origin.origin.y) * place S.origin before := by
    rw [place_eq_mul T.origin, place_eq_mul S.origin, ← Transform.mul_assoc,
      ← S.origin_eq_translate_mul T]
  rw [hmoved, Command.shape?_translate_mul hplace]

/-- **A plant is only moved and turned**: some motions, which the commands alone decide,
lead from the origin of any surface to where a canvas stands after them and to what it
remembers. On two surfaces the same shapes are painted, moved by the step between the
origins, and each has the shape and the size of the branch or leaf it is. -/
theorem replay_moves_and_turns (commands : List (Command K)) :
    ∃ (R : Transform K) (Rs : List (Transform K)), R.IsMotion ∧ (∀ m ∈ Rs, m.IsMotion) ∧
      (∀ surface : Surface K,
        ((Canvas.start surface).replay commands).transform = surface.origin * R ∧
          ((Canvas.start surface).replay commands).saved = Rs.map (surface.origin * ·)) ∧
      (∀ S T : Surface K, paint commands T = (paint commands S).map
        (Shape.shift (T.origin.origin.x - S.origin.origin.x)
          (T.origin.origin.y - S.origin.origin.y))) ∧
      ∀ surface : Surface K, List.Forall₂ Outline.Congruent
        (commands.filterMap Command.outline?) ((paint commands surface).map (·.outline)) := by
  refine ⟨place Transform.unit commands,
    placesBelow Transform.unit (openPushes commands) commands, isMotion_place_unit commands,
    isMotion_of_mem_placesBelow_unit, fun surface => ?_, fun S T => ?_, fun surface => ?_⟩
  · have hfollows := Canvas.follows_replay surface.origin commands
    exact ⟨hfollows.transform.trans (place_eq_mul _ _),
      hfollows.saved.trans (placesBelow_eq_map _ _ _)⟩
  · rw [paint_eq_filterMap, paint_eq_filterMap, List.map_filterMap]
    exact List.filterMap_congr fun (command, i) _ => shape?_place_origin S T command _
  · have hcongruent : ∀ p q : Command K × Nat, p = q → Option.Rel Outline.Congruent p.1.outline?
        ((q.1.shape? (place surface.origin (commands.take q.2))).map (·.outline)) := by
      rintro ⟨command, i⟩ _ rfl
      exact command.congruent_shape? (isMotion_place_origin surface _)
    -- what is painted is found by position, so the outlines are looked up by it as well
    have hcommands : commands.filterMap Command.outline? =
        commands.zipIdx.filterMap (Command.outline? ∘ Prod.fst) := by
      rw [← List.filterMap_map, List.zipIdx_map_fst]
    rw [hcommands, paint_eq_filterMap, List.map_filterMap]
    exact List.rel_filterMap hcongruent (List.forall₂_refl _)

end PlantGrammar
