import PlantGrammar.Geometry.Transform
import PlantGrammar.Proofs.Numeric.Arithmetic

/-!
# Frames

Transforms in double precision are rounded at every step, so they are no longer exact
motions: they stretch the plane a little. A frame bounds what may happen: after some moves
a row of a transform stretches by `slack` once per move at most, and shifts as far as the
moves have gone. As long as the frame stays below the greatest numbers, no entry overflows
and no point that is placed does.
-/

namespace PlantGrammar

open Numeric

/-! ## Sums of products -/

namespace Numeric

/-- No leg of a right triangle is longer than its third side. -/
theorem abs_le_of_sq_add_sq_le {u v h : ℚ} (hh : 0 ≤ h) (hsum : u ^ 2 + v ^ 2 ≤ h ^ 2) :
    |u| ≤ h ∧ |v| ≤ h :=
  ⟨abs_le_of_sq_le_sq (by linarith [sq_nonneg v]) hh,
    abs_le_of_sq_le_sq (by linarith [sq_nonneg u]) hh⟩

/-- Two products and a third summand, each within a bound. -/
theorem sum_near {a b x y w : Float} {A : ℚ} (ha : a.isFinite = true) (hb : b.isFinite = true)
    (hx : x.isFinite = true) (hy : y.isFinite = true) (hw : w.isFinite = true)
    (hA : leastNormal ≤ A) (hA' : 4 * A ≤ roof) (hax : |value a * value x| ≤ A)
    (hby : |value b * value y| ≤ A) (hwA : |value w| ≤ A) :
    (a * x + b * y + w).isFinite = true ∧
      |value (a * x + b * y + w) - (value a * value x + value b * value y + value w)| ≤
        9 * A / 2 ^ 53 := by
  have hA0 : 0 < A := lt_of_lt_of_le leastNormal_pos hA
  have hfirst := mul_near ha hx hA (by linarith) hax
  have hsecond := mul_near hb hy hA (by linarith) hby
  obtain ⟨hax, hax'⟩ := abs_le.mp hax
  obtain ⟨hby, hby'⟩ := abs_le.mp hby
  obtain ⟨hwA, hwA'⟩ := abs_le.mp hwA
  obtain ⟨hf, hf'⟩ := abs_le.mp hfirst.error
  obtain ⟨hs, hs'⟩ := abs_le.mp hsecond.error
  have hboth := add_near (A := 3 * A) hfirst.isFinite hsecond.isFinite (by linarith)
    (by linarith) (abs_le.mpr ⟨by linarith, by linarith⟩)
  obtain ⟨hb, hb'⟩ := abs_le.mp hboth.error
  have hall := add_near (A := 4 * A) hboth.isFinite hw (by linarith) hA'
    (abs_le.mpr ⟨by linarith, by linarith⟩)
  obtain ⟨hl, hl'⟩ := abs_le.mp hall.error
  exact ⟨hall.isFinite, abs_le.mpr ⟨by linarith, by linarith⟩⟩

/-- A row times a column. -/
theorem dot_near {a b t x y z : Float} {A : ℚ} (ha : a.isFinite = true)
    (hb : b.isFinite = true) (ht : t.isFinite = true) (hx : x.isFinite = true)
    (hy : y.isFinite = true) (hz : z.isFinite = true) (hA : leastNormal ≤ A)
    (hA' : 8 * A ≤ roof) (hax : |value a * value x| ≤ A) (hby : |value b * value y| ≤ A)
    (htz : |value t * value z| ≤ A) :
    (a * x + b * y + t * z).isFinite = true ∧
      |value (a * x + b * y + t * z) -
        (value a * value x + value b * value y + value t * value z)| ≤ A / 2 ^ 48 := by
  have hA0 : 0 < A := lt_of_lt_of_le leastNormal_pos hA
  have hlast := mul_near ht hz hA (by linarith) htz
  obtain ⟨htz, htz'⟩ := abs_le.mp htz
  obtain ⟨hl, hl'⟩ := abs_le.mp hlast.error
  obtain ⟨hfinite, hsum⟩ := sum_near (A := 2 * A) ha hb hx hy hlast.isFinite (by linarith)
    (by linarith) (by linarith) (by linarith) (abs_le.mpr ⟨by linarith, by linarith⟩)
  obtain ⟨hs, hs'⟩ := abs_le.mp hsum
  exact ⟨hfinite, abs_le.mpr ⟨by linarith, by linarith⟩⟩

end Numeric

/-! ## Frames -/

/-- How much a move may stretch. -/
def slack : ℚ := 1 + 1 / 2 ^ 44

theorem one_le_slack : 1 ≤ slack := by
  norm_num [slack]

/-- The slack leaves room for what rounding adds. -/
theorem le_mul_slack {A : ℚ} (hA : 0 ≤ A) : A + A / 2 ^ 48 ≤ A * slack := by
  rw [slack]
  linarith

theorem one_le_slack_pow (k : Nat) : 1 ≤ slack ^ k := one_le_pow₀ one_le_slack

/-- Bounds of a drawing that do not come near the end of the format. -/
structure Frame where
  /-- How far from the origin the drawing starts. -/
  start : ℚ
  /-- How far all moves go together. -/
  path : ℚ
  /-- How far an outline reaches. -/
  size : ℚ
  /-- The number of moves. -/
  moves : Nat
  one_le_start : 1 ≤ start
  path_nonneg : 0 ≤ path
  size_nonneg : 0 ≤ size
  spread_le : slack ^ moves * (start + path + size) ≤ roof / 16

namespace Frame

/-- How far a drawing may reach after some moves, which went so far together. -/
def spread (f : Frame) (k : Nat) (d : ℚ) : ℚ := slack ^ k * (f.start + d + f.size)

/-- How far the whole drawing may reach. -/
def reach (f : Frame) : ℚ := f.spread f.moves f.path

variable {f : Frame} {k l : Nat} {d d' : ℚ}

theorem start_pos (f : Frame) : 0 < f.start := lt_of_lt_of_le one_pos f.one_le_start

theorem spread_mono (f : Frame) (hk : k ≤ l) (hd0 : 0 ≤ d) (hd : d ≤ d') :
    f.spread k d ≤ f.spread l d' := by
  have hstart := f.start_pos
  have hsize := f.size_nonneg
  have hslack := one_le_slack
  unfold spread
  gcongr

/-- How far the origin may have gone after some moves. -/
def shift (f : Frame) (k : Nat) (d : ℚ) : ℚ := slack ^ k * (f.start + d)

theorem shift_mono (f : Frame) (hk : k ≤ l) (hd0 : 0 ≤ d) (hd : d ≤ d') :
    f.shift k d ≤ f.shift l d' := by
  have hstart := f.start_pos
  have hslack := one_le_slack
  unfold shift
  gcongr

theorem slack_pow_le_shift (f : Frame) (k : Nat) (hd : 0 ≤ d) : slack ^ k ≤ f.shift k d :=
  le_mul_of_one_le_right (by linarith [one_le_slack_pow k]) (by linarith [f.one_le_start])

theorem one_le_shift (f : Frame) (k : Nat) (hd : 0 ≤ d) : 1 ≤ f.shift k d :=
  (one_le_slack_pow k).trans (f.slack_pow_le_shift k hd)

/-- Each move adds how far it goes, and what rounding makes of it. -/
theorem shift_succ (f : Frame) (k : Nat) (d stride : ℚ) :
    f.shift (k + 1) (d + stride) = (f.shift k d + slack ^ k * stride) * slack := by
  unfold shift
  ring

theorem shift_add_size (f : Frame) (k : Nat) (d : ℚ) :
    f.spread k d = f.shift k d + slack ^ k * f.size := by
  unfold spread shift
  ring

theorem shift_le_spread (f : Frame) (k : Nat) (d : ℚ) : f.shift k d ≤ f.spread k d := by
  have hsize : 0 ≤ slack ^ k * f.size :=
    mul_nonneg (by linarith [one_le_slack_pow k]) f.size_nonneg
  linarith [f.shift_add_size k d]

theorem spread_le_roof (hk : k ≤ f.moves) (hd0 : 0 ≤ d) (hd : d ≤ f.path) :
    16 * f.spread k d ≤ roof := by
  have hmono := f.spread_mono hk hd0 hd
  have hreach : f.reach ≤ roof / 16 := f.spread_le
  rw [reach] at hreach
  linarith

theorem size_le_roof (f : Frame) : f.size ≤ roof := by
  have hspread := f.spread_le_roof (Nat.zero_le _) le_rfl f.path_nonneg
  rw [spread, pow_zero, one_mul, add_zero] at hspread
  linarith [f.start_pos, f.size_nonneg]

end Frame

/-! ## Rows of transforms -/

/-- A row of a transform after some moves: how much it stretches, and how far it shifts. -/
structure Row (f : Frame) (k : Nat) (d : ℚ) (a b t : Float) : Prop where
  a_isFinite : a.isFinite = true
  b_isFinite : b.isFinite = true
  t_isFinite : t.isFinite = true
  nonneg : 0 ≤ d
  linear : value a ^ 2 + value b ^ 2 ≤ (slack ^ k) ^ 2
  offset : |value t| ≤ f.shift k d

namespace Row

variable {f : Frame} {k : Nat} {d : ℚ} {a b t : Float}

theorem abs_a_le (h : Row f k d a b t) : |value a| ≤ slack ^ k :=
  (abs_le_of_sq_add_sq_le (by linarith [one_le_slack_pow k]) h.linear).1

theorem abs_b_le (h : Row f k d a b t) : |value b| ≤ slack ^ k :=
  (abs_le_of_sq_add_sq_le (by linarith [one_le_slack_pow k]) h.linear).2

end Row

/-- What a single move is but for rounding: a turn, followed by a step of some length. -/
structure Move (stride : ℚ) (n : Transform Float) : Prop where
  isFinite : n.xx.isFinite = true ∧ n.xy.isFinite = true ∧ n.xt.isFinite = true ∧
    n.yx.isFinite = true ∧ n.yy.isFinite = true ∧ n.yt.isFinite = true ∧
    n.tx.isFinite = true ∧ n.ty.isFinite = true ∧ n.tt.isFinite = true
  yy_eq : value n.yy = value n.xx
  xy_eq : value n.xy = -value n.yx
  turns : value n.xx ^ 2 + value n.yx ^ 2 ≤ 1 + 1 / 2 ^ 50
  steps : |value n.xt| + |value n.yt| ≤ stride
  tx_eq : value n.tx = 0
  ty_eq : value n.ty = 0
  tt_eq : value n.tt = 1

theorem Move.stride_nonneg {stride : ℚ} {n : Transform Float} (h : Move stride n) : 0 ≤ stride :=
  (add_nonneg (abs_nonneg _) (abs_nonneg _)).trans h.steps

namespace Row

variable {f : Frame} {k : Nat} {d stride : ℚ} {a b t : Float} {n : Transform Float}

/-- A turn that is rounded hardly stretches a row. -/
theorem linear_turn {h u v c s p q : ℚ} (hh : 1 ≤ h) (hrow : u ^ 2 + v ^ 2 ≤ h ^ 2)
    (hturn : c ^ 2 + s ^ 2 ≤ 1 + 1 / 2 ^ 50) (hp : |p - (u * c + v * s)| ≤ h / 2 ^ 47)
    (hq : |q - (v * c - u * s)| ≤ h / 2 ^ 47) : p ^ 2 + q ^ 2 ≤ (h * slack) ^ 2 := by
  -- what is exact first: the squares of row and turn multiply
  have hexact : (u * c + v * s) ^ 2 + (v * c - u * s) ^ 2 ≤ h ^ 2 * (1 + 1 / 2 ^ 50) := by
    calc (u * c + v * s) ^ 2 + (v * c - u * s) ^ 2 = (u ^ 2 + v ^ 2) * (c ^ 2 + s ^ 2) := by ring
      _ ≤ h ^ 2 * (1 + 1 / 2 ^ 50) := by gcongr
  -- then the errors `d` and `e` of the two entries, which enter once by products with them
  obtain ⟨d, hd⟩ : ∃ d, p = u * c + v * s + d := ⟨p - (u * c + v * s), by ring⟩
  obtain ⟨e, he⟩ : ∃ e, q = v * c - u * s + e := ⟨q - (v * c - u * s), by ring⟩
  generalize u * c + v * s = x at *
  generalize v * c - u * s = y at *
  subst hd he
  rw [add_sub_cancel_left] at hp hq
  obtain ⟨hx, hy⟩ : |x| ≤ 2 * h ∧ |y| ≤ 2 * h := by
    refine abs_le_of_sq_add_sq_le (by linarith) (hexact.trans ?_)
    calc h ^ 2 * (1 + 1 / 2 ^ 50) ≤ h ^ 2 * 2 ^ 2 := by gcongr; norm_num
      _ = (2 * h) ^ 2 := by ring
  have hcross : ∀ r t : ℚ, |r| ≤ 2 * h → |t| ≤ h / 2 ^ 47 → r * t ≤ 2 * h * (h / 2 ^ 47) := by
    intro r t hr ht
    calc r * t ≤ |r * t| := le_abs_self _
      _ = |r| * |t| := abs_mul r t
      _ ≤ 2 * h * (h / 2 ^ 47) := by gcongr
  have hxd := hcross x d hx hp
  have hye := hcross y e hy hq
  have hdd : d ^ 2 ≤ (h / 2 ^ 47) ^ 2 := sq_le_sq' (abs_le.mp hp).1 (abs_le.mp hp).2
  have hee : e ^ 2 ≤ (h / 2 ^ 47) ^ 2 := sq_le_sq' (abs_le.mp hq).1 (abs_le.mp hq).2
  calc (x + d) ^ 2 + (y + e) ^ 2 =
        x ^ 2 + y ^ 2 + 2 * (x * d) + 2 * (y * e) + d ^ 2 + e ^ 2 := by ring
    _ ≤ h ^ 2 * (1 + 1 / 2 ^ 50) + 2 * (2 * h * (h / 2 ^ 47)) + 2 * (2 * h * (h / 2 ^ 47)) +
        (h / 2 ^ 47) ^ 2 + (h / 2 ^ 47) ^ 2 := by linarith
    _ = h ^ 2 * (1 + 1 / 2 ^ 50 + 8 / 2 ^ 47 + 2 / 2 ^ 94) := by ring
    _ ≤ h ^ 2 * slack ^ 2 := by gcongr; norm_num [slack]
    _ = (h * slack) ^ 2 := by ring

/-- A factor of the row stretches by the slack at most. -/
theorem abs_mul_le_slack {u v w : ℚ} (hu : |u| ≤ slack ^ k) (hv : |v| ≤ w) :
    |u * v| ≤ slack ^ k * w := by
  have hpos := (abs_nonneg u).trans hu
  calc |u * v| = |u| * |v| := abs_mul u v
    _ ≤ slack ^ k * w := by gcongr

/-- Where exact coordinates land along a row. -/
theorem abs_combination_le (h : Row f k d a b t) (u v : ℚ) :
    |value a * u + value b * v + value t| ≤ slack ^ k * (|u| + |v|) + f.shift k d := by
  calc |value a * u + value b * v + value t| ≤ |value a * u| + |value b * v| + |value t| :=
        abs_add_three _ _ _
    _ ≤ slack ^ k * |u| + slack ^ k * |v| + f.shift k d := by
        gcongr
        · exact abs_mul_le_slack h.abs_a_le le_rfl
        · exact abs_mul_le_slack h.abs_b_le le_rfl
        · exact h.offset
    _ = slack ^ k * (|u| + |v|) + f.shift k d := by ring

theorem mul_linear (h : Row f k d a b t) (hn : Move stride n) (hk : k < f.moves)
    (hd : d ≤ f.path) :
    ((a * n.xx + b * n.yx + t * n.tx).isFinite = true ∧
      (a * n.xy + b * n.yy + t * n.ty).isFinite = true) ∧
      value (a * n.xx + b * n.yx + t * n.tx) ^ 2 + value (a * n.xy + b * n.yy + t * n.ty) ^ 2 ≤
        (slack ^ (k + 1)) ^ 2 := by
  obtain ⟨hxx, hxy, -, hyx, hyy, -, htx, hty, -⟩ := hn.isFinite
  have hh := one_le_slack_pow k
  obtain ⟨hcos, hsin⟩ : |value n.xx| ≤ 2 ∧ |value n.yx| ≤ 2 :=
    abs_le_of_sq_add_sq_le two_pos.le (hn.turns.trans (by norm_num))
  have hlow : leastNormal ≤ 2 * slack ^ k := by linarith [leastNormal_le_one]
  have hhigh : 8 * (2 * slack ^ k) ≤ roof := by
    linarith [f.slack_pow_le_shift k h.nonneg, f.shift_le_spread k d,
      f.spread_le_roof hk.le h.nonneg hd]
  have hproduct : ∀ u v : ℚ, |u| ≤ slack ^ k → |v| ≤ 2 → |u * v| ≤ 2 * slack ^ k :=
    fun u v hu hv => (abs_mul_le_slack hu hv).trans_eq (mul_comm _ _)
  -- the last row of a move is exact, so the offset of this row adds nothing
  have hnone : ∀ z, value z = 0 → |value t * value z| ≤ 2 * slack ^ k := by
    intro z hz
    rw [hz, mul_zero, abs_zero]
    linarith
  obtain ⟨hpFinite, hp⟩ := dot_near h.a_isFinite h.b_isFinite h.t_isFinite hxx hyx htx hlow hhigh
    (hproduct _ _ h.abs_a_le hcos) (hproduct _ _ h.abs_b_le hsin) (hnone _ hn.tx_eq)
  obtain ⟨hqFinite, hq⟩ := dot_near h.a_isFinite h.b_isFinite h.t_isFinite hxy hyy hty hlow hhigh
    (hproduct _ _ h.abs_a_le (by rwa [hn.xy_eq, abs_neg]))
    (hproduct _ _ h.abs_b_le (by rwa [hn.yy_eq])) (hnone _ hn.ty_eq)
  rw [hn.tx_eq, mul_zero, add_zero] at hp
  rw [hn.xy_eq, hn.yy_eq, hn.ty_eq, mul_zero, add_zero, mul_neg, neg_add_eq_sub] at hq
  refine ⟨⟨hpFinite, hqFinite⟩, ?_⟩
  rw [pow_succ slack k]
  exact linear_turn hh h.linear hn.turns (by linarith) (by linarith)

theorem mul_offset (h : Row f k d a b t) (hn : Move stride n) (hk : k < f.moves)
    (hd : d + stride ≤ f.path) :
    (a * n.xt + b * n.yt + t * n.tt).isFinite = true ∧
      |value (a * n.xt + b * n.yt + t * n.tt)| ≤ f.shift (k + 1) (d + stride) := by
  obtain ⟨-, -, hxt, -, -, hyt, -, -, htt⟩ := hn.isFinite
  have hh := one_le_slack_pow k
  have hstride := hn.stride_nonneg
  have hshift := f.one_le_shift k h.nonneg
  have hmoved : 0 ≤ slack ^ k * stride := mul_nonneg (by linarith) hstride
  have hlow : leastNormal ≤ f.shift k d + slack ^ k * stride := by
    linarith [leastNormal_le_one]
  have hhigh : 8 * (f.shift k d + slack ^ k * stride) ≤ roof := by
    have hsucc : f.shift k d + slack ^ k * stride ≤ f.shift (k + 1) (d + stride) := by
      rw [f.shift_succ]
      exact le_mul_of_one_le_right (by linarith) one_le_slack
    have hnext : 0 ≤ d + stride := add_nonneg h.nonneg hstride
    linarith [f.shift_le_spread (k + 1) (d + stride), f.spread_le_roof hk hnext hd,
      f.one_le_shift (k + 1) hnext]
  have hxtLe : |value n.xt| ≤ stride := by linarith [hn.steps, abs_nonneg (value n.yt)]
  have hytLe : |value n.yt| ≤ stride := by linarith [hn.steps, abs_nonneg (value n.xt)]
  obtain ⟨hfinite, hsum⟩ := dot_near h.a_isFinite h.b_isFinite h.t_isFinite hxt hyt htt hlow hhigh
    ((abs_mul_le_slack h.abs_a_le hxtLe).trans (by linarith))
    ((abs_mul_le_slack h.abs_b_le hytLe).trans (by linarith))
    (by rw [hn.tt_eq, mul_one]; linarith [h.offset])
  -- the exact offset is that of the row and the step, seen along the row
  have hexact : |value a * value n.xt + value b * value n.yt + value t * value n.tt| ≤
      f.shift k d + slack ^ k * stride := by
    rw [hn.tt_eq, mul_one]
    calc |value a * value n.xt + value b * value n.yt + value t| ≤
          slack ^ k * (|value n.xt| + |value n.yt|) + f.shift k d := h.abs_combination_le _ _
      _ ≤ slack ^ k * stride + f.shift k d := by gcongr; exact hn.steps
      _ = f.shift k d + slack ^ k * stride := add_comm _ _
  refine ⟨hfinite, ?_⟩
  rw [f.shift_succ]
  have hmore := le_mul_slack (le_trans leastNormal_pos.le hlow)
  have herror := abs_sub_abs_le_abs_sub (value (a * n.xt + b * n.yt + t * n.tt))
    (value a * value n.xt + value b * value n.yt + value t * value n.tt)
  linarith

/-- **One move** of a row: it stretches by the slack, and shifts by the stride. -/
theorem mul (h : Row f k d a b t) (hn : Move stride n) (hk : k < f.moves)
    (hd : d + stride ≤ f.path) :
    Row f (k + 1) (d + stride) (a * n.xx + b * n.yx + t * n.tx)
      (a * n.xy + b * n.yy + t * n.ty) (a * n.xt + b * n.yt + t * n.tt) := by
  have hstride := hn.stride_nonneg
  obtain ⟨⟨hp, hq⟩, hlinear⟩ := h.mul_linear hn hk (by linarith)
  obtain ⟨ht, hoffset⟩ := h.mul_offset hn hk hd
  exact ⟨hp, hq, ht, add_nonneg h.nonneg hstride, hlinear, hoffset⟩

theorem mono {l : Nat} {d' : ℚ} (h : Row f k d a b t) (hl : k ≤ l) (hd : d ≤ d') :
    Row f l d' a b t := by
  have hpow : slack ^ k ≤ slack ^ l := pow_le_pow_right₀ one_le_slack hl
  have hpos := one_le_slack_pow k
  exact ⟨h.a_isFinite, h.b_isFinite, h.t_isFinite, h.nonneg.trans hd,
    h.linear.trans (by gcongr), h.offset.trans (f.shift_mono hl h.nonneg hd)⟩

/-- Where a point lands along a row. -/
theorem place {x y : Float} (h : Row f k d a b t) (hk : k ≤ f.moves) (hd : d ≤ f.path)
    (hx : x.isFinite = true) (hy : y.isFinite = true) (hsize : |value x| + |value y| ≤ f.size) :
    (a * x + b * y + t).isFinite = true ∧ |value (a * x + b * y + t)| ≤ 2 * f.reach := by
  have hh := one_le_slack_pow k
  have hspread := f.shift_add_size k d
  have hshift := f.one_le_shift k h.nonneg
  have hpos : 0 ≤ slack ^ k * f.size := mul_nonneg (by linarith) f.size_nonneg
  have hproduct : ∀ u v : ℚ, |u| ≤ slack ^ k → |v| ≤ f.size → |u * v| ≤ f.spread k d :=
    fun u v hu hv => (abs_mul_le_slack hu hv).trans (by linarith)
  obtain ⟨hfinite, hsum⟩ := sum_near (A := f.spread k d) h.a_isFinite h.b_isFinite hx hy
    h.t_isFinite (by linarith [leastNormal_le_one])
    (by linarith [f.spread_le_roof hk h.nonneg hd])
    (hproduct _ _ h.abs_a_le (by linarith [abs_nonneg (value y)]))
    (hproduct _ _ h.abs_b_le (by linarith [abs_nonneg (value x)]))
    (h.offset.trans (f.shift_le_spread k d))
  have hexact : |value a * value x + value b * value y + value t| ≤ f.spread k d := by
    calc |value a * value x + value b * value y + value t| ≤
          slack ^ k * (|value x| + |value y|) + f.shift k d := h.abs_combination_le _ _
      _ ≤ slack ^ k * f.size + f.shift k d := by gcongr
      _ = f.spread k d := by rw [hspread, add_comm]
  have herror := abs_sub_abs_le_abs_sub (value (a * x + b * y + t))
    (value a * value x + value b * value y + value t)
  have hmono : f.spread k d ≤ f.reach := f.spread_mono hk h.nonneg hd
  exact ⟨hfinite, by linarith⟩

end Row

end PlantGrammar
