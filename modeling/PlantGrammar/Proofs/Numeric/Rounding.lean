import Mathlib.Algebra.Order.Field.Power
import Mathlib.Data.Int.Log
import Mathlib.Data.Rat.Floor
import Mathlib.Tactic.Positivity
import Mathlib.Tactic.Ring
import PlantGrammar.Numeric.Rounding

/-!
# Rounding respects the value

What a quotient is rounded to depends on its value alone, not on how the quotient is
written, and the value of a pattern is rounded to this pattern. Quotients far outside
of the format go to infinity and to zero.
-/

namespace PlantGrammar.Numeric

variable {num den num' den' : Nat}

/-! ## Powers with an exponent of either sign -/

/-- An integer power below a quotient, told in natural numbers. -/
theorem zpow_le_div_iff {base : Nat} (hbase : 0 < base) (hden : 0 < den) (k : Int) :
    (base : ℚ) ^ k ≤ num / den ↔ den * base ^ k.toNat ≤ num * base ^ (-k).toNat := by
  have hbase' : (base : ℚ) ≠ 0 := by exact_mod_cast hbase.ne'
  have hpos : (0 : ℚ) < base ^ (-k).toNat := by positivity
  have hsplit : (base : ℚ) ^ k * base ^ (-k).toNat = base ^ k.toNat := by
    rw [← zpow_natCast, ← zpow_natCast, ← zpow_add₀ hbase']
    congr 1
    omega
  rw [le_div_iff₀ (by exact_mod_cast hden), ← mul_le_mul_iff_left₀ hpos, mul_right_comm, hsplit,
    mul_comm]
  exact_mod_cast Iff.rfl

theorem log2_le_of_lt {m w : Nat} (h : m < 2 ^ (w + 1)) : m.log2 ≤ w := by
  rcases Nat.eq_zero_or_pos m with rfl | hpos
  · simp
  · exact Nat.le_of_lt_succ ((Nat.log2_lt (Nat.ne_of_gt hpos)).mpr h)

theorem zpow_log2_bounds {n : Nat} (hn : 0 < n) :
    (2 : ℚ) ^ (n.log2 : Int) ≤ n ∧ (n : ℚ) < 2 ^ ((n.log2 : Int) + 1) := by
  constructor
  · rw [zpow_natCast]
    exact_mod_cast Nat.log2_self_le hn.ne'
  · exact_mod_cast Nat.lt_log2_self (n := n)

/-- The logarithms of its parts tell that of a quotient but for one. -/
theorem zpow_log2_sub_bounds (hnum : 0 < num) (hden : 0 < den) :
    (2 : ℚ) ^ ((num.log2 : Int) - den.log2 - 1) ≤ num / den ∧
      (num / den : ℚ) < 2 ^ ((num.log2 : Int) - den.log2 + 1) := by
  have htwo : (2 : ℚ) ≠ 0 := two_ne_zero
  obtain ⟨hnumLow, hnumHigh⟩ := zpow_log2_bounds hnum
  obtain ⟨hdenLow, hdenHigh⟩ := zpow_log2_bounds hden
  constructor
  · rw [sub_sub, zpow_sub₀ htwo]
    exact div_le_div₀ (by positivity) hnumLow (by positivity) hdenHigh.le
  · rw [sub_add_eq_add_sub, zpow_sub₀ htwo]
    exact div_lt_div₀ hnumHigh hdenLow (by positivity) (by positivity)

/-- The binary logarithm is the one of rational numbers. -/
theorem floorLog2_eq_log (hnum : 0 < num) (hden : 0 < den) :
    floorLog2 num den = Int.log 2 ((num : ℚ) / den) := by
  let k : Int := (num.log2 : Int) - den.log2
  have hquotient : (0 : ℚ) < num / den := by positivity
  obtain ⟨hlow, hhigh⟩ := zpow_log2_sub_bounds hnum hden
  have hbelow : k - 1 ≤ Int.log 2 ((num : ℚ) / den) :=
    (Int.zpow_le_iff_le_log one_lt_two hquotient).mp hlow
  have habove : Int.log 2 ((num : ℚ) / den) < k + 1 :=
    (Int.lt_zpow_iff_log_lt one_lt_two hquotient).mp hhigh
  have htest : den * 2 ^ k.toNat ≤ num * 2 ^ (-k).toNat ↔ k ≤ Int.log 2 ((num : ℚ) / den) := by
    rw [← zpow_le_div_iff two_pos hden, Int.zpow_le_iff_le_log one_lt_two hquotient]
  change (if den * 2 ^ k.toNat ≤ num * 2 ^ (-k).toNat then k else k - 1) = _
  split
  · next h => exact le_antisymm (htest.mp h) (by omega)
  · next h => exact le_antisymm hbelow (by rw [htest] at h; omega)

/-! ## To whole numbers -/

theorem roundHalfEven_mul {c : Nat} (hc : 0 < c) :
    roundHalfEven (num * c) (den * c) = roundHalfEven num den := by
  have hbelow : 2 * (num % den * c) < den * c ↔ 2 * (num % den) < den := by
    rw [← Nat.mul_assoc, Nat.mul_lt_mul_right hc]
  have habove : den * c < 2 * (num % den * c) ↔ den < 2 * (num % den) := by
    rw [← Nat.mul_assoc, Nat.mul_lt_mul_right hc]
  simp only [roundHalfEven, Nat.mul_div_mul_right _ _ hc, Nat.mul_mod_mul_right, hbelow, habove]

/-- A whole number is left as it is. -/
theorem roundHalfEven_self_mul {c : Nat} (hc : 0 < c) : roundHalfEven (num * c) c = num := by
  simp [roundHalfEven, hc]

/-- Less than a half is nothing. -/
theorem roundHalfEven_of_lt (h : 2 * num < den) : roundHalfEven num den = 0 := by
  have hless : num < den := by omega
  rw [roundHalfEven, Nat.mod_eq_of_lt hless, Nat.div_eq_of_lt hless]
  exact if_pos h

namespace Format

variable {f : Format}

theorem hidden_pos (f : Format) : 0 < f.hidden := Nat.two_pow_pos _

/-! ## To a format -/

theorem nearest_mul {c : Nat} (hden : 0 < den) (hc : 0 < c) :
    f.nearest (num * c) (den * c) = f.nearest num den := by
  rcases Nat.eq_zero_or_pos num with rfl | hnum
  · rw [Nat.zero_mul, nearest, nearest, if_pos rfl, if_pos rfl]
  · have hlog : floorLog2 (num * c) (den * c) = floorLog2 num den := by
      have hc' : (c : ℚ) ≠ 0 := by exact_mod_cast hc.ne'
      rw [floorLog2_eq_log (Nat.mul_pos hnum hc) (Nat.mul_pos hden hc),
        floorLog2_eq_log hnum hden]
      push_cast
      rw [mul_div_mul_right _ _ hc']
    rw [nearest, nearest, if_neg (Nat.mul_pos hnum hc).ne', if_neg hnum.ne', hlog]
    simp only [Nat.mul_right_comm _ c, roundHalfEven_mul hc]

/-- Two quotients of one value are rounded to the same number. -/
theorem nearest_congr (hden : 0 < den) (hden' : 0 < den') (h : num * den' = num' * den) :
    f.nearest num den = f.nearest num' den' := by
  calc f.nearest num den = f.nearest (num * den') (den * den') := (nearest_mul hden hden').symm
    _ = f.nearest (num' * den) (den' * den) := by rw [h, Nat.mul_comm den]
    _ = f.nearest num' den' := nearest_mul hden' hden

/-! ## Values of the format -/

/-- A pattern is its significand behind the steps of `hidden` that its shift counts. -/
theorem shift_mul_hidden_add_significand (f : Format) (pattern : Nat) :
    f.shift pattern * f.hidden + f.significand pattern = pattern := by
  rw [shift, significand]
  split
  · next hsub => rw [Nat.div_eq_of_lt hsub, Nat.zero_sub, Nat.zero_mul, Nat.zero_add]
  · next hnormal =>
    have hone : 1 ≤ pattern / f.hidden :=
      (Nat.one_le_div_iff f.hidden_pos).mpr (Nat.le_of_not_lt hnormal)
    rw [← Nat.add_assoc, ← Nat.succ_mul, Nat.succ_eq_add_one, Nat.sub_add_cancel hone,
      Nat.mul_comm, Nat.div_add_mod]

theorem significand_lt (f : Format) (pattern : Nat) : f.significand pattern < 2 * f.hidden := by
  have hfraction : pattern % f.hidden < f.hidden := Nat.mod_lt _ f.hidden_pos
  rw [significand]
  split <;> omega

/-- A significand that is shifted has full width. -/
theorem hidden_le_significand {pattern : Nat} (h : 0 < f.shift pattern) :
    f.hidden ≤ f.significand pattern := by
  have hnormal : ¬ pattern < f.hidden := by
    intro hsub
    rw [shift, Nat.div_eq_of_lt hsub] at h
    exact absurd h (Nat.lt_irrefl 0)
  rw [significand, if_neg hnormal]
  exact Nat.le_add_right _ _

/-- The place at which a value of the format is rounded is the one of its last digit. -/
theorem log2_significand_add_shift {pattern : Nat} :
    ((f.significand pattern).log2 + f.shift pattern - f.fractionBits : Int).toNat =
      f.shift pattern := by
  have hwidth : (f.significand pattern).log2 ≤ f.fractionBits := by
    refine log2_le_of_lt ?_
    rw [Nat.pow_succ']
    exact f.significand_lt pattern
  rcases Nat.eq_zero_or_pos (f.shift pattern) with hzero | hpos
  · omega
  · have hfull : f.fractionBits ≤ (f.significand pattern).log2 :=
      (Nat.le_log2 (Nat.lt_of_lt_of_le f.hidden_pos (hidden_le_significand hpos)).ne').mpr
        (hidden_le_significand hpos)
    omega

end Format

theorem log2_mul_two_pow {s : Nat} (hs : 0 < s) (a : Nat) :
    (s * 2 ^ a).log2 = s.log2 + a := by
  induction a with
  | zero => rw [Nat.pow_zero, Nat.mul_one, Nat.add_zero]
  | succ a ih =>
    rw [Nat.pow_succ', Nat.mul_left_comm,
      Nat.log2_two_mul (Nat.mul_pos hs (Nat.two_pow_pos a)).ne', ih, Nat.add_assoc]

theorem floorLog2_mul_two_pow {s : Nat} (hs : 0 < s) (a b : Nat) :
    floorLog2 (s * 2 ^ a) (2 ^ b) = s.log2 + a - b := by
  let k : Int := (s.log2 : Int) + a - b
  have htest : 2 ^ b * 2 ^ k.toNat ≤ s * 2 ^ a * 2 ^ (-k).toNat := by
    calc 2 ^ b * 2 ^ k.toNat = 2 ^ s.log2 * 2 ^ a * 2 ^ (-k).toNat := by
          rw [← Nat.pow_add, ← Nat.pow_add, ← Nat.pow_add]
          congr 1
          omega
      _ ≤ s * 2 ^ a * 2 ^ (-k).toNat :=
          Nat.mul_le_mul_right _ (Nat.mul_le_mul_right _ (Nat.log2_self_le hs.ne'))
  rw [floorLog2, log2_mul_two_pow hs, Nat.log2_two_pow]
  push_cast
  exact if_pos htest

namespace Format

variable {f : Format}

/-- **The value of a pattern** is rounded to this pattern. -/
theorem nearest_ratio {pattern : Nat} (h : pattern < f.infinity) :
    f.nearest (f.ratio pattern).1 (f.ratio pattern).2 = pattern := by
  let s := f.significand pattern
  let up := f.shift pattern
  let down := f.grain
  have hsum : up * f.hidden + s = pattern := f.shift_mul_hidden_add_significand pattern
  have hpowers : 2 ^ up * 2 ^ (down - up) = 2 ^ down * 2 ^ (up - down) := by
    rw [← Nat.pow_add, ← Nat.pow_add]
    congr 1
    omega
  have hvalue : f.nearest (f.ratio pattern).1 (f.ratio pattern).2 =
      f.nearest (s * 2 ^ up) (2 ^ down) := by
    refine nearest_congr (Nat.two_pow_pos _) (Nat.two_pow_pos _) ?_
    change s * 2 ^ (up - down) * 2 ^ down = s * 2 ^ up * 2 ^ (down - up)
    rw [Nat.mul_assoc, Nat.mul_assoc, hpowers, Nat.mul_comm (2 ^ down)]
  rw [hvalue]
  rcases Nat.eq_zero_or_pos s with hzero | hpos
  · have hshift : up = 0 := by
      refine Nat.eq_zero_of_not_pos fun hup => ?_
      have hfull : f.hidden ≤ s := hidden_le_significand hup
      exact absurd (hzero ▸ hfull) (Nat.not_le_of_lt f.hidden_pos)
    rw [hzero, Nat.zero_mul, nearest, if_pos rfl, ← hsum, hzero, hshift, Nat.zero_mul]
  · -- the quotient is cut off at the last place of the pattern, where nothing is left over
    have hplace : (floorLog2 (s * 2 ^ up) (2 ^ down) - f.fractionBits + f.grain).toNat = up := by
      have hlast : (s.log2 + up - f.fractionBits : Int).toNat = up := log2_significand_add_shift
      rw [floorLog2_mul_two_pow hpos]
      omega
    have hround :
        roundHalfEven (s * 2 ^ up * 2 ^ (down - up)) (2 ^ down * 2 ^ (up - down)) = s := by
      rw [Nat.mul_assoc, hpowers]
      exact roundHalfEven_self_mul (Nat.mul_pos (Nat.two_pow_pos _) (Nat.two_pow_pos _))
    rw [nearest, if_neg (Nat.mul_pos hpos (Nat.two_pow_pos _)).ne', hplace]
    change min (up * f.hidden + roundHalfEven (s * 2 ^ up * 2 ^ (down - up))
      (2 ^ down * 2 ^ (up - down))) f.infinity = pattern
    rw [hround, hsum]
    exact Nat.min_eq_left h.le

/-! ## Quotients out of range -/

/-- Beyond all exponents of the format there is infinity. -/
theorem nearest_eq_infinity (hnum : 0 < num)
    (h : (2 ^ f.exponentBits : Nat) ≤ floorLog2 num den) : f.nearest num den = f.infinity := by
  let shift := (floorLog2 num den - f.fractionBits + f.grain).toNat
  have hgrain : f.fractionBits ≤ f.grain := Nat.le_add_left _ _
  have hshift : 2 ^ f.exponentBits - 1 ≤ shift := by omega
  have hlarge : f.infinity ≤ shift * f.hidden := Nat.mul_le_mul_right _ hshift
  rw [nearest, if_neg hnum.ne']
  exact Nat.min_eq_right (Nat.le_trans hlarge (Nat.le_add_right _ _))

/-- What is less than half the smallest positive value is rounded to zero. -/
theorem nearest_eq_zero (hnum : 0 < num) (hden : 0 < den)
    (h : floorLog2 num den < -(f.grain + 1 : Nat)) : f.nearest num den = 0 := by
  have hshift : (floorLog2 num den - f.fractionBits + f.grain).toNat = 0 := by omega
  have hsmall : 2 * (num * 2 ^ f.grain) < den := by
    rw [floorLog2_eq_log hnum hden, ← not_le,
      ← Int.zpow_le_iff_le_log one_lt_two (by positivity : (0 : ℚ) < num / den),
      zpow_le_div_iff two_pos hden, Int.neg_neg, Int.toNat_natCast, Int.toNat_neg_natCast] at h
    rw [Nat.pow_zero, Nat.mul_one, Nat.not_le] at h
    calc 2 * (num * 2 ^ f.grain) = num * 2 ^ (f.grain + 1) := by ring
      _ < den := h
  have hnothing : roundHalfEven (num * 2 ^ (f.grain - 0)) (den * 2 ^ (0 - f.grain)) = 0 := by
    rw [Nat.sub_zero, Nat.zero_sub, Nat.pow_zero, Nat.mul_one]
    exact roundHalfEven_of_lt hsmall
  rw [nearest, if_neg hnum.ne', hshift]
  change min (0 * f.hidden + roundHalfEven (num * 2 ^ (f.grain - 0)) (den * 2 ^ (0 - f.grain)))
    f.infinity = 0
  rw [hnothing, Nat.zero_mul, Nat.add_zero, Nat.zero_min]

end Format

end PlantGrammar.Numeric
