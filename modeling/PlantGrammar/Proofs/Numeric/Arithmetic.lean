import PlantGrammar.Proofs.Numeric.Value

/-!
# Arithmetic on values

The sum, the product and the quotient of finite numbers are the exact ones, rounded once:
where the exact result does not exceed a bound below `roof`, the computed one is
finite and near to it.
-/

namespace PlantGrammar.Numeric

open Float.Model.UnpackedFloat

variable {x y : Float} {A : ℚ} {m : Nat} {e : Int} {s : Sign}

/-! ## The numbers there are -/

/-- What is read from fields has full width, unless its exponent is the least one. -/
theorem unpack_full {bits : BitVec Float.Model.Format.binary64.numBits} {hm : 0 < m}
    (h : unpack .binary64 bits = .finite s m e hm) : 2 ^ 52 ≤ m ∨ e = -1074 := by
  have hbias : ((Float.Model.Format.binary64.exponentBias : Nat) : Int) = 1023 := rfl
  have hfraction : (unpackMantissa bits).toNat < 2 ^ 52 := (unpackMantissa bits).isLt
  rw [unpack] at h
  split at h
  · split at h <;> cases h
  · split at h
    · next hzero =>
      split at h
      · cases h
      · cases h
        right
        rw [hzero, hbias, BitVec.toNat_zero]
        rfl
    · cases h
      left
      rw [BitVec.toNat_append, ← Nat.shiftLeft_add_eq_or_of_lt hfraction]
      simp [Nat.shiftLeft_eq]

/-- A finite number is a zero or has a significand and an exponent, which its value shows. -/
theorem unpack_cases (hx : x.isFinite = true) :
    (∃ s, x.toModel.unpack = .zero s ∧ value x = 0) ∨
      ∃ s m e hm, x.toModel.unpack = .finite s m e hm ∧ value x = unit s * (m * 2 ^ e) ∧
        m < 2 ^ 53 ∧ -1074 ≤ e ∧ e ≤ 971 ∧ (2 ^ 52 ≤ m ∨ e = -1074) := by
  rw [value]
  rcases unpack_of_isFinite hx with ⟨s, hxu⟩ | ⟨s, m, e, hm, hxu⟩
  · rw [hxu]
    exact .inl ⟨s, rfl, rfl⟩
  · obtain ⟨hwidth, hlow, hhigh⟩ := unpack_bounds hxu
    rw [hxu]
    exact .inr ⟨s, m, e, hm, rfl, rfl, hwidth, hlow, hhigh, unpack_full hxu⟩

/-- Reading the fields of a finite number and packing them again changes nothing. -/
theorem unpack_pack_unpack (hx : x.isFinite = true) :
    (Float.Model.pack x.toModel.unpack).unpack = x.toModel.unpack := by
  rcases unpack_cases hx with ⟨s, hxu, -⟩ | ⟨s, m, e, hm, hxu, -, hwidth, hlow, hhigh, hfull⟩
  · rw [hxu]
    cases s <;> rfl
  · rw [hxu]
    exact unpack_pack hwidth hlow hhigh hfull

/-- A number that is packed as a finite one is it. -/
theorem near_of_pack (hx : x.toModel = Float.Model.pack y.toModel.unpack)
    (hy : y.isFinite = true) (hA : 0 ≤ A) : Near x (value y) A := by
  have hunpack : x.toModel.unpack = y.toModel.unpack := by rw [hx, unpack_pack_unpack hy]
  constructor
  · change x.toModel.unpack.isFinite = true
    rw [hunpack]
    exact hy
  · rw [value, value, hunpack, sub_self, abs_zero]
    positivity

theorem unpack_pack_zero (s : Sign) : (Float.Model.pack (.zero s)).unpack = .zero s := by
  cases s <;> rfl

theorem near_zero (hx : x.toModel = Float.Model.pack (.zero s)) (hA : 0 ≤ A) : Near x 0 A := by
  have hunpack : x.toModel.unpack = .zero s := by rw [hx, unpack_pack_zero]
  constructor
  · change x.toModel.unpack.isFinite = true
    rw [hunpack]
    rfl
  · have hvalue : value x = 0 := by
      rw [value, hunpack]
      rfl
    rw [hvalue, sub_self, abs_zero]
    positivity

/-! ## Products -/

theorem unit_mul (s s' : Sign) : unit (s * s') = unit s * unit s' := by
  cases s <;> cases s' <;> rfl

theorem unit_div (s s' : Sign) : unit (s / s') = unit s * unit s' := by
  cases s <;> cases s' <;> rfl

theorem unit_neg (s : Sign) : unit (-s) = -unit s := by
  cases s <;> rfl

/-- Only the sign changes. -/
theorem neg_finite (hx : x.isFinite = true) : (-x).isFinite = true ∧ value (-x) = -value x := by
  have hdef : (-x).toModel = Float.Model.pack x.toModel.unpack.neg := rfl
  change (-x).toModel.unpack.isFinite = true ∧ worth (-x).toModel.unpack = _
  rcases unpack_cases hx with ⟨s, hxu, hxv⟩ | ⟨s, m, e, hm, hxu, hxv, hwidth, hlow, hhigh, hfull⟩
  · rw [hdef, hxu, hxv, neg_zero]
    cases s <;> exact ⟨rfl, rfl⟩
  · have hunpack : (-x).toModel.unpack = .finite (-s) m e hm := by
      rw [hdef, hxu]
      exact unpack_pack hwidth hlow hhigh hfull
    rw [hunpack, hxv, worth, unit_neg]
    push_cast
    exact ⟨rfl, neg_mul _ _⟩

theorem le_cutExponent (h : 2 ^ 52 ≤ m ∨ e ≤ -1074) : e ≤ cutExponent m e := by
  rw [cutExponent]
  rcases h with hfull | hleast
  · have hlog : 52 ≤ m.log2 := (Nat.le_log2 (by omega)).mpr hfull
    omega
  · omega

/-- A product has full width where one of its factors has. -/
theorem add_le_cutExponent_mul {m' : Nat} {e' : Int} (hm : 0 < m) (hm' : 0 < m')
    (hfull : 2 ^ 52 ≤ m ∨ e = -1074) (hfull' : 2 ^ 52 ≤ m' ∨ e' = -1074) :
    e + e' ≤ cutExponent (m * m') (e + e') := by
  refine le_cutExponent ?_
  rcases hfull with hfull | rfl
  · exact .inl (Nat.le_trans hfull (Nat.le_mul_of_pos_right m hm'))
  · rcases hfull' with hfull' | rfl
    · exact .inl (Nat.le_trans hfull' (Nat.le_mul_of_pos_left m' hm))
    · exact .inr (by omega)

theorem mul_near (hx : x.isFinite = true) (hy : y.isFinite = true) (hA : leastNormal ≤ A)
    (hA' : A ≤ roof) (h : |value x * value y| ≤ A) : Near (x * y) (value x * value y) A := by
  have hdef : (x * y).toModel =
      Float.Model.pack (mul .binary64 x.toModel.unpack y.toModel.unpack) := rfl
  have hA0 : 0 ≤ A := le_trans leastNormal_pos.le hA
  rcases unpack_cases hx with ⟨s, hxu, hxv⟩ | ⟨s, m, e, hm, hxu, hxv, -, hlow, -, hfull⟩
  · rw [hxv, zero_mul]
    rcases unpack_cases hy with ⟨s', hyu, -⟩ | ⟨s', m', e', hm', hyu, -⟩
    · rw [hxu, hyu] at hdef
      exact near_zero hdef hA0
    · rw [hxu, hyu] at hdef
      exact near_zero hdef hA0
  · rcases unpack_cases hy with ⟨s', hyu, hyv⟩ | ⟨s', m', e', hm', hyu, hyv, -, hlow', -, hfull'⟩
    · rw [hyv, mul_zero]
      rw [hxu, hyu] at hdef
      exact near_zero hdef hA0
    · rw [hxu, hyu] at hdef
      have hvalue : value x * value y =
          unit (s * s') * (((m * m' : Nat) : ℚ) * 2 ^ (e + e')) := by
        rw [hxv, hyv, unit_mul, zpow_add₀ two_ne_zero]
        push_cast
        ring
      rw [hvalue, abs_unit_mul] at h
      rw [hvalue]
      exact near_of_round hdef (represents_exact _) (add_le_cutExponent_mul hm hm' hfull hfull')
        hA hA' (le_of_abs_le h)

/-! ## Sums -/

theorem decreaseExponent_value (m : Nat) (e target : Int) :
    ((decreaseExponent m e target).1 : ℚ) * 2 ^ (decreaseExponent m e target).2 = m * 2 ^ e := by
  have hsplit : (2 : ℚ) ^ e = 2 ^ (e - target).toNat * 2 ^ (e - (e - target).toNat) := by
    rw [← zpow_natCast, ← zpow_add₀ two_ne_zero]
    congr 1
    omega
  rw [decreaseExponent, Nat.shiftLeft_eq]
  dsimp only
  rw [hsplit]
  push_cast
  ring

theorem decreaseExponent_snd (m : Nat) {e target : Int} (h : target ≤ e) :
    (decreaseExponent m e target).2 = target := by
  rw [decreaseExponent]
  dsimp only
  omega

/-- A whole number that has bits to spare behind its last one. -/
theorem near_of_round_exact (hm : 0 < m)
    (hx : x.toModel = Float.Model.pack (round .binary64 s m e)) (hA : leastNormal ≤ A)
    (hA' : A ≤ roof) (h : (m : ℚ) * 2 ^ e ≤ A) : Near x (unit s * (m * 2 ^ e)) A := by
  have hvalue := decreaseExponent_value m e (cutExponent m e)
  have hdef : x.toModel = Float.Model.pack (roundWithAccuracy .binary64 s
      (decreaseExponent m e (cutExponent m e)).1 (decreaseExponent m e (cutExponent m e)).2
      .exact) := by
    rw [hx, Float.Model.UnpackedFloat.round, targetExponent_eq]
    rfl
  rw [← hvalue] at h ⊢
  refine near_of_round hdef (represents_exact _) ?_ hA hA' h
  simp only [decreaseExponent, Nat.shiftLeft_eq, cutExponent, log2_mul_two_pow hm]
  omega

/-- A significand with a sign. -/
theorem near_of_normalize {n : Int}
    (hx : x.toModel = Float.Model.pack (normalize .binary64 n e s)) (hA : leastNormal ≤ A)
    (hA' : A ≤ roof) (h : |(n : ℚ) * 2 ^ e| ≤ A) : Near x (n * 2 ^ e) A := by
  unfold Float.Model.UnpackedFloat.normalize at hx
  rcases Int.lt_trichotomy n 0 with hneg | rfl | hpos
  · have hn : (n : ℚ) * 2 ^ e = unit .negative * (((-n).toNat : ℚ) * 2 ^ e) := by
      have hcast : (((-n).toNat : Int) : ℚ) = -n := by
        rw [Int.toNat_of_nonneg (by omega), Int.cast_neg]
      rw [Int.cast_natCast] at hcast
      rw [hcast, unit_negative]
      push_cast
      ring
    rw [compare_lt_iff_lt.mpr hneg] at hx
    rw [hn, abs_unit_mul] at h
    rw [hn]
    exact near_of_round_exact (by omega) hx hA hA' (le_of_abs_le h)
  · rw [Int.cast_zero, zero_mul]
    exact near_zero hx (le_trans leastNormal_pos.le hA)
  · have hn : (n : ℚ) * 2 ^ e = unit .positive * ((n.toNat : ℚ) * 2 ^ e) := by
      have hcast : ((n.toNat : Int) : ℚ) = n := by rw [Int.toNat_of_nonneg hpos.le]
      rw [Int.cast_natCast] at hcast
      rw [hcast, unit_positive, Int.cast_one, one_mul]
    rw [compare_gt_iff_gt.mpr hpos] at hx
    rw [hn, abs_unit_mul] at h
    rw [hn]
    exact near_of_round_exact (by omega) hx hA hA' (le_of_abs_le h)

theorem add_near (hx : x.isFinite = true) (hy : y.isFinite = true) (hA : leastNormal ≤ A)
    (hA' : A ≤ roof) (h : |value x + value y| ≤ A) : Near (x + y) (value x + value y) A := by
  have hdef : (x + y).toModel =
      Float.Model.pack (add .binary64 x.toModel.unpack y.toModel.unpack) := rfl
  have hA0 : 0 ≤ A := le_trans leastNormal_pos.le hA
  rcases unpack_cases hx with ⟨s, hxu, hxv⟩ | ⟨s, m, e, hm, hxu, hxv, -⟩
  · rw [hxv, zero_add]
    rcases unpack_cases hy with ⟨s', hyu, hyv⟩ | ⟨s', m', e', hm', hyu, -⟩
    · rw [hxu, hyu] at hdef
      rw [hyv]
      cases s <;> cases s' <;> exact near_zero hdef hA0
    · refine near_of_pack ?_ hy hA0
      rw [hdef, hxu, hyu]
      rfl
  · rcases unpack_cases hy with ⟨s', hyu, hyv⟩ | ⟨s', m', e', hm', hyu, hyv, -⟩
    · rw [hyv, add_zero]
      refine near_of_pack ?_ hx hA0
      rw [hdef, hxu, hyu]
      rfl
    · -- both are written with the lesser exponent
      rw [hxu, hyu] at hdef
      have hvalue : value x + value y =
          ((s.apply (decreaseExponent m e (min e e')).1 +
            s'.apply (decreaseExponent m' e' (min e e')).1 : Int) : ℚ) * 2 ^ min e e' := by
        have hm := decreaseExponent_value m e (min e e')
        have hm' := decreaseExponent_value m' e' (min e e')
        rw [decreaseExponent_snd m (min_le_left e e')] at hm
        rw [decreaseExponent_snd m' (min_le_right e e')] at hm'
        rw [hxv, hyv, ← hm, ← hm', apply_eq_unit_mul, apply_eq_unit_mul]
        push_cast
        ring
      rw [hvalue] at h ⊢
      exact near_of_normalize hdef hA hA' h

/-! ## Quotients -/

/-- The remainder tells what is behind the point. -/
theorem represents_fraction {num den : Nat} (hden : 0 < den) :
    Represents ((num : ℚ) / den)
      (.ofMantissaAndAccuracy (num / den) (accuracyOfFraction (num % den) den)) := by
  have hden' : (0 : ℚ) < den := by exact_mod_cast hden
  have hsplit : (num : ℚ) / den = (num / den : ℕ) + (num % den : ℕ) / den := by
    have hdivision : (num : ℚ) = den * (num / den : ℕ) + (num % den : ℕ) := by
      exact_mod_cast (Nat.div_add_mod num den).symm
    rw [hdivision]
    field_simp
  have hless : ((num % den : ℕ) : ℚ) / den < 1 := by
    rw [div_lt_one hden']
    exact_mod_cast Nat.mod_lt num hden
  rw [hsplit]
  generalize num % den = r at hless ⊢
  rw [accuracyOfFraction]
  split
  · next hzero =>
    rw [hzero, Nat.cast_zero, zero_div, add_zero]
    exact represents_exact _
  · next hpos =>
    have hr : (0 : ℚ) < r / den := by
      have : (0 : ℚ) < r := by exact_mod_cast Nat.pos_of_ne_zero hpos
      positivity
    rcases Nat.lt_trichotomy (2 * r) den with hlt | heq | hgt
    · have hhalf : (r : ℚ) / den < 1 / 2 := by
        rw [div_lt_div_iff₀ hden' two_pos]
        exact_mod_cast (by omega : r * 2 < 1 * den)
      rw [compare_lt_iff_lt.mpr hlt]
      exact ⟨by linarith, by linarith⟩
    · have hhalf : (r : ℚ) / den = 1 / 2 := by
        rw [div_eq_div_iff hden'.ne' two_ne_zero]
        exact_mod_cast (by omega : r * 2 = 1 * den)
      rw [compare_eq_iff_eq.mpr heq, hhalf]
      rfl
    · have hhalf : 1 / 2 < (r : ℚ) / den := by
        rw [div_lt_div_iff₀ two_pos hden']
        exact_mod_cast (by omega : 1 * den < r * 2)
      rw [compare_gt_iff_gt.mpr hgt]
      exact ⟨by linarith, by linarith⟩

/-- The exponent of a quotient, low enough for a significand of full width. -/
def quotientExponent (m : Nat) (e : Int) (m' : Nat) (e' : Int) : Int :=
  min (e - e') (max ((m.log2 + 1 + e) - (m'.log2 + 1 + e') - 53) (-1074))

theorem divCore_eq (m : Nat) (e : Int) (m' : Nat) (e' : Int) :
    divCore .binary64 m e m' e' =
      let num := m * 2 ^ (e - e' - quotientExponent m e m' e').toNat
      (num / m', quotientExponent m e m' e', accuracyOfFraction (num % m') m') := by
  rw [divCore, Nat.shiftLeft_eq]
  rfl

theorem quotientExponent_le {m' : Nat} (hm : 0 < m) (hm' : 0 < m') (e e' : Int) :
    quotientExponent m e m' e' ≤
      cutExponent (m * 2 ^ (e - e' - quotientExponent m e m' e').toNat / m')
        (quotientExponent m e m' e') := by
  refine le_cutExponent (or_iff_not_imp_right.mpr fun hlarge => ?_)
  have hshift : m'.log2 + 1 + 52 ≤ m.log2 + (e - e' - quotientExponent m e m' e').toNat := by
    rw [quotientExponent] at hlarge ⊢
    omega
  rw [Nat.le_div_iff_mul_le hm']
  calc 2 ^ 52 * m' ≤ 2 ^ 52 * 2 ^ (m'.log2 + 1) := Nat.mul_le_mul_left _ Nat.lt_log2_self.le
    _ = 2 ^ (m'.log2 + 1 + 52) := by ring
    _ ≤ 2 ^ (m.log2 + (e - e' - quotientExponent m e m' e').toNat) :=
        Nat.pow_le_pow_right Nat.two_pos hshift
    _ ≤ m * 2 ^ (e - e' - quotientExponent m e m' e').toNat := by
        rw [Nat.pow_add]
        exact Nat.mul_le_mul_right _ (Nat.log2_self_le hm.ne')

theorem quotient_value {m' : Nat} (hm' : 0 < m') (s s' : Sign) (m : Nat) (e e' : Int) :
    (unit s * (m * 2 ^ e) / (unit s' * (m' * 2 ^ e')) : ℚ) = unit (s / s') *
      (((m * 2 ^ (e - e' - quotientExponent m e m' e').toNat : Nat) : ℚ) / m' *
        2 ^ quotientExponent m e m' e') := by
  have hsquare : (unit s' : ℚ) * unit s' = 1 := by cases s' <;> norm_num
  have hunit : (unit s' : ℚ) ≠ 0 := left_ne_zero_of_mul_eq_one hsquare
  have hinverse : 1 / (unit s' : ℚ) = unit s' := by rw [div_eq_iff hunit, hsquare]
  have hpowers : (2 : ℚ) ^ e = 2 ^ (e - e' - quotientExponent m e m' e').toNat *
      2 ^ quotientExponent m e m' e' * 2 ^ e' := by
    rw [← zpow_natCast, ← zpow_add₀ two_ne_zero, ← zpow_add₀ two_ne_zero]
    congr 1
    rw [quotientExponent]
    omega
  have hden : (m' : ℚ) ≠ 0 := by exact_mod_cast hm'.ne'
  have hpos : (2 : ℚ) ^ e' ≠ 0 := by positivity
  calc (unit s * (m * 2 ^ e) / (unit s' * (m' * 2 ^ e')) : ℚ) =
        unit s * (1 / unit s') * (m * 2 ^ e / (m' * 2 ^ e')) := by ring
    _ = _ := by
        rw [hinverse, hpowers, unit_div]
        push_cast
        field_simp

theorem div_near (hx : x.isFinite = true) (hy : y.isFinite = true) (hy0 : value y ≠ 0)
    (hA : leastNormal ≤ A) (hA' : A ≤ roof) (h : |value x / value y| ≤ A) :
    Near (x / y) (value x / value y) A := by
  have hdef : (x / y).toModel =
      Float.Model.pack (div .binary64 x.toModel.unpack y.toModel.unpack) := rfl
  rcases unpack_cases hy with ⟨s', hyu, hyv⟩ | ⟨s', m', e', hm', hyu, hyv, -⟩
  · exact absurd hyv hy0
  rcases unpack_cases hx with ⟨s, hxu, hxv⟩ | ⟨s, m, e, hm, hxu, hxv, -⟩
  · rw [hxv, zero_div]
    rw [hxu, hyu] at hdef
    exact near_zero hdef (le_trans leastNormal_pos.le hA)
  · have hround : (x / y).toModel = Float.Model.pack (roundWithAccuracy .binary64 (s / s')
        (m * 2 ^ (e - e' - quotientExponent m e m' e').toNat / m') (quotientExponent m e m' e')
        (accuracyOfFraction (m * 2 ^ (e - e' - quotientExponent m e m' e').toNat % m') m')) := by
      rw [hdef, hxu, hyu]
      simp only [div, divCore_eq]
    have hvalue := quotient_value hm' s s' m e e'
    rw [← hxv, ← hyv] at hvalue
    rw [hvalue, abs_unit_mul] at h
    rw [hvalue]
    exact near_of_round hround (represents_fraction hm') (quotientExponent_le hm hm' e e') hA hA'
      (le_of_abs_le h)

/-! ## Order -/

/-- What is positive and not above a finite number is finite. -/
theorem isFinite_of_le (hx0 : 0 < x) (h : x ≤ y) (hy : y.isFinite = true) : x.isFinite = true := by
  have htop : 0 < top := by decide
  obtain ⟨hnum, hpos⟩ := zero_lt_iff.mp hx0
  have hrank := (le_iff.mp h).2.2
  have hhigh := (isFinite_iff.mp hy).2.2
  exact isFinite_iff.mpr ⟨hnum, by omega, by omega⟩

/-- A positive number is a significand with an exponent. -/
theorem unpack_of_pos (hx : x.isFinite = true) (hx0 : 0 < x) :
    ∃ m e hm, x.toModel.unpack = .finite .positive m e hm ∧ value x = m * 2 ^ e ∧
      rank x = (e + 1075) * 2 ^ 53 + m ∧ m < 2 ^ 53 ∧ -1074 ≤ e ∧ (2 ^ 52 ≤ m ∨ e = -1074) := by
  obtain ⟨m, e, hm, hxu, hrank, hwidth, hlow, -⟩ := unpack_of_rank_pos hx (zero_lt_iff.mp hx0).2
  exact ⟨m, e, hm, hxu, value_of_unpack_positive hxu, hrank, hwidth, hlow, unpack_full hxu⟩

theorem value_pos (hx : x.isFinite = true) (hx0 : 0 < x) : 0 < value x := by
  obtain ⟨m, e, hm, -, hvalue, -⟩ := unpack_of_pos hx hx0
  have hm' : (0 : ℚ) < m := by exact_mod_cast hm
  rw [hvalue]
  positivity

/-- Positive numbers are ordered by their values. -/
theorem value_mono (hx : x.isFinite = true) (hx0 : 0 < x) (hy : y.isFinite = true) (h : x ≤ y) :
    value x ≤ value y := by
  obtain ⟨-, hynum, hrank⟩ := le_iff.mp h
  have hy0 : 0 < y := zero_lt_iff.mpr ⟨hynum, lt_of_lt_of_le (zero_lt_iff.mp hx0).2 hrank⟩
  obtain ⟨m, e, hm, -, hxv, hxr, hwidth, hlow, -⟩ := unpack_of_pos hx hx0
  obtain ⟨m', e', hm', -, hyv, hyr, hwidth', -, hfull'⟩ := unpack_of_pos hy hy0
  rw [hxr, hyr] at hrank
  rw [hxv, hyv]
  rcases lt_trichotomy e e' with hlt | rfl | hgt
  · -- the larger exponent is not the least, so its significand has full width
    have hfull : 2 ^ 52 ≤ m' := hfull'.resolve_right (by omega)
    calc (m : ℚ) * 2 ^ e ≤ 2 ^ 53 * 2 ^ e := by gcongr; exact_mod_cast hwidth.le
      _ = 2 ^ 52 * 2 ^ (e + 1) := by rw [zpow_add_one₀ two_ne_zero]; ring
      _ ≤ m' * 2 ^ e' := by
        gcongr
        · exact_mod_cast hfull
        · exact one_le_two
        · omega
  · have hle : m ≤ m' := by omega
    gcongr
  · exact absurd hrank (by omega)

/-- Rounding does not pass a number that the exact result does not pass. -/
theorem cutMantissa_mul_zpow_le {p : Nat} {d : Int} (hlow : -1074 ≤ e) (hwidth : m < 2 ^ 53)
    (hde : d ≤ e) (hcut : d ≤ cutExponent p d) (hle : p ≤ m * 2 ^ (e - d).toNat) :
    (cutMantissa p d .exact : ℚ) * 2 ^ cutExponent p d ≤ m * 2 ^ e := by
  have hlog : p.log2 ≤ 52 + (e - d).toNat := by
    refine log2_le_of_lt ?_
    rw [Nat.add_right_comm, Nat.pow_add]
    exact Nat.lt_of_le_of_lt hle (Nat.mul_lt_mul_of_pos_right hwidth (Nat.two_pow_pos _))
  have hcut' : cutExponent p d ≤ e := by
    rw [cutExponent]
    omega
  have hround : cutMantissa p d .exact ≤ m * 2 ^ (e - cutExponent p d).toNat := by
    refine roundedMantissa_shiftRight_le ?_
    rw [Nat.mul_assoc, ← Nat.pow_add]
    have hsum : (e - cutExponent p d).toNat + (cutExponent p d - d).toNat = (e - d).toNat := by
      omega
    rwa [hsum]
  calc (cutMantissa p d .exact : ℚ) * 2 ^ cutExponent p d ≤
        (m * 2 ^ (e - cutExponent p d).toNat : ℕ) * 2 ^ cutExponent p d := by gcongr
    _ = m * 2 ^ e := by
        push_cast
        rw [mul_assoc, ← zpow_natCast, ← zpow_add₀ two_ne_zero]
        congr 2
        omega

/-- A factor up to one does not enlarge a number, however the product is rounded. -/
theorem value_mul_le {f : Float} (hx : x.isFinite = true) (hx0 : 0 ≤ x) (hf0 : 0 < f)
    (hf1 : f ≤ 1) : value (x * f) ≤ value x := by
  have hdef : (x * f).toModel =
      Float.Model.pack (mul .binary64 x.toModel.unpack f.toModel.unpack) := rfl
  obtain ⟨m', e', hm', hfu, he', hfactor⟩ := unpack_of_le_one hf0 hf1
  rcases Int.lt_or_eq_of_le (zero_le_iff.mp hx0).2 with hpos | hzero
  swap
  · obtain ⟨s, hxu⟩ := unpack_of_rank_eq_zero hx hzero.symm
    have hproduct : (x * f).toModel.unpack = .zero (s * .positive) := by
      rw [hdef, hxu, hfu]
      exact unpack_pack_zero _
    rw [value, value, hproduct, hxu]
    exact le_refl _
  have hx0 : 0 < x := zero_lt_iff.mpr ⟨(zero_le_iff.mp hx0).1, hpos⟩
  obtain ⟨m, e, hm, hxu, hvalue, -, hwidth, hlow, hfull⟩ := unpack_of_pos hx hx0
  have hhigh : e ≤ 971 := (unpack_bounds hxu).2.2
  have hcut := add_le_cutExponent_mul hm hm' hfull (unpack_full hfu)
  have hle : m * m' ≤ m * 2 ^ (e - (e + e')).toNat := by
    have hexponent : e - (e + e') = -e' := by omega
    rw [hexponent]
    exact Nat.mul_le_mul_left m hfactor
  have hround := cutMantissa_mul_zpow_le hlow hwidth (by omega) hcut hle
  have hlarge : (m : ℚ) * 2 ^ e < 2 ^ 1024 := by
    calc (m : ℚ) * 2 ^ e < 2 ^ 53 * 2 ^ e := by gcongr; exact_mod_cast hwidth
      _ ≤ 2 ^ 53 * 2 ^ (971 : Int) := by gcongr; exact one_le_two
      _ = 2 ^ 1024 := by rw [zpow_ofNat, ← pow_add]
  rw [hxu, hfu] at hdef
  have hunpack := unpack_pack_round .positive (m * m') .exact hcut (lt_of_le_of_lt hround hlarge)
  have hresult : value (x * f) =
      cutMantissa (m * m') (e + e') .exact * 2 ^ cutExponent (m * m') (e + e') := by
    rw [value, hdef]
    change worth (Float.Model.pack (roundWithAccuracy .binary64 .positive (m * m') (e + e')
      .exact)).unpack = _
    rw [hunpack, worth_roundWithAccuracy _ _ _ hcut, unit_positive, Int.cast_one, one_mul]
  rw [hresult, hvalue]
  exact hround

end PlantGrammar.Numeric
