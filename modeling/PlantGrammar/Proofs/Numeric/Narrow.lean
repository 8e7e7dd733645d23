import PlantGrammar.Proofs.Numeric.Arithmetic
import PlantGrammar.Proofs.Numeric.Machine

/-!
# Narrowing a number

The encoding of a finite number of double precision stands for its value, and narrowing it
to single precision gives a finite number again, as long as the value stays well below
where single precision ends.
-/

namespace PlantGrammar.Numeric

open Float.Model.UnpackedFloat

/-! ## The value of an encoding -/

namespace Encoding

variable {x : Float}

theorem pattern_ofFloat (x : Float) : (ofFloat x).pattern =
    x.toBits.toNat / 2 ^ 52 % 2 ^ 11 * 2 ^ 52 + x.toBits.toNat % 2 ^ 52 := by
  change x.toBits.toNat % 2 ^ 63 = _
  omega

/-- A machine number is finite unless its exponent field is full. -/
theorem isFinite_iff_exponent (x : Float) :
    x.isFinite = true ↔ x.toBits.toNat / 2 ^ 52 % 2 ^ 11 ≠ 2047 := by
  have hfull : x.toBits.toNat / 2 ^ 52 % 2 ^ 11 ≠ 2047 ↔
      @unpackExponent .binary64 x.toBits.toBitVec ≠ -1#_ := by
    rw [← toNat_unpackExponent, not_iff_not, ← BitVec.toNat_inj]
    rfl
  rw [hfull]
  change (unpack .binary64 x.toBits.toBitVec).isFinite = true ↔ _
  rw [unpack]
  dsimp only
  split
  · next h =>
    refine iff_of_false ?_ (not_not_intro h)
    split <;> nofun
  · next h =>
    refine iff_of_true ?_ h
    split
    · split <;> rfl
    · rfl

/-- A machine number is finite where its encoding is. -/
theorem isFinite_ofFloat (x : Float) : (ofFloat x).isFinite = x.isFinite := by
  rw [Bool.eq_iff_iff, isFinite_iff_exponent, isFinite, pattern_ofFloat, decide_eq_true_iff]
  change _ < 2047 * 2 ^ 52 ↔ _
  omega

/-- The value of a machine number, by its fields. -/
theorem abs_value_eq (hx : x.isFinite = true) : |value x| =
    if x.toBits.toNat / 2 ^ 52 % 2 ^ 11 = 0 then
      ((x.toBits.toNat % 2 ^ 52 : ℕ) : ℚ) * 2 ^ (-1074 : Int)
    else ((2 ^ 52 + x.toBits.toNat % 2 ^ 52 : ℕ) : ℚ) *
      2 ^ ((x.toBits.toNat / 2 ^ 52 % 2 ^ 11 : ℕ) - 1075 : Int) := by
  have hbias : ((Float.Model.Format.binary64.exponentBias : Nat) : Int) = 1023 := rfl
  rw [isFinite_iff_exponent, ← toNat_unpackExponent] at hx
  rw [← toNat_unpackExponent, ← toNat_unpackMantissa]
  change |worth (unpack .binary64 x.toBits.toBitVec)| = _
  have hfull : @unpackExponent .binary64 x.toBits.toBitVec ≠ -1#_ :=
    fun h => hx (congrArg BitVec.toNat h)
  have hzero : @unpackExponent .binary64 x.toBits.toBitVec = 0#_ ↔
      (@unpackExponent .binary64 x.toBits.toBitVec).toNat = 0 := by
    rw [← BitVec.toNat_inj]
    rfl
  rw [unpack]
  dsimp only
  rw [if_neg hfull]
  simp only [hzero]
  split
  · next hleast =>
    split
    · next hnone => simp [worth, hnone]
    · next hsome =>
      rw [worth, abs_unit_mul, abs_of_nonneg (by positivity), hleast, hbias]
      rfl
  · next hnormal =>
    have hmantissa : (1#1 ++ @unpackMantissa .binary64 x.toBits.toBitVec).toNat =
        2 ^ 52 + (@unpackMantissa .binary64 x.toBits.toBitVec).toNat := by
      rw [BitVec.toNat_append, ← Nat.shiftLeft_add_eq_or_of_lt (BitVec.isLt _)]
      rfl
    rw [worth, abs_unit_mul, abs_of_nonneg (by positivity), hmantissa, hbias]
    rfl

/-- The value of a pattern. -/
theorem ratio_eq (f : Format) (pattern : Nat) :
    ((f.ratio pattern).1 : ℚ) / (f.ratio pattern).2 =
      f.significand pattern * 2 ^ ((f.shift pattern : Int) - f.grain) := by
  change ((f.significand pattern * 2 ^ (f.shift pattern - f.grain) : ℕ) : ℚ) /
    ((2 ^ (f.grain - f.shift pattern) : ℕ) : ℚ) = _
  push_cast
  rw [mul_div_assoc, ← zpow_natCast, ← zpow_natCast, ← zpow_sub₀ two_ne_zero]
  congr 2
  omega

/-- The value of a machine number is that of its encoding, but for the sign. -/
theorem ratio_ofFloat (hx : x.isFinite = true) :
    ((Format.binary64.ratio (ofFloat x).pattern).1 : ℚ) /
      (Format.binary64.ratio (ofFloat x).pattern).2 = |value x| := by
  have hgrain : (Format.binary64.grain : Int) = 1074 := rfl
  rw [ratio_eq, abs_value_eq hx, pattern_ofFloat, hgrain]
  have hfraction : x.toBits.toNat % 2 ^ 52 < 2 ^ 52 := Nat.mod_lt _ (Nat.two_pow_pos _)
  generalize x.toBits.toNat / 2 ^ 52 % 2 ^ 11 = exponent
  generalize x.toBits.toNat % 2 ^ 52 = fraction at hfraction ⊢
  have hhidden : Format.binary64.hidden = 2 ^ 52 := rfl
  rw [Format.significand, Format.shift, hhidden]
  split
  · next hsmall =>
    obtain rfl : exponent = 0 := by omega
    rw [if_pos rfl, Nat.zero_mul, Nat.zero_add, Nat.div_eq_of_lt hfraction]
    rfl
  · next hlarge =>
    have hdiv : (exponent * 2 ^ 52 + fraction) / 2 ^ 52 = exponent := by omega
    have hmod : (exponent * 2 ^ 52 + fraction) % 2 ^ 52 = fraction := by omega
    have hpos : exponent ≠ 0 := by omega
    rw [if_neg hpos, hdiv, hmod]
    congr 2
    omega

end Encoding

/-! ## Rounding below the end of a format -/

variable {num den : Nat}

/-- Rounding does not pass a whole number. -/
theorem roundHalfEven_le {n : Nat} (hden : 0 < den) (h : num ≤ n * den) :
    roundHalfEven num den ≤ n := by
  have hdivision := Nat.div_add_mod num den
  have hrest := Nat.mod_lt num hden
  rcases Nat.eq_or_lt_of_le h with rfl | hlt
  · rw [roundHalfEven_self_mul hden]
  · have hquotient : num / den < n := (Nat.div_lt_iff_lt_mul hden).mpr hlt
    rw [roundHalfEven]
    split
    · omega
    · split <;> omega

/-- A quotient below a power of two is rounded to a power of two at most, scaled as it is. -/
theorem roundHalfEven_scaled_le {e : Int} {up down bits : Nat} (hden : 0 < den)
    (hbelow : (num : ℚ) / den < 2 ^ e) (hscale : e + up ≤ bits + down) :
    roundHalfEven (num * 2 ^ up) (den * 2 ^ down) ≤ 2 ^ bits := by
  refine roundHalfEven_le (Nat.mul_pos hden (Nat.two_pow_pos _)) ?_
  have hpowers : (2 : ℚ) ^ e * 2 ^ up ≤ 2 ^ bits * 2 ^ down := by
    simp only [← zpow_natCast, ← zpow_add₀ (two_ne_zero (α := ℚ))]
    exact zpow_le_zpow_right₀ one_le_two hscale
  have hcast : (num : ℚ) * 2 ^ up ≤ 2 ^ bits * (den * 2 ^ down) := by
    have hden' : (0 : ℚ) < den := by exact_mod_cast hden
    rw [div_lt_iff₀ hden'] at hbelow
    calc (num : ℚ) * 2 ^ up ≤ 2 ^ e * den * 2 ^ up := by gcongr
      _ = 2 ^ e * 2 ^ up * den := by ring
      _ ≤ 2 ^ bits * 2 ^ down * den := by gcongr
      _ = 2 ^ bits * (den * 2 ^ down) := by ring
  exact_mod_cast hcast

/-- The numbers of a format by its bias, which is one more than `half`, so that no power of
two is left to divide. -/
theorem Format.exists_half (f : Format) (hbits : 1 < f.exponentBits) : ∃ half,
    2 ^ (f.exponentBits - 1) = half + 2 ∧ f.grain = half + f.fractionBits ∧
      f.infinity = (2 * half + 3) * f.hidden := by
  have htwo : 2 ≤ 2 ^ (f.exponentBits - 1) := Nat.le_self_pow (Nat.sub_ne_zero_of_lt hbits) 2
  have hdouble : 2 ^ f.exponentBits = 2 * 2 ^ (f.exponentBits - 1) := by
    rw [← Nat.pow_succ', Nat.succ_eq_add_one, Nat.sub_add_cancel hbits.le]
  obtain ⟨half, hhalf⟩ := Nat.exists_eq_add_of_le' htwo
  refine ⟨half, hhalf, ?_, ?_⟩
  · change 2 ^ (f.exponentBits - 1) - 2 + f.fractionBits = _
    rw [hhalf, Nat.add_sub_cancel]
  · change (2 ^ f.exponentBits - 1) * f.hidden = _
    rw [hdouble, hhalf]
    rfl

/-- What is well below the end of a format is rounded to a finite number. -/
theorem Format.nearest_lt_infinity {f : Format} (hbits : 1 < f.exponentBits) (hden : 0 < den)
    (h : (num : ℚ) / den < 2 ^ (2 ^ (f.exponentBits - 1) - 1)) :
    f.nearest num den < f.infinity := by
  obtain ⟨half, hhalf, hgrain, hinfinity⟩ := f.exists_half hbits
  rw [hhalf] at h
  rw [nearest, hinfinity]
  split
  · exact Nat.mul_pos (Nat.succ_pos _) f.hidden_pos
  · next hnum =>
    have hquotient : (0 : ℚ) < num / den := by
      have : (0 : ℚ) < num := by exact_mod_cast Nat.pos_of_ne_zero hnum
      positivity
    have hlog := floorLog2_eq_log (Nat.pos_of_ne_zero hnum) hden
    have hbelow : (num : ℚ) / den < 2 ^ (floorLog2 num den + 1) := by
      rw [hlog]
      exact Int.lt_zpow_succ_log_self one_lt_two _
    have hhigh : floorLog2 num den < (half + 1 : ℕ) := by
      rw [hlog, ← Int.lt_zpow_iff_log_lt one_lt_two hquotient]
      exact_mod_cast h
    let shift := (floorLog2 num den - f.fractionBits + f.grain).toNat
    have hshift : shift ≤ 2 * half := by omega
    -- the significand may carry to twice the hidden bit, which is one exponent more
    have hround : roundHalfEven (num * 2 ^ (f.grain - shift)) (den * 2 ^ (shift - f.grain)) ≤
        2 * f.hidden := by
      change _ ≤ 2 * 2 ^ f.fractionBits
      rw [← Nat.pow_succ']
      exact roundHalfEven_scaled_le hden hbelow (by omega)
    refine lt_of_le_of_lt (Nat.min_le_left _ _) ?_
    calc shift * f.hidden +
          roundHalfEven (num * 2 ^ (f.grain - shift)) (den * 2 ^ (shift - f.grain)) ≤
          2 * half * f.hidden + 2 * f.hidden := by gcongr
      _ = (2 * half + 2) * f.hidden := by ring
      _ < (2 * half + 3) * f.hidden := Nat.mul_lt_mul_of_pos_right (Nat.lt_succ_self _) f.hidden_pos

/-- Narrowing keeps a number finite that is well within single precision. -/
theorem Encoding.isFinite_narrow {x : Float} (hx : x.isFinite = true)
    (h : |value x| < 2 ^ 127) : ((Encoding.ofFloat x).narrow .binary32).isFinite = true := by
  have hfinite : (Encoding.ofFloat x).isFinite = true := by rw [isFinite_ofFloat, hx]
  have hnum : (Encoding.ofFloat x).isNaN = false :=
    decide_eq_false (Nat.lt_asymm (of_decide_eq_true hfinite))
  have hden : 0 < (Format.binary64.ratio (Encoding.ofFloat x).pattern).2 := Nat.two_pow_pos _
  have hbits : 1 < Format.binary32.exponentBits := by decide
  have hend : 2 ^ (Format.binary32.exponentBits - 1) - 1 = 127 := rfl
  rw [← ratio_ofFloat hx, ← hend] at h
  rw [narrow, if_neg (Bool.eq_false_iff.mp hnum), if_pos hfinite]
  generalize Format.binary64.ratio (Encoding.ofFloat x).pattern = quotient at h hden ⊢
  obtain ⟨num, den⟩ := quotient
  exact decide_eq_true (Format.nearest_lt_infinity hbits hden h)

end PlantGrammar.Numeric
