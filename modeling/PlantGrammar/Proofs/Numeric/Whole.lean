import PlantGrammar.Proofs.Numeric.Arithmetic

/-!
# Whole numbers

A whole number of up to 53 bits is a number of double precision, so a numeral that spells
one stands for it exactly.
-/

namespace PlantGrammar.Numeric

open Float.Model.UnpackedFloat

variable {m n : Nat} {e : Int}

/-- A number of double precision is not rounded, however many zeros are written behind it. -/
theorem roundWithAccuracy_exact (s : Sign) (k : Nat) (hm : 0 < m) (hwidth : m < 2 ^ 53)
    (hlow : -1074 ≤ e) (hfull : 2 ^ 52 ≤ m ∨ e = -1074) :
    roundWithAccuracy .binary64 s (m * 2 ^ k) (e - k) .exact = .finite s m e hm := by
  have hlog : m.log2 ≤ 52 := log2_le_of_lt hwidth
  have hcut : cutExponent (m * 2 ^ k) (e - k) = e := by
    have hbits : 2 ^ 52 ≤ m ↔ 52 ≤ m.log2 := (Nat.le_log2 hm.ne').symm
    rw [cutExponent, log2_mul_two_pow hm]
    omega
  have hshift : (e - (e - k)).toNat = k := by omega
  have hmantissa : cutMantissa (m * 2 ^ k) (e - k) .exact = m := by
    rw [cutMantissa, hcut, hshift]
    exact congrArg ExtendedMantissa.roundedMantissa (shiftRight_exact m k)
  rw [roundWithAccuracy_eq s _ _ (by omega)]
  simp only [hmantissa, hcut, hm.ne', hwidth, dite_false, if_true]

/-! ## Conversion -/

/-- The digits of a whole number, moved to full width. -/
def fullWidth (n : Nat) : Nat := n * 2 ^ (52 - n.log2)

theorem fullWidth_pos (hn : 0 < n) : 0 < fullWidth n := Nat.mul_pos hn (Nat.two_pow_pos _)

theorem fullWidth_bounds (hn : 0 < n) (h : n < 2 ^ 53) :
    2 ^ 52 ≤ fullWidth n ∧ fullWidth n < 2 ^ 53 := by
  have hlog : n.log2 ≤ 52 := log2_le_of_lt h
  have hbits : (fullWidth n).log2 = 52 := by
    rw [fullWidth, log2_mul_two_pow hn]
    omega
  have hne : fullWidth n ≠ 0 := (fullWidth_pos hn).ne'
  exact ⟨(Nat.le_log2 hne).mp hbits.ge, (Nat.log2_lt hne).mp (by omega)⟩

theorem round_whole (s : Sign) (hn : 0 < n) (h : n < 2 ^ 53) :
    round .binary64 s n 0 = .finite s (fullWidth n) (n.log2 - 52) (fullWidth_pos hn) := by
  have hlog : n.log2 ≤ 52 := log2_le_of_lt h
  obtain ⟨hfull, hwidth⟩ := fullWidth_bounds hn h
  have htarget : max ((n.log2 : Int) + 0 - 52) (-1074) = n.log2 - 52 := by omega
  have hshift : (0 - ((n.log2 : Int) - 52)).toNat = 52 - n.log2 := by omega
  have hexponent : (0 : Int) - (52 - n.log2 : Nat) = n.log2 - 52 := by omega
  have hexact := roundWithAccuracy_exact s 0 (fullWidth_pos hn) hwidth
    (by omega : -1074 ≤ (n.log2 : Int) - 52) (.inl hfull)
  rw [pow_zero, Nat.mul_one, Nat.cast_zero, Int.sub_zero] at hexact
  rw [Float.Model.UnpackedFloat.round, targetExponent_eq, htarget, decreaseExponent, hshift,
    hexponent, Nat.shiftLeft_eq]
  exact hexact

theorem unpack_toFloat (hn : 0 < n) (h : n < 2 ^ 53) :
    n.toUInt64.toFloat.toModel.unpack =
      .finite .positive (fullWidth n) (n.log2 - 52) (fullWidth_pos hn) := by
  have hlog : n.log2 ≤ 52 := log2_le_of_lt h
  have hdef : n.toUInt64.toFloat.toModel =
      Float.Model.pack (normalize .binary64 n.toUInt64.toNat 0 .positive) := rfl
  have hnat : n.toUInt64.toNat = n := Nat.mod_eq_of_lt (Nat.lt_trans h (by decide))
  have hround : normalize .binary64 n 0 .positive = round .binary64 .positive n 0 := by
    rw [Float.Model.UnpackedFloat.normalize, compare_gt_iff_gt.mpr (by omega)]
    rfl
  obtain ⟨hfull, hwidth⟩ := fullWidth_bounds hn h
  rw [hdef, hnat, hround, round_whole _ hn h]
  exact unpack_pack hwidth (by omega) (by omega) (.inl hfull)

/-- A numeral is converted and then scaled by a power of ten, which is one. -/
theorem unpack_ofNat (hn : 0 < n) (h : n < 2 ^ 53) :
    (Float.ofNat n).toModel.unpack =
      .finite .positive (fullWidth n) (n.log2 - 52) (fullWidth_pos hn) := by
  have hlog : n.log2 ≤ 52 := log2_le_of_lt h
  have hone : (Float.ofBits 0x3FF0000000000000).toModel.unpack =
      .finite .positive (2 ^ 52) (-52) (by decide) := rfl
  have hofNat : Float.ofNat n = n.toUInt64.toFloat * Float.ofBits 0x3FF0000000000000 := by
    change Float.ofScientific n false 0 = _
    rw [Float.ofScientific, dif_pos ⟨h, Nat.zero_le _⟩]
    rfl
  have hdef : (Float.ofNat n).toModel = Float.Model.pack (mul .binary64
      n.toUInt64.toFloat.toModel.unpack (Float.ofBits 0x3FF0000000000000).toModel.unpack) := by
    rw [hofNat]
    rfl
  obtain ⟨hfull, hwidth⟩ := fullWidth_bounds hn h
  rw [hdef, unpack_toFloat hn h, hone]
  change (Float.Model.pack (roundWithAccuracy .binary64 .positive (fullWidth n * 2 ^ 52)
    (n.log2 - 52 - (52 : Nat)) .exact)).unpack = _
  rw [roundWithAccuracy_exact _ _ (fullWidth_pos hn) hwidth (by omega) (.inl hfull)]
  exact unpack_pack hwidth (by omega) (by omega) (.inl hfull)

/-- **A numeral** for a whole number of up to 53 bits stands for it. -/
theorem ofNat_exact (h : n < 2 ^ 53) :
    (Float.ofNat n).isFinite = true ∧ value (Float.ofNat n) = n := by
  rcases Nat.eq_zero_or_pos n with rfl | hn
  · exact ⟨rfl, rfl⟩
  · have hunpack := unpack_ofNat hn h
    have hlog : n.log2 ≤ 52 := log2_le_of_lt h
    constructor
    · change (Float.ofNat n).toModel.unpack.isFinite = true
      rw [hunpack]
      rfl
    · have hexponent : ((n.log2 : Int) - 52) = -(52 - n.log2 : Nat) := by omega
      rw [value_of_unpack_positive hunpack, hexponent, zpow_neg, zpow_natCast, fullWidth]
      push_cast
      rw [mul_assoc, mul_inv_cancel₀ (by positivity), mul_one]

theorem ofInt_exact {i : Int} (h : i.natAbs < 2 ^ 53) :
    (Float.ofInt i).isFinite = true ∧ value (Float.ofInt i) = i := by
  cases i with
  | ofNat n => exact ofNat_exact h
  | negSucc n =>
    obtain ⟨hfinite, hvalue⟩ := ofNat_exact h
    obtain ⟨hneg, hneg'⟩ := neg_finite hfinite
    refine ⟨hneg, hneg'.trans ?_⟩
    rw [hvalue, Int.natAbs_negSucc, Int.cast_negSucc]

theorem ofInt_zero : (Float.ofInt 0).isFinite = true ∧ value (Float.ofInt 0) = 0 := ⟨rfl, rfl⟩

theorem ofInt_one : (Float.ofInt 1).isFinite = true ∧ value (Float.ofInt 1) = 1 := by
  simpa using ofInt_exact (i := 1) (by decide)

end PlantGrammar.Numeric
