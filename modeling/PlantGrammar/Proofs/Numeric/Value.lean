import PlantGrammar.Proofs.Numeric.Product

/-!
# The value of a number

A finite number of double precision stands for a rational number, its value. Sums,
products and quotients are rounded once: as long as the exact result is not too large
they are finite, and their value is the exact one up to a part in `2 ^ 53` of any bound
of it that a normal number reaches.
-/

namespace PlantGrammar.Numeric

open Float.Model.UnpackedFloat

/-! ## Values -/

/-- One, with a sign. -/
def unit (s : Sign) : Int := s.apply 1

@[simp] theorem unit_positive : unit .positive = 1 := rfl

@[simp] theorem unit_negative : unit .negative = -1 := rfl

theorem apply_eq_unit_mul (s : Sign) (n : Int) : s.apply n = unit s * n := by
  cases s <;> simp [unit, Sign.apply]

theorem abs_unit_mul (s : Sign) (q : ℚ) : |unit s * q| = |q| := by
  cases s <;> simp [unit, Sign.apply]

/-- What an unpacked number stands for. Infinities and the non-number stand for zero. -/
def worth : Float.Model.UnpackedFloat → ℚ
  | .finite s m e _ => unit s * (m * 2 ^ e)
  | _ => 0

/-- The value of a number of double precision. -/
def value (x : Float) : ℚ := worth x.toModel.unpack

theorem value_of_unpack {x : Float} {s : Sign} {m : Nat} {e : Int} {hm : 0 < m}
    (h : x.toModel.unpack = .finite s m e hm) : value x = unit s * (m * 2 ^ e) := by
  rw [value, h]
  rfl

theorem value_of_unpack_positive {x : Float} {m : Nat} {e : Int} {hm : 0 < m}
    (h : x.toModel.unpack = .finite .positive m e hm) : value x = m * 2 ^ e := by
  rw [value_of_unpack h, unit_positive, Int.cast_one, one_mul]

/-! ## Rounding a significand -/

/-- The exact values that an extended significand stands for: its round bit tells the
first bit behind the significand, its sticky bit whether there is anything else. -/
def Represents (q : ℚ) : ExtendedMantissa → Prop
  | ⟨m, false, false⟩ => q = m
  | ⟨m, false, true⟩ => m < q ∧ q < m + 1 / 2
  | ⟨m, true, false⟩ => q = m + 1 / 2
  | ⟨m, true, true⟩ => m + 1 / 2 < q ∧ q < m + 1

variable {q : ℚ} {em : ExtendedMantissa}

theorem Represents.shiftRightOne (h : Represents q em) : Represents (q / 2) em.shiftRightOne := by
  obtain ⟨m, roundBit, stickyBit⟩ := em
  have hsplit : (m : ℚ) = 2 * (m / 2 : ℕ) + (m % 2 : ℕ) := by
    exact_mod_cast (Nat.div_add_mod m 2).symm
  rcases Nat.mod_two_eq_zero_or_one m with heven | hodd
  · rw [heven] at hsplit
    cases roundBit <;> cases stickyBit <;>
      simp only [Represents, ExtendedMantissa.shiftRightOne, heven, bne_self_eq_false,
        Bool.or_false, Bool.or_true, hsplit, Nat.cast_zero] at h ⊢ <;>
      first | linarith | constructor <;> linarith
  · rw [hodd] at hsplit
    cases roundBit <;> cases stickyBit <;>
      simp only [Represents, ExtendedMantissa.shiftRightOne, hodd, Bool.or_false, Bool.or_true,
        Nat.reduceBNe, hsplit, Nat.cast_one] at h ⊢ <;>
      first | linarith | constructor <;> linarith

theorem Represents.shiftRight (h : Represents q em) (k : Nat) :
    Represents (q / 2 ^ k) (em >>> k) := by
  induction k with
  | zero =>
    rw [pow_zero, div_one]
    exact h
  | succ k ih =>
    rw [shiftRight_succ, pow_succ, ← div_div]
    exact ih.shiftRightOne

/-- A significand is rounded to the nearest whole number. -/
theorem Represents.abs_roundedMantissa_sub_le (h : Represents q em) :
    |(em.roundedMantissa : ℚ) - q| ≤ 1 / 2 := by
  obtain ⟨m, roundBit, stickyBit⟩ := em
  have hparity : ((m % 2 : ℕ) : ℚ) ≤ 1 := by exact_mod_cast Nat.le_of_lt_succ (m.mod_lt two_pos)
  have hnonneg : (0 : ℚ) ≤ (m % 2 : ℕ) := Nat.cast_nonneg _
  cases roundBit <;> cases stickyBit <;>
    simp only [Represents, ExtendedMantissa.roundedMantissa, ExtendedMantissa.accuracy,
      Accuracy.roundToNearestEven, Nat.cast_add, Nat.cast_one] at h ⊢ <;>
    rw [abs_le] <;> constructor <;> linarith

theorem Represents.mantissa_le (h : Represents q em) : (em.mantissa : ℚ) ≤ q := by
  obtain ⟨m, roundBit, stickyBit⟩ := em
  cases roundBit <;> cases stickyBit <;> simp only [Represents] at h ⊢ <;> linarith

theorem mantissa_ofMantissaAndAccuracy (m : Nat) (a : Accuracy) :
    (ExtendedMantissa.ofMantissaAndAccuracy m a).mantissa = m := by
  unfold ExtendedMantissa.ofMantissaAndAccuracy
  split <;> rfl

theorem represents_exact (m : Nat) : Represents m (.ofMantissaAndAccuracy m .exact) := rfl

/-! ## Rounding to double precision -/

/-- The exponent at which a significand is cut off. -/
def cutExponent (m : Nat) (e : Int) : Int := max ((m.log2 : Int) + e - 52) (-1074)

variable {m : Nat} {e : Int} {a : Accuracy} {s : Sign}

theorem shiftToTargetExponent_eq (m : Nat) (e : Int) (a : Accuracy) :
    shiftToTargetExponent .binary64 m e a =
      (ExtendedMantissa.ofMantissaAndAccuracy m a >>> (cutExponent m e - e).toNat,
        e + (cutExponent m e - e).toNat) := by
  rw [shiftToTargetExponent, targetExponent_eq]
  rfl

/-- A significand that is not too wide stays as it is. -/
theorem shiftToTargetExponent_of_lt (hm : m < 2 ^ 53) (he : -1074 ≤ e) :
    shiftToTargetExponent .binary64 m e .exact = (⟨m, false, false⟩, e) := by
  have hlog : m.log2 ≤ 52 := log2_le_of_lt hm
  have hnone : (cutExponent m e - e).toNat = 0 := by
    rw [cutExponent]
    omega
  rw [shiftToTargetExponent_eq, hnone]
  exact Prod.ext rfl (Int.add_zero e)

/-- A significand of one bit too many loses its last one. -/
theorem shiftToTargetExponent_two_pow (he : -1074 ≤ e) :
    shiftToTargetExponent .binary64 (2 ^ 53) e .exact = (⟨2 ^ 52, false, false⟩, e + 1) := by
  have hone : (cutExponent (2 ^ 53) e - e).toNat = 1 := by
    rw [cutExponent, Nat.log2_two_pow]
    omega
  rw [shiftToTargetExponent_eq, hone]
  rfl

/-- The significand to which a cut one is rounded. -/
def cutMantissa (m : Nat) (e : Int) (a : Accuracy) : Nat :=
  (ExtendedMantissa.ofMantissaAndAccuracy m a >>> (cutExponent m e - e).toNat).roundedMantissa

theorem cutMantissa_le (m : Nat) (e : Int) (a : Accuracy) : cutMantissa m e a ≤ 2 ^ 53 := by
  have hcut : m / 2 ^ (cutExponent m e - e).toNat < 2 ^ 53 := by
    rw [Nat.div_lt_iff_lt_mul (Nat.two_pow_pos _), ← Nat.pow_add]
    refine Nat.lt_of_lt_of_le Nat.lt_log2_self (Nat.pow_le_pow_right Nat.two_pos ?_)
    rw [cutExponent]
    omega
  have hsucc := (roundedMantissa_bounds
    (ExtendedMantissa.ofMantissaAndAccuracy m a >>> (cutExponent m e - e).toNat)).2
  rw [mantissa_shiftRight, mantissa_ofMantissaAndAccuracy] at hsucc
  exact Nat.le_trans hsucc hcut

/-- There are three cases: nothing is left, the significand fits, or rounding carries. -/
theorem roundWithAccuracy_eq (s : Sign) (m : Nat) (a : Accuracy) (he : e ≤ cutExponent m e) :
    roundWithAccuracy .binary64 s m e a =
      if h : cutMantissa m e a = 0 then .zero s
      else if cutMantissa m e a < 2 ^ 53 then
        .finite s (cutMantissa m e a) (cutExponent m e) (Nat.pos_of_ne_zero h)
      else .finite s (2 ^ 52) (cutExponent m e + 1) (Nat.two_pow_pos _) := by
  have hlow : -1074 ≤ cutExponent m e := Int.le_max_right _ _
  have hfirst : shiftToTargetExponent .binary64 m e a =
      (ExtendedMantissa.ofMantissaAndAccuracy m a >>> (cutExponent m e - e).toNat,
        cutExponent m e) := by
    rw [shiftToTargetExponent_eq]
    exact Prod.ext rfl (by omega)
  have hr := cutMantissa_le m e a
  unfold cutMantissa at hr ⊢
  rw [roundWithAccuracy, hfirst]
  dsimp only
  generalize (ExtendedMantissa.ofMantissaAndAccuracy m a >>>
    (cutExponent m e - e).toNat).roundedMantissa = r at hr ⊢
  rcases Nat.lt_or_eq_of_le hr with hlt | rfl
  · rw [shiftToTargetExponent_of_lt hlt hlow]
    simp only [hlt, if_true]
  · rw [shiftToTargetExponent_two_pow hlow]
    rfl

theorem worth_roundWithAccuracy (s : Sign) (m : Nat) (a : Accuracy) (he : e ≤ cutExponent m e) :
    worth (roundWithAccuracy .binary64 s m e a) =
      unit s * (cutMantissa m e a * 2 ^ cutExponent m e) := by
  have hr := cutMantissa_le m e a
  rw [roundWithAccuracy_eq s m a he]
  split
  · next hzero => simp [worth, hzero]
  · split
    · rfl
    · next hwide =>
      have hcarry : cutMantissa m e a = 2 ^ 53 := by omega
      rw [worth, hcarry, zpow_add_one₀ two_ne_zero]
      push_cast
      ring

/-! ## The error of rounding -/

/-- The least positive number of full width. -/
@[irreducible] def leastNormal : ℚ := 1 / 2 ^ 1022

/-- What may be rounded without a care: half of where the format ends. -/
@[irreducible] def roof : ℚ := 2 ^ 1023

theorem leastNormal_le_one : leastNormal ≤ 1 := by
  unfold leastNormal
  exact div_le_self one_pos.le (one_le_pow₀ one_le_two)

theorem leastNormal_pos : 0 < leastNormal := by
  unfold leastNormal
  positivity

theorem two_pow_le_roof {k : Nat} (hk : k ≤ 1023) : (2 : ℚ) ^ k ≤ roof := by
  unfold roof
  exact pow_le_pow_right₀ one_le_two hk

theorem roof_div : roof / 16 = 2 ^ 1019 := by
  have hsixteen : (16 : ℚ) = 2 ^ 4 := by norm_num
  unfold roof
  rw [div_eq_iff (by norm_num), hsixteen, ← pow_add]

/-- What is cut off weighs no more than half the last bit that is kept. -/
theorem abs_cut_sub_le (hq : Represents q (.ofMantissaAndAccuracy m a))
    (he : e ≤ cutExponent m e) :
    |(cutMantissa m e a : ℚ) * 2 ^ cutExponent m e - q * 2 ^ e| ≤ 2 ^ cutExponent m e / 2 := by
  have hhalf := (hq.shiftRight (cutExponent m e - e).toNat).abs_roundedMantissa_sub_le
  have hscale : (2 : ℚ) ^ e = 2 ^ cutExponent m e / 2 ^ (cutExponent m e - e).toNat := by
    rw [eq_div_iff (by positivity), ← zpow_natCast, ← zpow_add₀ two_ne_zero]
    congr 1
    omega
  have hpos : (0 : ℚ) < 2 ^ cutExponent m e := by positivity
  have hfactor : (cutMantissa m e a : ℚ) * 2 ^ cutExponent m e - q * 2 ^ e =
      (cutMantissa m e a - q / 2 ^ (cutExponent m e - e).toNat) * 2 ^ cutExponent m e := by
    rw [hscale]
    ring
  rw [hfactor, abs_mul, abs_of_pos hpos]
  calc _ ≤ 1 / 2 * (2 : ℚ) ^ cutExponent m e := by gcongr; exact hhalf
    _ = 2 ^ cutExponent m e / 2 := by ring

/-- The last bit that is kept is the last one of the exact value or of the format. -/
theorem zpow_cutExponent_le {A : ℚ} (hq : Represents q (.ofMantissaAndAccuracy m a))
    (he : e ≤ cutExponent m e) (hA : leastNormal ≤ A) (hqA : q * 2 ^ e ≤ A) :
    (2 : ℚ) ^ cutExponent m e ≤ A / 2 ^ 52 := by
  rw [le_div_iff₀ (by positivity)]
  rcases max_choice ((m.log2 : Int) + e - 52) (-1074) with hlast | hleast
  · have hcut : cutExponent m e = m.log2 + e - 52 := hlast
    have hm : 0 < m := by
      rcases Nat.eq_zero_or_pos m with rfl | hm
      · have hzero : Nat.log2 0 = 0 := by decide
        omega
      · exact hm
    calc (2 : ℚ) ^ cutExponent m e * 2 ^ 52 = 2 ^ (m.log2 : Int) * 2 ^ e := by
          rw [hcut, ← zpow_natCast, ← zpow_add₀ two_ne_zero, ← zpow_add₀ two_ne_zero]
          congr 1
          omega
      _ ≤ m * 2 ^ e := by gcongr; exact (zpow_log2_bounds hm).1
      _ ≤ q * 2 ^ e := by gcongr; exact mantissa_ofMantissaAndAccuracy m a ▸ hq.mantissa_le
      _ ≤ A := hqA
  · have hcut : cutExponent m e = -1074 := hleast
    calc (2 : ℚ) ^ cutExponent m e * 2 ^ 52 = leastNormal := by
          rw [hcut, leastNormal, ← zpow_natCast, ← zpow_natCast, ← zpow_add₀ two_ne_zero, one_div,
            ← zpow_neg]
          congr 1
      _ ≤ A := hA

/-! ## Packing -/

/-- Fields that spell a normal number. -/
theorem unpack_packComponents_normal {k : Nat} {hm : 0 < m} (hk : 0 < k) (hk' : k < 2047)
    (hfull : 2 ^ 52 ≤ m) (hwidth : m < 2 ^ 53) :
    unpack .binary64 (packComponents .binary64 s (BitVec.ofNat 11 k) (BitVec.ofNat 52 m)) =
      .finite s m (k - 1075) hm := by
  have hsign : Sign.ofBitVec s.toBitVec = s := by cases s <;> rfl
  have hexponent : (BitVec.ofNat 11 k).toNat = k := by
    rw [BitVec.toNat_ofNat]
    omega
  have htop : BitVec.ofNat 11 k ≠ -1#_ := fun h => by
    have := congrArg BitVec.toNat h
    rw [hexponent] at this
    simp at this
    omega
  have hnonzero : BitVec.ofNat 11 k ≠ 0#_ := fun h => by
    have := congrArg BitVec.toNat h
    rw [hexponent] at this
    simp at this
    omega
  have hmantissa : (1#1 ++ BitVec.ofNat 52 m).toNat = m := by
    rw [BitVec.toNat_append, ← Nat.shiftLeft_add_eq_or_of_lt (BitVec.isLt _), BitVec.toNat_ofNat]
    simp [Nat.shiftLeft_eq]
    omega
  have hbias : ((Float.Model.Format.binary64.exponentBias : Nat) : Int) = 1023 := rfl
  simp only [unpack, unpackMantissa_packComponents, unpackExponent_packComponents,
    unpackSign_packComponents, hsign, if_neg htop, if_neg hnonzero, hexponent, hmantissa, hbias]
  rfl

/-- Fields that spell a number of less than full width. -/
theorem unpack_packComponents_subnormal {hm : 0 < m} (hwidth : m < 2 ^ 52) :
    unpack .binary64 (packComponents .binary64 s 0#11 (BitVec.ofNat 52 m)) =
      .finite s m (-1074) hm := by
  have hsign : Sign.ofBitVec s.toBitVec = s := by cases s <;> rfl
  have hmantissa : (BitVec.ofNat 52 m).toNat = m := by
    rw [BitVec.toNat_ofNat]
    omega
  have hnonzero : BitVec.ofNat 52 m ≠ 0#_ := fun h => by
    have := congrArg BitVec.toNat h
    rw [hmantissa] at this
    simp at this
    omega
  have htop : (0#11 : BitVec 11) ≠ -1#_ := by decide
  simp only [unpack, unpackMantissa_packComponents, unpackExponent_packComponents,
    unpackSign_packComponents, hsign, if_neg htop, if_true, dif_neg hnonzero, hmantissa]
  rfl

/-- A significand of full width is packed with its exponent, a narrower one with the
least. -/
theorem unpack_pack {hm : 0 < m} (hwidth : m < 2 ^ 53) (hlow : -1074 ≤ e) (hhigh : e ≤ 971)
    (hfull : 2 ^ 52 ≤ m ∨ e = -1074) :
    (Float.Model.pack (.finite s m e hm)).unpack = .finite s m e hm := by
  have hbias : (Float.Model.Format.binary64.exponentBias : Int) = 1023 := rfl
  have hlog : m.log2 + 1 = Float.Model.Format.binary64.mantissaBits ↔ 2 ^ 52 ≤ m := by
    have hbits : Float.Model.Format.binary64.mantissaBits = 53 := rfl
    have hle := log2_le_of_lt hwidth
    rw [hbits, ← Nat.le_log2 hm.ne']
    omega
  change unpack .binary64 (pack .binary64 (.finite s m e hm)) = _
  rw [pack]
  dsimp only
  rw [if_neg (by omega)]
  split
  · next hnormal =>
    have hexponent : e = ((e + 1075).toNat : Int) - 1075 := by omega
    have hunpack : unpack .binary64 (packComponents .binary64 s
        (BitVec.ofNat 11 (e + 1075).toNat) (BitVec.ofNat 52 m)) =
        .finite s m ((e + 1075).toNat - 1075) hm :=
      unpack_packComponents_normal (by omega) (by omega) (hlog.mp hnormal) hwidth
    rw [← hexponent] at hunpack
    have hfield : (e + (Float.Model.Format.binary64.exponentBias : Int) + 52).toNat =
        (e + 1075).toNat := by omega
    exact (congrArg (fun k => unpack .binary64 (packComponents .binary64 s (BitVec.ofNat 11 k)
      (BitVec.ofNat 52 m))) hfield).trans hunpack
  · next hsubnormal =>
    have hnarrow : m < 2 ^ 52 := Nat.lt_of_not_le (mt hlog.mpr hsubnormal)
    obtain rfl : e = -1074 := hfull.resolve_left (Nat.not_le_of_lt hnarrow)
    exact unpack_packComponents_subnormal hnarrow

/-! ## Numbers near a value -/

/-- A finite number whose value is `q` up to a part in `2 ^ 53` of `A`. -/
structure Near (x : Float) (q A : ℚ) : Prop where
  isFinite : x.isFinite = true
  error : |value x - q| ≤ A / 2 ^ 53

variable {x y : Float} {A : ℚ}

/-- A cut significand has full width, unless its exponent is the least one. -/
theorem two_pow_le_cutMantissa (he : e ≤ cutExponent m e) (hleast : cutExponent m e ≠ -1074) :
    2 ^ 52 ≤ cutMantissa m e a := by
  have hcut : cutExponent m e = m.log2 + e - 52 :=
    (max_choice ((m.log2 : Int) + e - 52) (-1074)).resolve_right hleast
  have hm : m ≠ 0 := by
    rintro rfl
    have hzero : Nat.log2 0 = 0 := by decide
    omega
  have hfloor : 2 ^ 52 ≤ m / 2 ^ (cutExponent m e - e).toNat := by
    rw [Nat.le_div_iff_mul_le (Nat.two_pow_pos _), ← Nat.pow_add]
    refine Nat.le_trans (Nat.pow_le_pow_right Nat.two_pos ?_) (Nat.log2_self_le hm)
    omega
  have hrounded := (roundedMantissa_bounds
    (ExtendedMantissa.ofMantissaAndAccuracy m a >>> (cutExponent m e - e).toNat)).1
  rw [mantissa_shiftRight, mantissa_ofMantissaAndAccuracy] at hrounded
  exact Nat.le_trans hfloor hrounded

/-- What is rounded without going beyond the format is what is read from its fields. -/
theorem unpack_pack_round (s : Sign) (m : Nat) (a : Accuracy) (he : e ≤ cutExponent m e)
    (hvalue : (cutMantissa m e a : ℚ) * 2 ^ cutExponent m e < 2 ^ 1024) :
    (Float.Model.pack (roundWithAccuracy .binary64 s m e a)).unpack =
      roundWithAccuracy .binary64 s m e a := by
  have hlow : -1074 ≤ cutExponent m e := Int.le_max_right _ _
  -- the bound of the value bounds the exponent, by the bits that the significand has
  have hhigh : ∀ w : Nat, 2 ^ w ≤ cutMantissa m e a → w + cutExponent m e < 1024 := by
    intro w hw
    have hw' : (2 : ℚ) ^ w ≤ cutMantissa m e a := by exact_mod_cast hw
    refine (zpow_lt_zpow_iff_right₀ (one_lt_two (α := ℚ))).mp ?_
    calc (2 : ℚ) ^ (w + cutExponent m e) = 2 ^ w * 2 ^ cutExponent m e := by
          rw [zpow_add₀ two_ne_zero, zpow_natCast]
      _ ≤ cutMantissa m e a * 2 ^ cutExponent m e := by gcongr
      _ < 2 ^ 1024 := hvalue
      _ = 2 ^ (1024 : Int) := (zpow_natCast 2 1024).symm
  have hfull := two_pow_le_cutMantissa (a := a) he
  have hwide := cutMantissa_le m e a
  rw [roundWithAccuracy_eq s m a he]
  split
  · cases s <;> rfl
  · split
    · next hpos hlt =>
      refine unpack_pack hlt hlow ?_ (or_iff_not_imp_right.mpr hfull)
      by_cases hleast : cutExponent m e = -1074
      · omega
      · have := hhigh 52 (hfull hleast)
        omega
    · next hpos hcarry =>
      have := hhigh 53 (Nat.le_of_not_lt hcarry)
      exact unpack_pack (by decide) (by omega) (by omega) (.inl (Nat.le_refl _))

/-- **Rounding once**: where an exact result does not exceed the bound. -/
theorem near_of_round (hx : x.toModel = Float.Model.pack (roundWithAccuracy .binary64 s m e a))
    (hq : Represents q (.ofMantissaAndAccuracy m a)) (he : e ≤ cutExponent m e)
    (hA : leastNormal ≤ A) (hA' : A ≤ roof) (hqA : q * 2 ^ e ≤ A) :
    Near x (unit s * (q * 2 ^ e)) A := by
  have herror : |(cutMantissa m e a : ℚ) * 2 ^ cutExponent m e - q * 2 ^ e| ≤ A / 2 ^ 53 := by
    have hlast := zpow_cutExponent_le hq he hA hqA
    calc _ ≤ (2 : ℚ) ^ cutExponent m e / 2 := abs_cut_sub_le hq he
      _ ≤ A / 2 ^ 52 / 2 := by gcongr
      _ = A / 2 ^ 53 := by ring
  have hvalue : (cutMantissa m e a : ℚ) * 2 ^ cutExponent m e < 2 ^ 1024 := by
    have habove := (abs_le.mp herror).2
    have hpos : 0 < A := lt_of_lt_of_le leastNormal_pos hA
    have hpart : A / 2 ^ 53 < A := div_lt_self hpos (by norm_num)
    calc (cutMantissa m e a : ℚ) * 2 ^ cutExponent m e < A + A := by linarith
      _ ≤ roof + roof := by gcongr
      _ = 2 ^ 1024 := by rw [roof, ← mul_two, ← pow_succ]
  have hunpack : x.toModel.unpack = roundWithAccuracy .binary64 s m e a := by
    rw [hx]
    exact unpack_pack_round s m a he hvalue
  constructor
  · change x.toModel.unpack.isFinite = true
    rw [hunpack, roundWithAccuracy_eq s m a he]
    split
    · rfl
    · split <;> rfl
  · rw [value, hunpack, worth_roundWithAccuracy s m a he, ← mul_sub, abs_unit_mul]
    exact herror

end PlantGrammar.Numeric
