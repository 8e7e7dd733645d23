import PlantGrammar.Proofs.Numeric.Order
import PlantGrammar.Proofs.Numeric.Rounding

/-!
# Shrinking a number

A finite number that is multiplied by a factor from zero to one stays finite and
keeps its sign, however the product is rounded: rounding never passes a
significand of full width that the exact product does not pass. It may become
zero.
-/

namespace PlantGrammar.Numeric

open Float.Model.UnpackedFloat

/-! ## Rounding a significand -/

theorem shiftRight_succ (em : ExtendedMantissa) (k : Nat) :
    em >>> (k + 1) = (em >>> k).shiftRightOne := rfl

theorem mantissa_shiftRight (em : ExtendedMantissa) (k : Nat) :
    (em >>> k).mantissa = em.mantissa / 2 ^ k := by
  induction k with
  | zero => exact (Nat.div_one _).symm
  | succ k ih =>
    rw [shiftRight_succ, Nat.pow_succ, ← Nat.div_div_eq_div_mul, ← ih]
    rfl

/-- Nothing is lost where only zeros are shifted out. -/
theorem shiftRight_exact (n k : Nat) :
    (⟨n * 2 ^ k, false, false⟩ : ExtendedMantissa) >>> k = ⟨n, false, false⟩ := by
  induction k generalizing n with
  | zero =>
    rw [Nat.pow_zero, Nat.mul_one]
    rfl
  | succ k ih =>
    have htwice : n * 2 ^ (k + 1) = 2 * n * 2 ^ k := by ring
    rw [shiftRight_succ, htwice, ih]
    simp [ExtendedMantissa.shiftRightOne]

/-- A significand is rounded to itself or to the next. -/
theorem roundedMantissa_bounds (em : ExtendedMantissa) :
    em.mantissa ≤ em.roundedMantissa ∧ em.roundedMantissa ≤ em.mantissa + 1 := by
  obtain ⟨m, roundBit, stickyBit⟩ := em
  cases roundBit <;> cases stickyBit <;>
    simp [ExtendedMantissa.roundedMantissa, ExtendedMantissa.accuracy,
      Accuracy.roundToNearestEven]
  omega

/-- Rounding does not pass a whole number that the exact value does not pass. -/
theorem roundedMantissa_shiftRight_le {m n k : Nat} (h : m ≤ n * 2 ^ k) :
    ((⟨m, false, false⟩ : ExtendedMantissa) >>> k).roundedMantissa ≤ n := by
  rcases Nat.eq_or_lt_of_le h with rfl | hlt
  · rw [shiftRight_exact]
    exact Nat.le_refl n
  · have hmantissa : ((⟨m, false, false⟩ : ExtendedMantissa) >>> k).mantissa < n := by
      rw [mantissa_shiftRight]
      exact (Nat.div_lt_iff_lt_mul (Nat.two_pow_pos k)).mpr hlt
    exact Nat.le_trans (roundedMantissa_bounds _).2 hmantissa

/-! ## Rounding to double precision -/

theorem targetExponent_eq (m : Nat) (e : Int) :
    Float.Model.Format.binary64.targetExponent (Float.Model.totalExponent m e) =
      max ((m.log2 : Int) + e - 52) (-1074) := by
  have hwidth : (Float.Model.Format.binary64.mantissaBits : Int) = 53 := rfl
  have hleast : Float.Model.Format.binary64.minExponent = -1074 := rfl
  rw [Float.Model.Format.targetExponent, Float.Model.totalExponent, hwidth, hleast]
  omega

/-- A value that does not pass `n * 2 ^ top`, where `n` has full width at most, is
rounded to a number whose exponent does not pass `top`. -/
theorem roundWithAccuracy_of_le {s : Sign} {m n : Nat} {e top : Int} (hn : n < 2 ^ 53)
    (htop : -1074 ≤ top) (he : e ≤ top) (hm : m ≤ n * 2 ^ (top - e).toNat) :
    roundWithAccuracy .binary64 s m e .exact = .zero s ∨
      ∃ m' e' hm', roundWithAccuracy .binary64 s m e .exact = .finite s m' e' hm' ∧ e' ≤ top := by
  -- the first shift drops `k` bits, which leaves the exponent `e + k`
  let k := (max ((m.log2 : Int) + e - 52) (-1074) - e).toNat
  let r := ((⟨m, false, false⟩ : ExtendedMantissa) >>> k).roundedMantissa
  have hlog : m.log2 ≤ 52 + (top - e).toNat := by
    refine log2_le_of_lt ?_
    rw [Nat.add_right_comm, Nat.pow_add]
    exact Nat.lt_of_le_of_lt hm (Nat.mul_lt_mul_of_pos_right hn (Nat.two_pow_pos _))
  have hk : e + k ≤ top := by omega
  have hlogr : r.log2 ≤ 52 ∨ r.log2 ≤ 53 ∧ e + k < top := by
    rcases Int.lt_or_eq_of_le hk with hlt | heq
    · -- rounding up may carry into one more bit, for which there is room
      have hfits : m ≤ 2 ^ 53 * 2 ^ k := by
        rw [← Nat.pow_add]
        exact Nat.le_of_lt (Nat.lt_of_lt_of_le Nat.lt_log2_self
          (Nat.pow_le_pow_right Nat.two_pos (by omega)))
      have hr : r ≤ 2 ^ 53 := roundedMantissa_shiftRight_le hfits
      exact .inr ⟨log2_le_of_lt (Nat.lt_of_le_of_lt hr (by decide)), hlt⟩
    · have hsame : k = (top - e).toNat := by omega
      have hr : r ≤ n := roundedMantissa_shiftRight_le (hsame ▸ hm)
      exact .inl (log2_le_of_lt (Nat.lt_of_le_of_lt hr hn))
  have hdef : roundWithAccuracy .binary64 s m e .exact =
      let k' := (max ((r.log2 : Int) + (e + k) - 52) (-1074) - (e + k)).toNat
      if h : ((⟨r, false, false⟩ : ExtendedMantissa) >>> k').mantissa = 0 then .zero s
      else .finite s ((⟨r, false, false⟩ : ExtendedMantissa) >>> k').mantissa (e + k + k')
        (Nat.pos_of_ne_zero h) := by
    simp only [roundWithAccuracy, shiftToTargetExponent, targetExponent_eq]
    rfl
  rw [hdef]
  dsimp only
  split
  · exact .inl rfl
  · next hpos => exact .inr ⟨_, _, Nat.pos_of_ne_zero hpos, rfl, by omega⟩

/-! ## Packing -/

theorem unpackSign_packComponents {spec : Float.Model.Format} {s : Sign}
    {exponent : BitVec spec.exponentBits} {fraction : BitVec spec.mantissaBitsWithoutImplicit} :
    unpackSign (packComponents spec s exponent fraction) = s.toBitVec := by
  ext i hi
  obtain rfl : i = 0 := by omega
  simp [unpackSign, packComponents, BitVec.getLsbD_append, BitVec.getElem_append]

/-- A finite number of sign `s`, or a zero of it. -/
def IsFiniteOf (s : Sign) : Float.Model.UnpackedFloat → Prop
  | .infinity _ => False
  | .notANumber => False
  | .zero s' => s' = s
  | .finite s' _ _ _ => s' = s

/-- Fields that do not spell an infinity or a non-number spell a finite number of
their sign. -/
theorem isFiniteOf_packComponents {s : Sign} {exponent : BitVec 11} {fraction : BitVec 52}
    (h : exponent ≠ -1#_) :
    IsFiniteOf s (unpack .binary64 (packComponents .binary64 s exponent fraction)) := by
  have hsign : Sign.ofBitVec s.toBitVec = s := by cases s <;> rfl
  simp only [unpack, unpackMantissa_packComponents, unpackExponent_packComponents,
    unpackSign_packComponents, hsign, if_neg h]
  split
  · split <;> rfl
  · rfl

/-- Up to the exponent of the greatest numbers, packing gives a finite number. -/
theorem isFiniteOf_pack {s : Sign} {m : Nat} {e : Int} {hm : 0 < m} (he : e ≤ 971) :
    IsFiniteOf s (Float.Model.pack (.finite s m e hm)).unpack := by
  have hbias : (Float.Model.Format.binary64.exponentBias : Int) = 1023 := rfl
  change IsFiniteOf s (unpack .binary64 (pack .binary64 (.finite s m e hm)))
  rw [pack]
  dsimp only
  rw [if_neg (by omega)]
  split
  · refine isFiniteOf_packComponents fun htop => ?_
    have := congrArg BitVec.toNat htop
    simp at this
    omega
  · exact isFiniteOf_packComponents (by decide)

theorem IsFiniteOf.isFinite_nonneg {x : Float} (h : IsFiniteOf .positive x.toModel.unpack) :
    x.isFinite = true ∧ 0 ≤ x := by
  have hfinite : x.isFinite = true ∧ 0 ≤ rank x := by
    change x.toModel.unpack.isFinite = true ∧ 0 ≤ place x.toModel.unpack
    cases hxu : x.toModel.unpack with
    | notANumber => rw [hxu] at h; exact h.elim
    | infinity s => rw [hxu] at h; exact h.elim
    | zero s => exact ⟨rfl, Int.le_refl 0⟩
    | finite s m e hm =>
      rw [hxu] at h
      obtain rfl : s = .positive := h
      exact ⟨rfl, Int.le_of_lt (place_positive_bounds hxu).1⟩
  exact ⟨hfinite.1, zero_le_iff.mpr ⟨(isFinite_iff.mp hfinite.1).1, hfinite.2⟩⟩

/-! ## Products -/

/-- A factor up to one is a significand over a power of two that it does not pass. -/
theorem unpack_of_le_one {f : Float} (hpos : 0 < f) (hle : f ≤ 1) :
    ∃ m e hm, f.toModel.unpack = .finite .positive m e hm ∧ e ≤ 0 ∧ m ≤ 2 ^ (-e).toNat := by
  obtain ⟨hnum, hrank⟩ := zero_lt_iff.mp hpos
  have hrankOne := (le_iff.mp hle).2.2
  have hfinite : f.isFinite = true := isFinite_iff.mpr
    ⟨hnum, Int.lt_trans (by decide) hrank, Int.lt_of_le_of_lt hrankOne (by decide)⟩
  obtain ⟨m, e, hm, hunpack, hplace, hwidth, -⟩ := unpack_of_rank_pos hfinite hrank
  have hone : rank 1 = 1023 * 2 ^ 53 + 2 ^ 52 := by decide
  refine ⟨m, e, hm, hunpack, by omega, ?_⟩
  rcases lt_or_ge e (-52) with hsmall | hlarge
  · exact Nat.le_of_lt (Nat.lt_of_lt_of_le hwidth
      (Nat.pow_le_pow_right Nat.two_pos (by omega)))
  · -- here the significand has full width, and only that of one itself is left
    obtain rfl : e = -52 := by omega
    change m ≤ 2 ^ 52
    omega

/-- **A factor up to one** keeps a finite number finite, and not negative. -/
theorem mul_isFinite_nonneg {x f : Float} (hx : x.isFinite = true) (hx0 : 0 ≤ x) (hf0 : 0 < f)
    (hf1 : f ≤ 1) : (x * f).isFinite = true ∧ 0 ≤ x * f := by
  obtain ⟨m₂, e₂, hm₂, hfu, he₂, hfactor⟩ := unpack_of_le_one hf0 hf1
  rcases Int.lt_or_eq_of_le (zero_le_iff.mp hx0).2 with hpos | hzero
  · obtain ⟨m₁, e₁, hm₁, hxu, -, hwidth, hlow, hhigh⟩ := unpack_of_rank_pos hx hpos
    have hproduct : m₁ * m₂ ≤ m₁ * 2 ^ (e₁ - (e₁ + e₂)).toNat := by
      have hexponent : e₁ - (e₁ + e₂) = -e₂ := by omega
      rw [hexponent]
      exact Nat.mul_le_mul_left m₁ hfactor
    refine IsFiniteOf.isFinite_nonneg ?_
    change IsFiniteOf .positive
      (Float.Model.pack (mul .binary64 x.toModel.unpack f.toModel.unpack)).unpack
    rw [hxu, hfu]
    change IsFiniteOf .positive
      (Float.Model.pack (roundWithAccuracy .binary64 .positive (m₁ * m₂) (e₁ + e₂) .exact)).unpack
    rcases roundWithAccuracy_of_le hwidth hlow (by omega) hproduct with
      hround | ⟨m, e, hm, hround, he⟩
    · rw [hround]
      rfl
    · rw [hround]
      exact isFiniteOf_pack (Int.le_trans he hhigh)
  · obtain ⟨s, hxu⟩ := unpack_of_rank_eq_zero hx hzero.symm
    have hproduct : x * f = Float.ofModel (Float.Model.pack (.zero (s * .positive))) := by
      change Float.ofModel
        (Float.Model.pack (mul .binary64 x.toModel.unpack f.toModel.unpack)) = _
      rw [hxu, hfu]
      rfl
    rw [hproduct]
    cases s <;> decide

end PlantGrammar.Numeric
