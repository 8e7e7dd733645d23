import Mathlib
import PlantGrammar.Parameters

/-!
# The order of double precision

A number of double precision has a place among the others, an integer
(`Numeric.rank`), and comparing two numbers is comparing their places; the
non-number alone has none and compares with nothing. Whatever is said about
bounds then is arithmetic of integers.
-/

namespace PlantGrammar.Numeric

open Float.Model.UnpackedFloat

/-! ## Significands and exponents -/

/-- The fields of a number bound its significand and its exponent. -/
theorem unpack_bounds {bits : BitVec Float.Model.Format.binary64.numBits} {s : Sign} {m : Nat}
    {e : Int} {hm : 0 < m} (h : unpack .binary64 bits = .finite s m e hm) :
    m < 2 ^ 53 ∧ -1074 ≤ e ∧ e ≤ 971 := by
  have hbias : ((Float.Model.Format.binary64.exponentBias : Nat) : Int) = 1023 := rfl
  have hwidth : ((Float.Model.Format.binary64.mantissaBitsWithoutImplicit : Nat) : Int) = 52 := rfl
  have hfraction : (unpackMantissa bits).toNat < 2 ^ 52 := (unpackMantissa bits).isLt
  have hexponent : (unpackExponent bits).toNat < 2 ^ 11 := (unpackExponent bits).isLt
  rw [unpack] at h
  split at h
  · split at h <;> cases h
  · next hfinite =>
    have htop : (unpackExponent bits).toNat ≠ 2047 :=
      fun heq => hfinite (BitVec.eq_of_toNat_eq heq)
    split at h
    · next hzero =>
      split at h
      · cases h
      · -- a subnormal number
        cases h
        rw [hzero, hbias, BitVec.toNat_zero]
        omega
    · next hnormal =>
      -- a normal number, whose leading bit is not stored
      cases h
      have hpos : (unpackExponent bits).toNat ≠ 0 :=
        fun heq => hnormal (BitVec.eq_of_toNat_eq heq)
      rw [BitVec.toNat_append, ← Nat.shiftLeft_add_eq_or_of_lt hfraction, hbias]
      simp [Nat.shiftLeft_eq]
      omega

/-! ## Places -/

/-- The place of the infinity, above those of all numbers. -/
def top : Int := 2047 * 2 ^ 53

/-- The place of a number among all numbers: zero for either zero, and the same
distance on both sides of it. -/
def place : Float.Model.UnpackedFloat → Int
  | .infinity s => s.apply top
  | .notANumber => 0
  | .zero _ => 0
  | .finite s m e _ => s.apply ((e + 1075) * 2 ^ 53 + m)

/-- `place` of the number that an encoding stands for. -/
def rank (x : Float) : Int := place x.toModel.unpack

variable {bits : BitVec Float.Model.Format.binary64.numBits} {m : Nat} {e : Int} {hm : 0 < m}

theorem place_positive_bounds (h : unpack .binary64 bits = .finite .positive m e hm) :
    0 < place (.finite .positive m e hm) ∧ place (.finite .positive m e hm) < top := by
  obtain ⟨hwidth, hlow, hhigh⟩ := unpack_bounds h
  rw [place, Sign.apply, top]
  omega

theorem place_negative_bounds (h : unpack .binary64 bits = .finite .negative m e hm) :
    -top < place (.finite .negative m e hm) ∧ place (.finite .negative m e hm) < 0 := by
  obtain ⟨hwidth, hlow, hhigh⟩ := unpack_bounds h
  rw [place, Sign.apply, top]
  omega

/-- With significands of one width, the larger exponent decides. -/
theorem compare_then_compare {m m' : Nat} (e e' : Int) (hm : m < 2 ^ 53) (hm' : m' < 2 ^ 53) :
    (compare e e').then (compare m m') =
      compare ((e + 1075) * 2 ^ 53 + (m : Int)) ((e' + 1075) * 2 ^ 53 + (m' : Int)) := by
  rcases Int.lt_trichotomy e e' with hlt | rfl | hgt
  · rw [compare_lt_iff_lt.mpr hlt]
    exact (compare_lt_iff_lt.mpr (by omega)).symm
  · rw [compare_eq_iff_eq.mpr rfl]
    rcases Nat.lt_trichotomy m m' with hlt | rfl | hgt
    · rw [compare_lt_iff_lt.mpr hlt]
      exact (compare_lt_iff_lt.mpr (by omega)).symm
    · rw [compare_eq_iff_eq.mpr rfl, compare_eq_iff_eq.mpr rfl]
      rfl
    · rw [compare_gt_iff_gt.mpr hgt]
      exact (compare_gt_iff_gt.mpr (by omega)).symm
  · rw [compare_gt_iff_gt.mpr hgt]
    exact (compare_gt_iff_gt.mpr (by omega)).symm

theorem swap_compare_eq_compare_neg (a b : Int) : (compare a b).swap = compare (-a) (-b) := by
  rcases Int.lt_trichotomy a b with hlt | rfl | hgt
  · rw [compare_lt_iff_lt.mpr hlt, compare_gt_iff_gt.mpr (by omega)]
    rfl
  · rw [compare_eq_iff_eq.mpr rfl, compare_eq_iff_eq.mpr rfl]
    rfl
  · rw [compare_gt_iff_gt.mpr hgt, compare_lt_iff_lt.mpr (by omega)]
    rfl

/-- What is a number is read as one. -/
theorem unpack_ne_notANumber {x : Float} (hx : x.isNaN = false) :
    x.toModel.unpack ≠ .notANumber := by
  change x.toModel.unpack.isNaN = false at hx
  intro hxu
  rw [hxu] at hx
  cases hx

/-- Two numbers compare as their places do. -/
theorem compare_eq_compare_rank {x y : Float} (hx : x.isNaN = false) (hy : y.isNaN = false) :
    x.toModel.unpack.compare y.toModel.unpack = some (compare (rank x) (rank y)) := by
  rw [rank, rank]
  have hlt : ∀ {a b : Int}, a < b → some Ordering.lt = some (compare a b) :=
    fun h => by rw [compare_lt_iff_lt.mpr h]
  have hgt : ∀ {a b : Int}, b < a → some Ordering.gt = some (compare a b) :=
    fun h => by rw [compare_gt_iff_gt.mpr h]
  cases hxu : x.toModel.unpack with
  | notANumber => exact absurd hxu (unpack_ne_notANumber hx)
  | infinity s =>
    cases hyu : y.toModel.unpack with
    | notANumber => exact absurd hyu (unpack_ne_notANumber hy)
    | infinity s' => cases s <;> cases s' <;> rfl
    | zero s' => cases s <;> rfl
    | finite s' m e hm =>
      cases s <;> cases s'
      · exact hlt (place_negative_bounds hyu).1
      · exact hlt (Int.lt_trans (by decide) (place_positive_bounds hyu).1)
      · exact hgt (Int.lt_trans (place_negative_bounds hyu).2 (by decide))
      · exact hgt (place_positive_bounds hyu).2
  | zero s =>
    cases hyu : y.toModel.unpack with
    | notANumber => exact absurd hyu (unpack_ne_notANumber hy)
    | infinity s' => cases s' <;> rfl
    | zero s' => rfl
    | finite s' m e hm =>
      cases s'
      · exact hgt (place_negative_bounds hyu).2
      · exact hlt (place_positive_bounds hyu).1
  | finite s m e hm =>
    cases hyu : y.toModel.unpack with
    | notANumber => exact absurd hyu (unpack_ne_notANumber hy)
    | infinity s' =>
      cases s <;> cases s'
      · exact hgt (place_negative_bounds hxu).1
      · exact hlt (Int.lt_trans (place_negative_bounds hxu).2 (by decide))
      · exact hgt (Int.lt_trans (by decide) (place_positive_bounds hxu).1)
      · exact hlt (place_positive_bounds hxu).2
    | zero s' =>
      cases s
      · exact hlt (place_negative_bounds hxu).2
      · exact hgt (place_positive_bounds hxu).1
    | finite s' m' e' hm' =>
      have hwidth := (unpack_bounds hxu).1
      have hwidth' := (unpack_bounds hyu).1
      cases s <;> cases s'
      · exact congrArg some (by
          rw [compare_then_compare e e' hwidth hwidth', swap_compare_eq_compare_neg]; rfl)
      · exact hlt (Int.lt_trans (place_negative_bounds hxu).2 (place_positive_bounds hyu).1)
      · exact hgt (Int.lt_trans (place_negative_bounds hyu).2 (place_positive_bounds hxu).1)
      · exact congrArg some (compare_then_compare e e' hwidth hwidth')

/-! ## Comparisons -/

/-- A non-number compares with nothing. -/
theorem compare_eq_none_of_isNaN {x y : Float} (h : x.isNaN = true ∨ y.isNaN = true) :
    x.toModel.unpack.compare y.toModel.unpack = none := by
  change x.toModel.unpack.isNaN = true ∨ y.toModel.unpack.isNaN = true at h
  cases hxu : x.toModel.unpack <;> cases hyu : y.toModel.unpack <;>
    simp_all [Float.Model.UnpackedFloat.isNaN, Float.Model.UnpackedFloat.compare]

/-- Numbers alone compare, and do so as their places do. -/
theorem compare_eq_some_iff {x y : Float} {o : Ordering} :
    x.toModel.unpack.compare y.toModel.unpack = some o ↔
      x.isNaN = false ∧ y.isNaN = false ∧ compare (rank x) (rank y) = o := by
  cases hx : x.isNaN with
  | true => simp [compare_eq_none_of_isNaN (.inl hx)]
  | false =>
    cases hy : y.isNaN with
    | true => simp [compare_eq_none_of_isNaN (.inr hy)]
    | false => simp [compare_eq_compare_rank hx hy]

theorem lt_iff {x y : Float} :
    x < y ↔ x.isNaN = false ∧ y.isNaN = false ∧ rank x < rank y := by
  have hdef : x < y ↔ (x.toModel.unpack.compare y.toModel.unpack == some .lt) = true := by
    change decide (x.toModel < y.toModel) = true ↔ _
    rw [decide_eq_true_iff]
    rfl
  rw [hdef, beq_iff_eq, compare_eq_some_iff, compare_lt_iff_lt]

theorem le_iff {x y : Float} :
    x ≤ y ↔ x.isNaN = false ∧ y.isNaN = false ∧ rank x ≤ rank y := by
  have hdef : x ≤ y ↔ (x.toModel.unpack.compare y.toModel.unpack).any (·.isLE) = true := by
    change decide (x.toModel ≤ y.toModel) = true ↔ _
    rw [decide_eq_true_iff]
    rfl
  rw [hdef, Option.any_eq_true]
  simp only [compare_eq_some_iff]
  constructor
  · rintro ⟨o, ⟨hx, hy, rfl⟩, hle⟩
    exact ⟨hx, hy, Int.isLE_compare.mp hle⟩
  · rintro ⟨hx, hy, hle⟩
    exact ⟨_, ⟨hx, hy, rfl⟩, Int.isLE_compare.mpr hle⟩

/-- Two numbers are equal as numbers if they have one place; so are both zeros. -/
theorem beq_iff {x y : Float} :
    (x == y) = true ↔ x.isNaN = false ∧ y.isNaN = false ∧ rank x = rank y := by
  change (x.toModel.unpack.compare y.toModel.unpack == some .eq) = true ↔ _
  rw [beq_iff_eq, compare_eq_some_iff, compare_eq_iff_eq]

theorem le_self {x : Float} (hx : x.isNaN = false) : x ≤ x :=
  le_iff.mpr ⟨hx, hx, Int.le_refl _⟩

theorem le_of_le_of_le {x y z : Float} (hxy : x ≤ y) (hyz : y ≤ z) : x ≤ z := by
  obtain ⟨hx, -, hfirst⟩ := le_iff.mp hxy
  obtain ⟨-, hz, hsecond⟩ := le_iff.mp hyz
  exact le_iff.mpr ⟨hx, hz, Int.le_trans hfirst hsecond⟩

theorem le_of_lt {x y : Float} (h : x < y) : x ≤ y := by
  obtain ⟨hx, hy, hlt⟩ := lt_iff.mp h
  exact le_iff.mpr ⟨hx, hy, Int.le_of_lt hlt⟩

/-- Of two numbers that can be compared one is not above the other. -/
theorem le_of_not_lt {x y : Float} (hx : x.isNaN = false) (hy : y.isNaN = false)
    (h : ¬ x < y) : y ≤ x := by
  refine le_iff.mpr ⟨hy, hx, ?_⟩
  by_contra hrank
  exact h (lt_iff.mpr ⟨hx, hy, by omega⟩)

/-- The finite numbers are those strictly between the infinities. -/
theorem isFinite_iff {x : Float} :
    x.isFinite = true ↔ x.isNaN = false ∧ -top < rank x ∧ rank x < top := by
  change x.toModel.unpack.isFinite = true ↔ x.toModel.unpack.isNaN = false ∧ _
  have htop : 0 < top := by decide
  rw [rank]
  cases hxu : x.toModel.unpack with
  | notANumber => simp [Float.Model.UnpackedFloat.isFinite, Float.Model.UnpackedFloat.isNaN]
  | infinity s => cases s <;> simp [Float.Model.UnpackedFloat.isFinite, place, Sign.apply]
  | zero s => exact iff_of_true rfl ⟨rfl, (by decide : -top < 0), htop⟩
  | finite s m e hm =>
    cases s with
    | negative =>
      obtain ⟨hlow, hhigh⟩ := place_negative_bounds hxu
      exact iff_of_true rfl ⟨rfl, hlow, Int.lt_trans hhigh htop⟩
    | positive =>
      obtain ⟨hlow, hhigh⟩ := place_positive_bounds hxu
      exact iff_of_true rfl ⟨rfl, by omega, hhigh⟩

theorem zero_le_iff {x : Float} : 0 ≤ x ↔ x.isNaN = false ∧ 0 ≤ rank x := by
  rw [le_iff]
  exact and_iff_right (by decide)

theorem zero_lt_iff {x : Float} : 0 < x ↔ x.isNaN = false ∧ 0 < rank x := by
  rw [lt_iff]
  exact and_iff_right (by decide)

/-! ## What a place tells of a number -/

/-- A finite number is a zero or has a significand and an exponent. -/
theorem unpack_of_isFinite {x : Float} (hx : x.isFinite = true) :
    (∃ s, x.toModel.unpack = .zero s) ∨ ∃ s m e hm, x.toModel.unpack = .finite s m e hm := by
  change x.toModel.unpack.isFinite = true at hx
  cases hxu : x.toModel.unpack with
  | notANumber =>
    rw [hxu] at hx
    cases hx
  | infinity s =>
    rw [hxu] at hx
    cases hx
  | zero s => exact .inl ⟨s, rfl⟩
  | finite s m e hm => exact .inr ⟨s, m, e, hm, rfl⟩

theorem unpack_of_rank_eq_zero {x : Float} (hx : x.isFinite = true) (h : rank x = 0) :
    ∃ s, x.toModel.unpack = .zero s := by
  refine (unpack_of_isFinite hx).resolve_right ?_
  rintro ⟨s, m, e, hm, hxu⟩
  rw [rank, hxu] at h
  cases s with
  | negative => exact absurd h (Int.ne_of_lt (place_negative_bounds hxu).2)
  | positive => exact absurd h (Int.ne_of_gt (place_positive_bounds hxu).1)

theorem unpack_of_rank_pos {x : Float} (hx : x.isFinite = true) (h : 0 < rank x) :
    ∃ m e hm, x.toModel.unpack = .finite .positive m e hm ∧
      rank x = (e + 1075) * 2 ^ 53 + m ∧ m < 2 ^ 53 ∧ -1074 ≤ e ∧ e ≤ 971 := by
  rcases unpack_of_isFinite hx with ⟨s, hxu⟩ | ⟨s, m, e, hm, hxu⟩
  · rw [rank, hxu] at h
    exact absurd h (Int.lt_irrefl 0)
  · rw [rank, hxu] at h ⊢
    cases s with
    | negative => exact absurd h (Int.lt_asymm (place_negative_bounds hxu).2)
    | positive => exact ⟨m, e, hm, rfl, rfl, unpack_bounds hxu⟩

end PlantGrammar.Numeric
