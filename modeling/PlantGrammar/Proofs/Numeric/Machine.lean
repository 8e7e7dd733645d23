import Mathlib
import PlantGrammar.Numeric.Format

/-!
# Non-numbers and machine numbers

Many patterns are no numbers, and texts stand for one of them alone. A machine number
has no other, and its encoding gives it back, so nothing of it is lost in a text.
-/

namespace PlantGrammar.Numeric

open Float.Model.UnpackedFloat

/-! ## Non-numbers -/

namespace Encoding

/-- The number itself, and for a non-number the one of its sign that texts stand
for. -/
def canonical {f : Format} (x : Encoding f) : Encoding f :=
  if x.isNaN then ⟨x.negative, f.notANumber⟩ else x

theorem isNaN_canonical (x : Encoding .binary64) : x.canonical.isNaN = x.isNaN := by
  rw [canonical]
  split
  · next h =>
    rw [h]
    exact (by decide : decide (Format.binary64.infinity < Format.binary64.notANumber) = true)
  · rfl

end Encoding

/-! ## Machine numbers -/

/-- The exponent field of a machine number, by its word. -/
theorem toNat_unpackExponent (x : Float) :
    (@unpackExponent .binary64 x.toBits.toBitVec).toNat = x.toBits.toNat / 2 ^ 52 % 2 ^ 11 := by
  simp [unpackExponent, BitVec.extractLsb, Nat.shiftRight_eq_div_pow]

/-- The fraction field of a machine number, by its word. -/
theorem toNat_unpackMantissa (x : Float) :
    (@unpackMantissa .binary64 x.toBits.toBitVec).toNat = x.toBits.toNat % 2 ^ 52 := by
  simp [unpackMantissa, BitVec.extractLsb]

/-- The one machine number that is no number. -/
theorem toBits_of_isNaN {x : Float} (h : (Encoding.ofFloat x).isNaN = true) :
    x.toBits = 0x7FF8000000000000 := by
  let word := x.toBits.toNat
  have hpattern : Format.binary64.infinity < word % 2 ^ 63 := of_decide_eq_true h
  have hinfinity : Format.binary64.infinity = 2047 * 2 ^ 52 := by decide
  have hpacked : packedNaN .binary64 = (0x7FF8000000000000 : UInt64).toBitVec := by decide
  refine UInt64.toBitVec_inj.mp ((x.toModel.valid.eq_packedNaN ?_ ?_).trans hpacked)
  · refine BitVec.eq_of_toNat_eq ((toNat_unpackExponent x).trans ?_)
    change word / 2 ^ 52 % 2 ^ 11 = 2047
    omega
  · intro hzero
    have hnone : word % 2 ^ 52 = 0 :=
      (toNat_unpackMantissa x).symm.trans (congrArg BitVec.toNat hzero)
    omega

namespace Encoding

theorem canonical_ofFloat (x : Float) : (ofFloat x).canonical = ofFloat x := by
  rw [canonical]
  split
  · next h =>
    rw [ofFloat, toBits_of_isNaN h]
    decide
  · rfl

theorem toWord_ofWord (f : Format) (word : Nat)
    (h : word < 2 * 2 ^ (f.exponentBits + f.fractionBits)) : (ofWord f word).toWord = word := by
  let top := 2 ^ (f.exponentBits + f.fractionBits)
  change (if decide (top ≤ word) = true then top else 0) + word % top = word
  by_cases hle : top ≤ word
  · rw [if_pos (decide_eq_true hle), Nat.mod_eq_sub_mod hle, Nat.mod_eq_of_lt (by omega)]
    omega
  · rw [if_neg (by simpa using hle), Nat.mod_eq_of_lt (Nat.not_le.mp hle), Nat.zero_add]

theorem toFloat_ofFloat (x : Float) : (ofFloat x).toFloat = x := by
  have hword : (ofFloat x).toWord = x.toBits.toNat := toWord_ofWord _ _ x.toBits.toNat_lt
  rw [toFloat, hword, UInt64.ofNat_toNat, Float.ofBits_toBits]

end Encoding

end PlantGrammar.Numeric
