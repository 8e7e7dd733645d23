import PlantGrammar.Numeric.Shortest
import PlantGrammar.Proofs.Numeric.Rounding
import PlantGrammar.Proofs.Text.Hex
import PlantGrammar.Proofs.Text.Runs

/-!
# Decimals are read back

The shortest decimal of a number rounds to this number, its text is read as the
decimal that it was written for, and reading rounds to the nearest number however far
a decimal lies out of range. So a number is read back from its text.
-/

namespace PlantGrammar.Numeric

variable {f : Format}

/-! ## Values -/

namespace Decimal

/-- Dropping zeros leaves the value. -/
theorem nearest_trim (f : Format) (digits places : Nat) :
    (trim digits places).nearest f = f.nearest digits (10 ^ places) := by
  induction places generalizing digits with
  | zero => rfl
  | succ places ih =>
    rw [trim]
    split
    · next hzero =>
      have hdigits : digits / 10 * 10 = digits := Nat.div_mul_cancel (Nat.dvd_of_mod_eq_zero hzero)
      rw [ih, ← Format.nearest_mul (Nat.pow_pos (by decide)) (by decide : 0 < 10), hdigits,
        Nat.pow_succ]
    · rfl

end Decimal

namespace Format

variable {pattern : Nat}

theorem nearest_exact (h : pattern < f.infinity) : (f.exact pattern).nearest f = pattern := by
  let k := f.grain - f.shift pattern
  have hden : (f.ratio pattern).2 = 2 ^ k := rfl
  have hpowers : (10 : Nat) ^ k = 2 ^ k * 5 ^ k := by rw [← Nat.mul_pow]
  rw [exact]
  dsimp only
  rw [Decimal.nearest_trim, hden, Nat.log2_two_pow, hpowers]
  change f.nearest ((f.ratio pattern).1 * 5 ^ k) (2 ^ k * 5 ^ k) = pattern
  rw [nearest_mul (Nat.two_pow_pos k) (Nat.pow_pos (by decide)), ← hden]
  exact nearest_ratio h

/-- **The shortest decimal** of a number rounds to this number. -/
theorem nearest_shortest (h : pattern < f.infinity) :
    (f.shortest pattern).nearest f = pattern := by
  rw [shortest]
  split
  · next hzero =>
    simp [hzero, Decimal.nearest, nearest]
  · dsimp only
    -- however the candidate was found, it is only taken if it rounds to the number
    generalize (GridRange.shortest? _ _).map _ = found
    cases hkept : found.filter fun d => d.nearest f = pattern with
    | none => exact nearest_exact h
    | some d =>
      have hd := (Option.filter_eq_some_iff.mp hkept).2
      simpa using hd

end Format

/-! ## Reading -/

namespace Scientific

/-- A number lies between the powers of ten that its digits count. -/
theorem pow_length_toDigits {n : Nat} (hn : 0 < n) :
    10 ^ ((Nat.toDigits 10 n).length - 1) ≤ n ∧ n < 10 ^ (Nat.toDigits 10 n).length := by
  have hlength : 0 < (Nat.toDigits 10 n).length := Nat.length_toDigits_pos
  constructor
  · rcases Nat.eq_or_lt_of_le hlength with hone | hmore
    · rw [← hone]
      exact hn
    · by_contra hless
      have := (Nat.length_toDigits_le_iff (by decide) (by omega)).mpr (Nat.not_le.mp hless)
      omega
  · exact (Nat.length_toDigits_le_iff (by decide) hlength).mp (Nat.le_refl _)

/-- The value of a numeral as numerator and denominator. -/
def ratio (s : Scientific) : Nat × Nat :=
  (s.digits * 10 ^ s.exponent.toNat, 10 ^ (-s.exponent).toNat)

/-- Where the leading digit of a numeral stands. -/
def leading (s : Scientific) : Int := (Nat.toDigits 10 s.digits).length + s.exponent

variable {s : Scientific}

theorem ratio_pos (hs : 0 < s.digits) : 0 < s.ratio.1 ∧ 0 < s.ratio.2 :=
  ⟨Nat.mul_pos hs (Nat.pow_pos (by decide)), Nat.pow_pos (by decide)⟩

theorem cast_ratio (s : Scientific) : (s.ratio.1 / s.ratio.2 : ℚ) = s.digits * 10 ^ s.exponent := by
  have hten : (10 : ℚ) ≠ 0 := by norm_num
  rw [ratio]
  push_cast
  rw [mul_div_assoc, ← zpow_natCast, ← zpow_natCast, ← zpow_sub₀ hten]
  congr 2
  omega

/-- The value of a numeral lies between the powers of ten around its leading digit. -/
theorem zpow_leading_bounds (hs : 0 < s.digits) :
    (10 : ℚ) ^ (s.leading - 1) ≤ s.ratio.1 / s.ratio.2 ∧
      (s.ratio.1 / s.ratio.2 : ℚ) < 10 ^ s.leading := by
  have hten : (10 : ℚ) ≠ 0 := by norm_num
  have hscale : (0 : ℚ) < 10 ^ s.exponent := by positivity
  have hlength : 0 < (Nat.toDigits 10 s.digits).length := Nat.length_toDigits_pos
  obtain ⟨hlow, hhigh⟩ := pow_length_toDigits hs
  rw [cast_ratio]
  constructor
  · have hsplit : (10 : ℚ) ^ (s.leading - 1) =
        10 ^ ((Nat.toDigits 10 s.digits).length - 1) * 10 ^ s.exponent := by
      rw [← zpow_natCast, ← zpow_add₀ hten, leading]
      congr 1
      omega
    rw [hsplit, mul_le_mul_iff_left₀ hscale]
    exact_mod_cast hlow
  · have hsplit : (10 : ℚ) ^ s.leading =
        10 ^ (Nat.toDigits 10 s.digits).length * 10 ^ s.exponent := by
      rw [← zpow_natCast, ← zpow_add₀ hten, leading]
    rw [hsplit, mul_lt_mul_iff_left₀ hscale]
    exact_mod_cast hhigh

/-- A leading digit too far above the format stands for a value beyond it. -/
theorem nearest_ratio_of_leading_gt (hs : 0 < s.digits)
    (h : (2 ^ f.exponentBits : Nat) < s.leading) :
    f.nearest s.ratio.1 s.ratio.2 = f.infinity := by
  obtain ⟨hnum, hden⟩ := ratio_pos hs
  have hquotient : (0 : ℚ) < s.ratio.1 / s.ratio.2 := by positivity
  refine Format.nearest_eq_infinity hnum ?_
  rw [floorLog2_eq_log hnum hden, ← Int.zpow_le_iff_le_log one_lt_two hquotient]
  calc ((2 : Nat) : ℚ) ^ ((2 ^ f.exponentBits : Nat) : Int)
      ≤ 10 ^ ((2 ^ f.exponentBits : Nat) : Int) := by
        rw [zpow_natCast, zpow_natCast]
        exact pow_le_pow_left₀ (by norm_num) (by norm_num) _
    _ ≤ 10 ^ (s.leading - 1) := zpow_le_zpow_right₀ (by norm_num) (by omega)
    _ ≤ s.ratio.1 / s.ratio.2 := (zpow_leading_bounds hs).1

/-- One too far below it stands for next to nothing. -/
theorem nearest_ratio_of_leading_lt (hgrain : f.grain ≤ 2 ^ f.exponentBits) (hs : 0 < s.digits)
    (h : s.leading < -(2 ^ f.exponentBits : Nat)) : f.nearest s.ratio.1 s.ratio.2 = 0 := by
  obtain ⟨hnum, hden⟩ := ratio_pos hs
  have hquotient : (0 : ℚ) < s.ratio.1 / s.ratio.2 := by positivity
  refine Format.nearest_eq_zero hnum hden ?_
  rw [floorLog2_eq_log hnum hden, ← Int.lt_zpow_iff_log_lt one_lt_two hquotient]
  calc (s.ratio.1 / s.ratio.2 : ℚ) < 10 ^ s.leading := (zpow_leading_bounds hs).2
    _ ≤ 10 ^ (-(f.grain + 1 : Nat) : Int) := zpow_le_zpow_right₀ (by norm_num) (by omega)
    _ ≤ ((2 : Nat) : ℚ) ^ (-(f.grain + 1 : Nat) : Int) := by
        rw [zpow_neg, zpow_neg, zpow_natCast, zpow_natCast]
        exact inv_anti₀ (by positivity) (pow_le_pow_left₀ (by norm_num) (by norm_num) _)

/-- A numeral is rounded by its value, also where its leading digit decides alone. -/
theorem nearest_eq (hgrain : f.grain ≤ 2 ^ f.exponentBits) (s : Scientific) :
    s.nearest f = f.nearest s.ratio.1 s.ratio.2 := by
  change (if s.digits = 0 then 0
    else if (2 ^ f.exponentBits : Nat) < s.leading then f.infinity
    else if s.leading < -(2 ^ f.exponentBits : Nat) then 0
    else f.nearest s.ratio.1 s.ratio.2) = f.nearest s.ratio.1 s.ratio.2
  rcases Nat.eq_zero_or_pos s.digits with hzero | hpos
  · simp [ratio, hzero, Format.nearest]
  rw [if_neg hpos.ne']
  split
  · next hlarge => exact (nearest_ratio_of_leading_gt hpos hlarge).symm
  split
  · next hsmall => exact (nearest_ratio_of_leading_lt hgrain hpos hsmall).symm
  · rfl

end Scientific

/-! ## Texts -/

namespace Decimal

/-- The places of a numeral, all of which are written. -/
def fraction (d : Decimal) : List Char :=
  let digits := Nat.toDigits 10 (d.digits % 10 ^ d.places)
  List.replicate (d.places - digits.length) '0' ++ digits

variable {d : Decimal}

theorem chars_of_places (h : d.places ≠ 0) :
    d.chars = Nat.toDigits 10 (d.digits / 10 ^ d.places) ++ '.' :: d.fraction := by
  rw [chars]
  exact if_neg h

theorem isDigit_of_mem_fraction : ∀ c ∈ d.fraction, c.isDigit = true := by
  intro c hc
  rcases List.mem_append.mp hc with hzero | hdigit
  · rw [(List.mem_replicate.mp hzero).2]
    rfl
  · exact Text.isDigit_of_mem_toDigits c hdigit

theorem length_fraction (h : d.places ≠ 0) : d.fraction.length = d.places := by
  have hshort : (Nat.toDigits 10 (d.digits % 10 ^ d.places)).length ≤ d.places :=
    (Nat.length_toDigits_le_iff (by decide) (Nat.pos_of_ne_zero h)).mpr
      (Nat.mod_lt _ (Nat.pow_pos (by decide)))
  rw [fraction, List.length_append, List.length_replicate]
  exact Nat.sub_add_cancel hshort

/-- The digits of both sides of the point together are those of the numeral. -/
theorem ofDigitChars_whole_fraction (h : d.places ≠ 0) :
    Nat.ofDigitChars 10 (Nat.toDigits 10 (d.digits / 10 ^ d.places) ++ d.fraction) 0 =
      d.digits := by
  have hfraction : Nat.ofDigitChars 10 d.fraction 0 = d.digits % 10 ^ d.places := by
    rw [fraction, Nat.ofDigitChars_append, Nat.ofDigitChars_replicate_zero, Nat.mul_zero,
      Nat.ofDigitChars_ten_toDigits]
  rw [Nat.ofDigitChars_append, Nat.ofDigitChars_ten_toDigits, Nat.ofDigitChars_eq_ofDigitChars_zero,
    hfraction, length_fraction h, Nat.div_add_mod]

end Decimal

namespace Scientific

theorem spanDigits_append {digits rest : List Char} (hdigits : ∀ c ∈ digits, c.isDigit = true)
    (hrest : ∀ c ∈ rest.head?, c.isDigit = false) :
    spanDigits (digits ++ rest) = (digits, rest) :=
  Text.span_append hdigits hrest

theorem spanDigits_self {digits : List Char} (hdigits : ∀ c ∈ digits, c.isDigit = true) :
    spanDigits digits = (digits, []) := by
  have hspan : spanDigits (digits ++ []) = (digits, []) := spanDigits_append hdigits nofun
  rwa [List.append_nil] at hspan

/-- A numeral is read from its text. -/
theorem ofChars?_chars (d : Decimal) : ofChars? d.chars = some ⟨d.digits, -d.places⟩ := by
  by_cases h : d.places = 0
  · have hchars : d.chars = Nat.toDigits 10 d.digits := by
      rw [Decimal.chars, if_pos h, h]
      simp
    rw [hchars, ofChars?, spanDigits_self Text.isDigit_of_mem_toDigits]
    simp [exponent?, Nat.toDigits_ne_nil, h]
  · have hwhole : spanDigits (Nat.toDigits 10 (d.digits / 10 ^ d.places) ++ '.' :: d.fraction) =
        (Nat.toDigits 10 (d.digits / 10 ^ d.places), '.' :: d.fraction) :=
      spanDigits_append Text.isDigit_of_mem_toDigits (by simp)
    rw [Decimal.chars_of_places h, ofChars?, hwhole]
    simp [spanDigits_self Decimal.isDigit_of_mem_fraction, exponent?, Nat.toDigits_ne_nil,
      Decimal.ofDigitChars_whole_fraction h, Decimal.length_fraction h]

/-- The text of a numeral is read as the nearest number. -/
theorem nearest_ofChars?_chars (hgrain : f.grain ≤ 2 ^ f.exponentBits) (d : Decimal) :
    (ofChars? d.chars).map (nearest f) = some (d.nearest f) := by
  rw [ofChars?_chars, Option.map_some, nearest_eq hgrain]
  simp [ratio, Decimal.nearest]

end Scientific

end PlantGrammar.Numeric
