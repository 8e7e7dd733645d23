import PlantGrammar.Proofs.Ron.Float
import PlantGrammar.Proofs.Ron.Quoted

/-!
# What is written is a value

Numbers and strings, and so all that a field of parameters holds, are written as literals
or names of the grammar.
-/

namespace PlantGrammar.Ron

open Reader Text Numeric

/-! ## Numbers -/

theorem isDigitOf_digitChar {d : Nat} (h : d < 10) : isDigitOf 10 d.digitChar = true := by
  rw [isDigitOf, hexDigit?_digitChar (by omega)]
  exact decide_eq_true h

/-- Decimal digits behind zeros, or without any. -/
theorem isDigits_append_toDigits (count n : Nat) :
    IsDigits 10 (List.replicate count '0' ++ Nat.toDigits 10 n) := by
  have hdigits : ∀ c ∈ List.replicate count '0' ++ Nat.toDigits 10 n, isDigitOf 10 c = true := by
    refine List.forall_mem_append.mpr ⟨fun c hc => ?_, fun c hc => ?_⟩
    · rw [(List.mem_replicate.mp hc).2]
      decide
    · obtain ⟨d, hd, rfl⟩ := exists_digit_of_mem_toDigits (by decide) n c hc
      exact isDigitOf_digitChar hd
  have hne : List.replicate count '0' ++ Nat.toDigits 10 n ≠ [] := by
    simp [Nat.toDigits_ne_nil]
  obtain ⟨c, more, hcons⟩ := List.exists_cons_of_ne_nil hne
  refine ⟨fun c hc _ => hdigits c hc, ?_⟩
  rw [hcons]
  exact hdigits c (hcons ▸ List.mem_cons_self)

theorem isDigits_toDigits (n : Nat) : IsDigits 10 (Nat.toDigits 10 n) :=
  isDigits_append_toDigits 0 n

theorem isMantissa_chars (d : Decimal) : IsMantissa d.chars := by
  by_cases h : d.places = 0
  · rw [Decimal.chars, if_pos h]
    exact .whole (isDigits_toDigits _)
  · rw [Decimal.chars_of_places h]
    exact .places (isDigits_toDigits _) (isDigits_append_toDigits _ _)

/-- A mantissa is a float without exponent and type. -/
theorem IsMantissa.isFloat {mantissa sign : List Char} {negative : Bool} (h : IsMantissa mantissa)
    (hsign : IsSign negative sign) : IsFloat (sign ++ mantissa) := by
  have hfloat := IsFloat.numeral hsign h .absent
    (List.mem_cons_self (a := "") (l := ["f32", "f64"]))
  simpa using hfloat

theorem isValue_writeNatural (n : Nat) : IsValue 0 (writeNatural n) :=
  .literal (.float ((IsMantissa.whole (isDigits_toDigits n)).isFloat .absent))

theorem isSign_signChars (negative : Bool) : IsSign negative (signChars negative) := by
  cases negative
  · exact .absent
  · exact .minus

theorem isValue_writeFloat (x : Encoding .binary64) : IsValue 0 (writeFloat x) := by
  cases hfinite : x.isFinite with
  | true =>
    rw [writeFloat_of_isFinite hfinite]
    exact .literal (.float ((isMantissa_chars _).isFloat (isSign_signChars _)))
  | false =>
    rw [writeFloat_of_not_isFinite hfinite]
    cases x.negative with
    | false =>
      have hname : ∀ w ∈ ["NaN", "inf"], IsPlain w.toList ∧ w.toList ≠ "Some".toList := by decide
      obtain ⟨hplain, hsome⟩ := hname (if x.isNaN then "NaN" else "inf") (by split <;> decide)
      exact .name (.plain hplain.isName) hsome
    | true =>
      have hword : IsFloat ("-inf".toList ++ "".toList) ∧ IsFloat ("-NaN".toList ++ "".toList) :=
        ⟨.word (by decide) (by decide), .word (by decide) (by decide)⟩
      refine .literal (.float ?_)
      split
      · exact hword.2
      · exact hword.1

/-! ## Strings -/

theorem isBody_flatMap (cs : List Char) :
    IsBody (IsEscape IsCharacter) (cs.flatMap escapeInString) := by
  induction cs with
  | nil => exact .nil
  | cons c cs ih =>
    rw [List.flatMap_cons]
    obtain ⟨hself, hmark, hback⟩ | ⟨text, htext, hescape, -⟩ := escapeInString_cases c
    · rw [hself]
      exact .char hmark hback ih
    · rw [htext]
      exact .escape hescape ih

theorem isValue_writeString (cs : List Char) : IsValue 0 (writeString cs) :=
  .literal (.string (isBody_flatMap cs))

end PlantGrammar.Ron
