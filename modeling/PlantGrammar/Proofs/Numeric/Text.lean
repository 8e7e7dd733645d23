import PlantGrammar.Numeric.Text
import PlantGrammar.Proofs.Numeric.Decimal

/-!
# The characters of a number

A number is written in digits with at most a point and a sign, or in the letters of
the words for an infinity and for the non-number.
-/

namespace PlantGrammar.Numeric

/-- The characters that numbers are written in. -/
def InNumber (c : Char) : Prop := c.isDigit = true ∨ c ∈ ['.', '-', 'i', 'n', 'f', 'N', 'a']

instance (c : Char) : Decidable (InNumber c) := inferInstanceAs (Decidable (_ ∨ _))

theorem Decimal.isDigit_or_of_mem_chars {d : Decimal} :
    ∀ c ∈ d.chars, c.isDigit = true ∨ c = '.' := by
  intro c hc
  by_cases h : d.places = 0
  · rw [chars, if_pos h] at hc
    exact .inl (Text.isDigit_of_mem_toDigits c hc)
  · rw [chars_of_places h, List.mem_append, List.mem_cons] at hc
    rcases hc with hwhole | hpoint | hfraction
    · exact .inl (Text.isDigit_of_mem_toDigits c hwhole)
    · exact .inr hpoint
    · exact .inl (isDigit_of_mem_fraction c hfraction)

namespace Encoding

variable {f : Format}

theorem inNumber_of_mem_magnitude (e : Encoding f) : ∀ c ∈ e.magnitude, InNumber c := by
  have hinf : "inf".toList.all (fun c => decide (InNumber c)) = true := by decide
  intro c hc
  rw [magnitude] at hc
  split at hc
  · rcases Decimal.isDigit_or_of_mem_chars c hc with hdigit | rfl
    · exact .inl hdigit
    · decide
  · exact of_decide_eq_true (List.all_eq_true.mp hinf c hc)

theorem inNumber_of_mem_chars (e : Encoding f) : ∀ c ∈ e.chars, InNumber c := by
  have hnan : "NaN".toList.all (fun c => decide (InNumber c)) = true := by decide
  intro c hc
  rw [chars] at hc
  split at hc
  · exact of_decide_eq_true (List.all_eq_true.mp hnan c hc)
  · split at hc
    · rcases List.mem_cons.mp hc with rfl | hc
      · decide
      · exact inNumber_of_mem_magnitude e c hc
    · exact inNumber_of_mem_magnitude e c hc

end Encoding

end PlantGrammar.Numeric
