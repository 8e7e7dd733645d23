import PlantGrammar.Proofs.Ron.Name
import PlantGrammar.Proofs.Text.Hex
import PlantGrammar.Ron.Number

/-!
# Natural numbers are read back

A natural number is written in plain decimal. Its digits are taken one by one, and
none of the values on the way leaves a type that holds the number; behind them
neither a digit nor the name of a type can follow.
-/

namespace PlantGrammar.Ron

open Text Reader

/-! ## The value of digits -/

/-- A digit moves the value on, in a type that holds the value it leads to. -/
theorem accumulate_digit {t : IntegerType} (hlow : t.low ≤ 0) {n d : Nat} {cs : List Char}
    (hd : d < 10) (hhigh : (10 * n + d : Nat) ≤ t.high) :
    accumulate t false 10 n (d.digitChar :: cs) =
      accumulate t false 10 (10 * n + d : Nat) cs := by
  have hgroup : d.digitChar ≠ '_' := (by decide : ∀ d < 10, d.digitChar ≠ '_') d hd
  have hvalue : (n : Int) * (10 : Nat) + d = (10 * n + d : Nat) := by omega
  have hscaled : t.holds ((n : Int) * (10 : Nat)) = true := by
    simp [IntegerType.holds]
    omega
  have hnext : t.holds (10 * n + d : Nat) = true := by
    simp [IntegerType.holds]
    omega
  rw [accumulate, if_neg hgroup, if_neg (by simp only [hscaled]; decide),
    hexDigit?_digitChar (by omega)]
  simp only [Bool.false_eq_true, if_false, hvalue]
  rw [if_neg (by omega), if_pos hnext]

/-- The digits of a number lead to it, in a type that holds it. -/
theorem accumulate_toDigits {t : IntegerType} (hlow : t.low ≤ 0) (n : Nat) :
    ∀ cs, (n : Int) ≤ t.high →
      accumulate t false 10 0 (Nat.toDigits 10 n ++ cs) = accumulate t false 10 n cs := by
  induction n using Nat.strongRecOn with
  | ind n ih =>
    intro cs hhigh
    by_cases hsmall : n < 10
    · have hdigit : accumulate t false 10 (0 : Nat) (n.digitChar :: cs) =
          accumulate t false 10 (10 * 0 + n : Nat) cs :=
        accumulate_digit hlow hsmall (by omega)
      rw [Nat.toDigits_of_lt_base hsmall]
      simpa using hdigit
    · have hlast : accumulate t false 10 (n / 10 : Nat) ((n % 10).digitChar :: cs) =
          accumulate t false 10 (10 * (n / 10) + n % 10 : Nat) cs :=
        accumulate_digit hlow (Nat.mod_lt n (by decide)) (by omega)
      rw [Nat.toDigits_of_base_le (by decide) (Nat.le_of_not_lt hsmall), List.append_assoc,
        List.singleton_append, ih (n / 10) (by omega) _ (by omega), hlast, Nat.div_add_mod]

/-! ## Numbers -/

theorem writeNatural_ne_nil (n : Nat) : writeNatural n ≠ [] := Nat.toDigits_ne_nil

theorem isDigit_of_mem {n : Nat} : ∀ c ∈ writeNatural n, c.isDigit = true :=
  isDigit_of_mem_toDigits

theorem writeNatural_begins (n : Nat) : Begins ']' (writeNatural n) := by
  obtain ⟨c, cs, hcs⟩ := List.exists_cons_of_ne_nil (writeNatural_ne_nil n)
  obtain ⟨d, hd, rfl⟩ :=
    exists_digit_of_mem_toDigits (by decide) n c (hcs ▸ List.mem_cons_self)
  exact ⟨_, cs, hcs, (by decide : ∀ d < 10, Seen d.digitChar ∧ d.digitChar ≠ ']') d hd⟩

theorem isIntegerChar_of_mem {n : Nat} : ∀ c ∈ writeNatural n, isIntegerChar c = true := by
  intro c hc
  obtain ⟨d, hd, rfl⟩ := exists_digit_of_mem_toDigits (by decide) n c hc
  simp [isIntegerChar, hexDigit?_digitChar (show d < 16 by omega)]

theorem isIntegerChar_of_ends {rest : List Char} (h : Ends rest) :
    ∀ c ∈ rest.head?, isIntegerChar c = false :=
  h.head?_eq_false (by decide)

/-- The names of the types begin with a letter for the kind. -/
theorem integerTypes_head? : ∀ t ∈ IntegerType.all,
    t.name.toList.head? = some 'i' ∨ t.name.toList.head? = some 'u' := by decide

/-- No type is named behind the digits. -/
theorem namedType?_writeNatural {n : Nat} {rest : List Char} (h : Ends rest) :
    namedType? (writeNatural n ++ rest) = none := by
  have hbehind : (writeNatural n ++ rest).dropWhile isIntegerChar = rest :=
    Text.dropWhile_append isIntegerChar_of_mem (isIntegerChar_of_ends h)
  rw [namedType?, hbehind, List.findSome?_eq_none_iff]
  intro t ht
  rcases integerTypes_head? t ht with hname | hname
  · rw [keyword?_of_ends hname (by decide) h, Option.map_none]
  · rw [keyword?_of_ends hname (by decide) h, Option.map_none]

/-- No sign stands in front of a written number. -/
theorem splitSign_writeNatural (n : Nat) (rest : List Char) :
    splitSign (writeNatural n ++ rest) = (false, writeNatural n ++ rest) := by
  obtain ⟨c, cs, hcs⟩ := List.exists_cons_of_ne_nil (writeNatural_ne_nil n)
  have hdigit : c.isDigit = true := isDigit_of_mem c (hcs ▸ List.mem_cons_self)
  rw [hcs, List.cons_append, splitSign.eq_def]
  split
  · next heq =>
    cases heq
    cases hdigit
  · next heq =>
    cases heq
    cases hdigit
  · rfl

/-- Neither does a mark of another base: behind the first digit there are digits, or
what ends a value. -/
theorem digitRun_writeNatural {n : Nat} {rest : List Char} (h : Ends rest) :
    digitRun (writeNatural n ++ rest) = (10, writeNatural n, rest) := by
  have hplain : ∀ mark more, mark.isDigit = false → mark ∉ stops →
      writeNatural n ++ rest ≠ '0' :: mark :: more := by
    intro mark more hdigit hends heq
    obtain ⟨c, cs, hcs⟩ := List.exists_cons_of_ne_nil (writeNatural_ne_nil n)
    rw [hcs] at heq
    cases cs with
    | nil =>
      obtain ⟨-, rfl⟩ := List.cons_eq_cons.mp heq
      exact hends (h mark rfl)
    | cons d cs =>
      obtain ⟨-, htail⟩ := List.cons_eq_cons.mp heq
      obtain ⟨rfl, -⟩ := List.cons_eq_cons.mp htail
      have := isDigit_of_mem d (hcs ▸ List.mem_cons_of_mem c List.mem_cons_self)
      rw [hdigit] at this
      cases this
  have hspan : (writeNatural n ++ rest).span isIntegerChar = (writeNatural n, rest) :=
    Text.span_append isIntegerChar_of_mem (isIntegerChar_of_ends h)
  rw [digitRun.eq_def]
  split
  · next heq => exact absurd heq (hplain _ _ (by decide) (by decide))
  · next heq => exact absurd heq (hplain _ _ (by decide) (by decide))
  · next heq => exact absurd heq (hplain _ _ (by decide) (by decide))
  · rw [hspan]

/-- A number is read back in any type that holds it. -/
theorem natural_writeNatural {t : IntegerType} (hlow : t.low ≤ 0) {n : Nat}
    (hhigh : (n : Int) ≤ t.high) {rest : List Char} (h : Ends rest) :
    Reader.natural t (writeNatural n ++ rest) = .ok (n, rest) := by
  have hvalue : integerValue t false 10 (writeNatural n) = .ok (n : Int) := by
    have hgroup : (writeNatural n).head? ≠ some '_' := by
      intro hhead
      cases isDigit_of_mem _ (List.mem_of_mem_head? hhead)
    have hdigits := accumulate_toDigits hlow n [] hhigh
    rw [List.append_nil] at hdigits
    rw [integerValue, if_neg (by simp [hgroup, writeNatural_ne_nil]), writeNatural, hdigits,
      accumulate]
  rw [Reader.natural, splitSign_writeNatural]
  simp only [digitRun_writeNatural h, namedType?_writeNatural h, hvalue]
  rfl

end PlantGrammar.Ron
