import Mathlib.Data.List.Induction
import PlantGrammar.Text.Hex

/-!
# Digits that are read back

The digits of a number, in any base up to sixteen, are taken for what they stand
for by `Text.hexDigit?`; the hexadecimal digits of a number give it back.
-/

namespace PlantGrammar.Text

theorem hexDigit?_digitChar : ∀ {d : Nat}, d < 16 → hexDigit? d.digitChar = some d := by
  decide

theorem exists_digit_of_mem_toDigits {base : Nat} (hbase : 1 < base) (n : Nat) :
    ∀ c ∈ Nat.toDigits base n, ∃ d < base, c = d.digitChar := by
  induction n using Nat.strongRecOn with
  | ind n ih =>
    intro c hc
    by_cases hsmall : n < base
    · rw [Nat.toDigits_of_lt_base hsmall] at hc
      exact ⟨n, hsmall, List.mem_singleton.mp hc⟩
    · have hle : base ≤ n := Nat.le_of_not_lt hsmall
      have hless : n / base < n := Nat.div_lt_self (by omega) hbase
      rw [Nat.toDigits_of_base_le hbase hle, List.mem_append] at hc
      rcases hc with hfront | hlast
      · exact ih _ hless c hfront
      · exact ⟨n % base, Nat.mod_lt n (by omega), List.mem_singleton.mp hlast⟩

theorem exists_digitChar_of_isDigit {c : Char} (h : c.isDigit = true) :
    ∃ d < 10, c = d.digitChar := by
  have hcode : 0x30 ≤ c.toNat ∧ c.toNat ≤ 0x39 := by
    simp only [Char.isDigit, Bool.and_eq_true, decide_eq_true_eq, ge_iff_le,
      UInt32.le_iff_toNat_le] at h
    exact h
  have hdigits : ∀ d < 10, Char.ofNat (0x30 + d) = d.digitChar := by decide
  refine ⟨c.toNat - 0x30, by omega, ?_⟩
  rw [← hdigits _ (by omega), Nat.add_sub_cancel' hcode.1, Char.ofNat_toNat]

theorem isDigit_of_mem_toDigits {n : Nat} : ∀ c ∈ Nat.toDigits 10 n, c.isDigit = true :=
  fun _ => Nat.isDigit_of_mem_toDigits (by decide) (by decide)

theorem hexValue?_append_digit {cs : List Char} {c : Char} {n d : Nat}
    (hcs : hexValue? cs = some n) (hc : hexDigit? c = some d) :
    hexValue? (cs ++ [c]) = some (16 * n + d) := by
  rw [hexValue?] at hcs ⊢
  rw [List.foldl_append, hcs]
  simp [hc]

/-- What has a value is made of digits. -/
theorem isSome_hexDigit? {cs : List Char} :
    (hexValue? cs).isSome = true → ∀ c ∈ cs, (hexDigit? c).isSome = true := by
  induction cs using List.reverseRecOn with
  | nil => exact fun _ => nofun
  | append_singleton cs c ih =>
    intro h
    have hlast : hexValue? (cs ++ [c]) =
        (do return 16 * (← hexValue? cs) + (← hexDigit? c)) := by
      rw [hexValue?, List.foldl_append]
      rfl
    rw [hlast] at h
    cases hcs : hexValue? cs with
    | none => simp [hcs] at h
    | some n =>
      cases hc : hexDigit? c with
      | none => simp [hcs, hc] at h
      | some d =>
        exact List.forall_mem_append.mpr ⟨ih (Option.isSome_of_eq_some hcs), by simp [hc]⟩

/-- A number is read back from its digits. -/
theorem hexValue?_hexChars (n : Nat) : hexValue? (hexChars n) = some n := by
  induction n using Nat.strongRecOn with
  | ind n ih =>
    rw [hexChars]
    by_cases hsmall : n < 16
    · rw [Nat.toDigits_of_lt_base hsmall]
      have hdigit : hexValue? ([] ++ [n.digitChar]) = some (16 * 0 + n) :=
        hexValue?_append_digit rfl (hexDigit?_digitChar hsmall)
      simpa using hdigit
    · have hless : n / 16 < n := by omega
      have hlast := hexValue?_append_digit (ih _ hless)
        (hexDigit?_digitChar (Nat.mod_lt n (by decide)))
      rwa [Nat.div_add_mod, hexChars, ← Nat.toDigits_of_base_le (by decide) (by omega)] at hlast

end PlantGrammar.Text
